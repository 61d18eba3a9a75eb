import Mathlib
import Trench.AuthZone.Zone
import Trench.Engine.Pipeline
import Trench.Filter.Parser

set_option autoImplicit false

/- Zone files. A file is read line by line after the lines that parentheses hold together are
joined; what a record cannot be made of is dropped, what a directive cannot be made of is an error. -/

namespace Trench.AuthZone

open Wire
open Trench.Filter (splitLines words partition startsWith endsWith)
open Engine (utf8)

/-- Characters and numbers as `str` and `int` take them. On ASCII they are what they look like. -/
structure Strings where
  /-- `str.isdigit`, of one character. -/
  isDigit : Char → Bool
  /-- `int`, of a text. -/
  int : Text → Option Int
  upper : Text → Text
  lower : Text → Text
  isDigit_ascii : ∀ c : Char, c.toNat < 128 → isDigit c = Name.isDigit c
  int_digits : ∀ s : Text, s ≠ [] → s.all Name.isDigit = true → s.length ≤ 4300 →
    int s = some ((s.foldl (fun n d => n * 10 + (d.toNat - 48)) 0 : Nat) : Int)
  upper_ascii : ∀ s : Text, (∀ c ∈ s, c.toNat < 128) → upper s = s.map Char.toUpper
  lower_ascii : ∀ s : Text, (∀ c ∈ s, c.toNat < 128) → lower s = s.map Char.toLower

/-- Digits and letters are those of ASCII, and numbers have nothing but digits. -/
def Strings.ascii : Strings where
  isDigit c := decide ('0' ≤ c ∧ c ≤ '9')
  int s := if !s.isEmpty && s.all Name.isDigit then
      some ((s.foldl (fun n d => n * 10 + (d.toNat - 48)) 0 : Nat) : Int)
    else none
  upper := List.map Char.toUpper
  lower := List.map Char.toLower
  isDigit_ascii _ _ := Bool.decide_and _ _
  int_digits s filled digits _ := by rw [List.isEmpty_eq_false_iff.mpr filled, digits]; rfl
  upper_ascii _ _ := rfl
  lower_ascii _ _ := rfl

namespace Zonefile

/-- Why a file is not read: a directive is refused, with the line that is named, or a name is, or a number. -/
inductive ConfigFault where
  | needsArgument
  | bad (argument : Text)
  deriving DecidableEq

inductive LoadError where
  | config (origin : Text) (line : Nat) (directive : Text) (fault : ConfigFault)
  | wire (e : WireError)
  | value
  deriving DecidableEq

/-- What `_rdata` meets: it catches all but a name that cannot be read. -/
inductive Fault where
  | wire (e : WireError)
  | index
  | value
  | type
  deriving DecidableEq

/-- The record types that a file may hold. -/
inductive Kind where
  | a
  | aaaa
  | ns
  | ptr
  | cname
  | dname
  | mx
  | srv
  | txt
  | caa
  | soa
  deriving DecidableEq

def Kind.text : Kind → Text
  | .a => "A".toList
  | .aaaa => "AAAA".toList
  | .ns => "NS".toList
  | .ptr => "PTR".toList
  | .cname => "CNAME".toList
  | .dname => "DNAME".toList
  | .mx => "MX".toList
  | .srv => "SRV".toList
  | .txt => "TXT".toList
  | .caa => "CAA".toList
  | .soa => "SOA".toList

def kinds : List Kind := [.a, .aaaa, .ns, .ptr, .cname, .dname, .mx, .srv, .txt, .caa, .soa]

/-- The type that a text in upper case stands for. -/
def Kind.ofText (s : Text) : Option Kind := kinds.find? fun k => s == k.text

/-- `type_from_text` of it. -/
def Kind.rtype : Kind → RRType
  | .a => RRType.a
  | .aaaa => RRType.aaaa
  | .ns => RRType.ns
  | .ptr => RRType.ptr
  | .cname => RRType.cname
  | .dname => RRType.dname
  | .mx => RRType.mx
  | .srv => RRType.srv
  | .txt => RRType.txt
  | .caa => RRType.caa
  | .soa => RRType.soa

variable (u : Strings)

/-- `str.isdigit` -/
def isDigits (s : Text) : Bool := s ≠ [] && s.all u.isDigit

def rstrip (s : Text) : Text := s.rdropWhile Name.isSpace

def stripQuotes (s : Text) : Text := (s.dropWhile (· == '"')).rdropWhile (· == '"')

/-- What stands before the first semicolon. -/
def code (line : Text) : Text := line.takeWhile (· ≠ ';')

/-- `_logical_lines`, with what is joined so far and how deep in parentheses it is. -/
def logicalLinesFrom (buf : Text) (depth : Int) : List Text → List Text
  | [] => []
  | line :: lines =>
      let depth := depth + (code line).count '(' - (code line).count ')'
      let piece := line.map fun c => if c = '(' ∨ c = ')' then ' ' else c
      let buf := if buf = [] then piece else buf ++ ' ' :: piece
      if depth ≤ 0 then rstrip buf :: logicalLinesFrom [] 0 lines else logicalLinesFrom buf depth lines

def logicalLines (text : Text) : List Text := logicalLinesFrom [] 0 (splitLines text)

/-- The argument of a directive; what `parse` refuses is refused. -/
def directive {α : Type} (origin : Text) (lineno : Nat) (parse : Text → Option α) (line : Text) :
    Except LoadError α :=
  match words line with
  | name :: argument :: _ =>
      match parse argument with
      | some v => .ok v
      | none => .error (.config origin lineno name (.bad argument))
  | name :: _ => .error (.config origin lineno name .needsArgument)
  | [] => .error (.config origin lineno [] .needsArgument)

def qualify (s : Text) (org : Name) : Except WireError Name :=
  if s = ['@'] then .ok org
  else if endsWith s ['.'] then Name.fromText s
  else Name.fromText (s ++ '.' :: org.toText)

/-- `_owner`: the owner of a line, and what stands behind it. -/
def owner (line : Text) (last org : Name) : Except WireError (Name × Text) :=
  match line with
  | [] => .ok (last, [])
  | c :: _ =>
      if Name.isSpace c then .ok (last, Name.strip line)
      else
        let (ownerS, rest) := partition (if ' ' ∈ line then ' ' else '\t') line
        (qualify ownerS org).map fun name => (name, Name.strip rest)

def ttlUnits : List (Text × Int) :=
  [(['s'], 1), (['m'], 60), (['h'], 3600), (['d'], 86400), (['w'], 604800)]

def ttl (s : Text) : Option Int :=
  match s.getLast?.bind fun c => ttlUnits.lookup (u.lower [c]) with
  | some unit => (u.int s.dropLast).map fun n => n * unit
  | none => u.int s

/-! ### Data -/

def tokenAt (toks : List Text) (i : Nat) : Except Fault Text :=
  match toks[i]? with
  | some tok => .ok tok
  | none => .error .index

def int (s : Text) : Except Fault Int :=
  match u.int s with
  | some v => .ok v
  | none => .error .value

def name (org : Name) (s : Text) : Except Fault Name :=
  match qualify s org with
  | .ok name => .ok name
  | .error e => .error (.wire e)

def quoted (toks : List Text) : Octets := utf8 (stripQuotes ([' '].intercalate toks))

def readRdata (kind : Kind) (toks : List Text) (org : Name) : Except Fault Rdata :=
  match kind with
  | .a => do return .a (← tokenAt toks 0)
  | .aaaa => do return .aaaa (← tokenAt toks 0)
  | .ns => do return .ns (← name org (← tokenAt toks 0))
  | .ptr => do return .ptr (← name org (← tokenAt toks 0))
  | .cname => do return .cname (← name org (← tokenAt toks 0))
  | .dname => do return .dname (← name org (← tokenAt toks 0))
  | .mx => do
      let preference ← int u (← tokenAt toks 0)
      let exchange ← name org (← tokenAt toks 1)
      return .mx { preference, exchange }
  | .srv => do
      let priority ← int u (← tokenAt toks 0)
      let weight ← int u (← tokenAt toks 1)
      let port ← int u (← tokenAt toks 2)
      let target ← name org (← tokenAt toks 3)
      return .srv { priority, weight, port, target }
  | .txt => .ok (.txt [quoted toks])
  | .caa => do
      let flags ← int u (← tokenAt toks 0)
      let tag ← tokenAt toks 1
      return .caa { flags, tag := utf8 tag, value := quoted (toks.drop 2) }
  | .soa => do
      let mname ← name org (← tokenAt toks 0)
      let rname ← name org (← tokenAt toks 1)
      match ← ((toks.drop 2).take 5).mapM (int u) with
      | [serial, refresh, retry, expire, minimum] =>
          return .soa { mname, rname, serial, refresh, retry, expire, minimum }
      | _ => throw .type

/-- `_rdata` -/
def rdata (rtype : Text) (toks : List Text) (org : Name) : Except WireError (Option (Kind × Rdata)) :=
  match Kind.ofText rtype with
  | none => .ok none
  | some kind =>
      match readRdata u kind toks org with
      | .ok rd => .ok (some (kind, rd))
      | .error (.wire e) => .error e
      | .error _ => .ok none

/-! ### The file -/

/-- What the lines before one have left: the origin of relative names, the default TTL, the last owner. -/
structure Frame where
  org : Name
  defaultTtl : Int := 3600
  lastOwner : Name
  deriving DecidableEq

/-- One record as it is added to the zone. -/
structure Loaded where
  owner : Name
  kind : Kind
  rdata : Rdata
  ttl : Int
  deriving DecidableEq

/-- The TTL that the words begin with, or the one that stands without it. -/
def ttlAhead (standing : Int) (toks : List Text) : Except LoadError (Int × List Text) :=
  match toks with
  | tok :: more =>
      if isDigits u tok then
        match u.int tok with
        | some ttl => .ok (ttl, more)
        | none => .error .value
      else .ok (standing, toks)
  | [] => .ok (standing, [])

/-- A class is stepped past. -/
def classAhead (toks : List Text) : List Text :=
  match toks with
  | tok :: more => if u.upper tok ∈ ["IN", "CH", "HS"].map String.toList then more else toks
  | [] => []

/-- A line that is no directive: the owner, the TTL, the class, then the type and the data. -/
def recordLine (f : Frame) (line : Text) : Except LoadError (Name × Option Loaded) := do
  let (owner, rest) ← (owner line f.lastOwner f.org).mapError .wire
  let (ttl, toks) ← ttlAhead u f.defaultTtl (words rest)
  match classAhead u toks with
  | [] => return (owner, none)
  | rtype :: data => do
      let read ← (rdata u (u.upper rtype) data f.org).mapError .wire
      return (owner, read.map fun (kind, rd) => ⟨owner, kind, rd, ttl⟩)

/-- One line of the loop of `parse_zonefile`. -/
def parseLine (origin : Text) (lineno : Nat) (f : Frame) (line : Text) :
    Except LoadError (Frame × Option Loaded) :=
  if Name.strip line = [] then .ok (f, none)
  else if startsWith line "$ORIGIN".toList then
    (directive origin lineno (fun s => (Name.fromText s).toOption) line).map fun org => ({ f with org }, none)
  else if startsWith line "$TTL".toList then
    (directive origin lineno (ttl u) line).map fun ttl => ({ f with defaultTtl := ttl }, none)
  else (recordLine u f line).map fun (owner, loaded) => ({ f with lastOwner := owner }, loaded)

def addLoaded (zone : Zone) (r : Loaded) : Zone := zone.add r.owner r.kind.rtype r.rdata r.ttl

def parseLines (origin : Text) : Nat → Frame → Zone → List Text → Except LoadError Zone
  | _, _, zone, [] => .ok zone
  | lineno, f, zone, raw :: lines =>
      match parseLine u origin lineno f (rstrip (code raw)) with
      | .error e => .error e
      | .ok (f, loaded) => parseLines origin (lineno + 1) f (loaded.elim zone (addLoaded zone)) lines

end Zonefile

open Zonefile in
def parseZonefile (u : Strings) (text origin : Text) : Except LoadError Zone :=
  match Name.fromText origin with
  | .error e => .error (.wire e)
  | .ok org => parseLines u origin 1 { org, lastOwner := org } (Zone.make org) (logicalLines text)

end Trench.AuthZone
