import Mathlib
import Trench.AuthZone.Zonefile
import Trench.Wire.NameSpelling
import Trench.Wire.RdataRoundTrip

set_option autoImplicit false

/- Master files as the format defines them: the fields of an entry and how they may be laid out on
lines, what a field stands for, and what the entries of a file say one after the other. -/
namespace Trench.AuthZone.MasterFile

open Wire
open Wire.Rdata (LegalName)
open Wire.Name (SpellsAll joinDots digitsValue)
open Zonefile (Kind Loaded)
open Engine (utf8)

/-! ### Fields -/

/-- Blanks, semicolons, parentheses and quotes stand in a field behind a backslash only. -/
inductive Bare : Text → Prop
  | nil : Bare []
  | char {c : Char} {t : Text} (blank : Name.isSpace c = false) (plain : c ∉ [';', '(', ')', '"', '\\'])
      (rest : Bare t) : Bare (c :: t)
  | escaped {c : Char} {t : Text} (rest : Bare t) : Bare ('\\' :: c :: t)

/-- What stands between quotes: a quote stands there behind a backslash only. -/
inductive Body : Text → Octets → Prop
  | nil : Body [] []
  | char {c : Char} {t : Text} {octets : Octets} (plain : c ∉ ['"', '\\']) (rest : Body t octets) :
      Body (c :: t) (utf8 [c] ++ octets)
  | escaped {c : Char} {t : Text} {octets : Octets} (mark : Name.isDigit c = false) (rest : Body t octets) :
      Body ('\\' :: c :: t) (utf8 [c] ++ octets)
  | decimal {a b c : Char} {t : Text} {octets : Octets}
      (digits : Name.isDigit a = true ∧ Name.isDigit b = true ∧ Name.isDigit c = true)
      (small : digitsValue a b c ≤ 0xFF) (rest : Body t octets) :
      Body ('\\' :: a :: b :: c :: t) (UInt8.ofNat (digitsValue a b c) :: octets)

/-- A character string between quotes. -/
def Quoted (w : Text) (octets : Octets) : Prop := ∃ body, w = '"' :: (body ++ ['"']) ∧ Body body octets

/-- A character string, with quotes or without. -/
def Characters (w : Text) (octets : Octets) : Prop := Quoted w octets ∨ (Bare w ∧ w ≠ [] ∧ Body w octets)

def Field (w : Text) : Prop := (Bare w ∧ w ≠ []) ∨ ∃ octets, Quoted w octets

/-- Decimal digits. -/
def Decimal (w : Text) (n : Int) : Prop :=
  w ≠ [] ∧ w.all Name.isDigit = true ∧ n = (w.foldl (fun n d => n * 10 + (d.toNat - 48)) 0 : Nat)

/-- The name of a field: the origin itself, a name with the root dot, or one below the origin. -/
inductive NameField (org : Name) : Text → Name → Prop
  | free : NameField org ['@'] org
  | root : NameField org ['.'] Name.root
  | absolute {parts : List Text} {labels : List Label} (spelled : SpellsAll parts labels) (some : parts ≠ [])
      (legal : LegalName ⟨labels⟩) : NameField org (joinDots parts ++ ['.']) ⟨labels⟩
  | relative {parts : List Text} {labels : List Label} (spelled : SpellsAll parts labels) (some : parts ≠ [])
      (free : parts ≠ [['@']]) (legal : LegalName ⟨labels ++ org.labels⟩) :
      NameField org (joinDots parts) ⟨labels ++ org.labels⟩

/-- The data of a type. -/
inductive Data (org : Name) : Kind → List Text → Rdata → Prop
  | a {s : Text} : Data org .a [s] (.a s)
  | aaaa {s : Text} : Data org .aaaa [s] (.aaaa s)
  | ns {w : Text} {name : Name} (named : NameField org w name) : Data org .ns [w] (.ns name)
  | ptr {w : Text} {name : Name} (named : NameField org w name) : Data org .ptr [w] (.ptr name)
  | cname {w : Text} {name : Name} (named : NameField org w name) : Data org .cname [w] (.cname name)
  | dname {w : Text} {name : Name} (named : NameField org w name) : Data org .dname [w] (.dname name)
  | mx {p w : Text} {preference : Int} {exchange : Name} (number : Decimal p preference)
      (named : NameField org w exchange) : Data org .mx [p, w] (.mx { preference, exchange })
  | srv {p q r w : Text} {priority weight port : Int} {target : Name} (first : Decimal p priority)
      (second : Decimal q weight) (third : Decimal r port) (named : NameField org w target) :
      Data org .srv [p, q, r, w] (.srv { priority, weight, port, target })
  | txt {ws : List Text} {strings : List Octets} (some : ws ≠ []) (each : List.Forall₂ Quoted ws strings) :
      Data org .txt ws (.txt strings)
  | caa {f tag w : Text} {flags : Int} {value : Octets} (number : Decimal f flags) (plain : '\\' ∉ tag)
      (string : Characters w value) : Data org .caa [f, tag, w] (.caa { flags, tag := utf8 tag, value })
  | soa {m r a b c d e : Text} {mname rname : Name} {serial refresh retry expire minimum : Int}
      (first : NameField org m mname) (second : NameField org r rname) (numbers : Decimal a serial ∧
        Decimal b refresh ∧ Decimal c retry ∧ Decimal d expire ∧ Decimal e minimum) :
      Data org .soa [m, r, a, b, c, d, e] (.soa { mname, rname, serial, refresh, retry, expire, minimum })

/-! ### Layout -/

/-- One sign of a line: a field, a space or a tab, a parenthesis. -/
inductive Sign where
  | field (w : Text)
  | blank (tab : Bool)
  | opening
  | closing
  deriving DecidableEq

def Sign.text : Sign → Text
  | .field w => w
  | .blank tab => [if tab then '\t' else ' ']
  | .opening => ['(']
  | .closing => [')']

def Sign.isField : Sign → Bool
  | .field _ => true
  | _ => false

def Sign.fields : Sign → List Text
  | .field w => [w]
  | _ => []

structure Line where
  signs : List Sign
  comment : Option Text
  deriving DecidableEq

def Line.text (l : Line) : Text := l.signs.flatMap Sign.text ++ l.comment.elim [] fun t => ';' :: t

def Line.fields (l : Line) : List Text := l.signs.flatMap Sign.fields

/-- The parentheses a line opens and does not close. -/
def Line.depth (l : Line) : Int := l.signs.count .opening - l.signs.count .closing

/-- Lines that parentheses hold together: on each but the last one is left open. -/
inductive Held : Int → List Line → Prop
  | last {d : Int} {l : Line} (closed : d + l.depth = 0) : Held d [l]
  | more {d : Int} {l : Line} {ls : List Line} (left : 0 < d + l.depth) (rest : Held (d + l.depth) ls) :
      Held d (l :: ls)

/-- An entry on its lines. -/
structure Layout where
  lines : List Line
  held : Held 0 lines
  apart : ∀ l ∈ lines, l.signs.IsChain fun a b => a.isField = false ∨ b.isField = false
  fields : ∀ l ∈ lines, ∀ w ∈ l.fields, Field w

def Layout.words (y : Layout) : List Text := y.lines.flatMap Line.fields

/-- The sign that an entry begins with. -/
def Layout.first (y : Layout) : Option Sign := y.lines.head?.bind fun l => l.signs.head?

/-! ### Entries -/

/-- The TTL and the class of a record, in the order in which they stand. -/
inductive Stated where
  | neither
  | ttl (w : Text)
  | class (w : Text)
  | ttlClass (t c : Text)
  | classTtl (c t : Text)

def Stated.words : Stated → List Text
  | .neither => []
  | .ttl w | .class w => [w]
  | .ttlClass t c => [t, c]
  | .classTtl c t => [c, t]

def Stated.ttl? : Stated → Option Text
  | .ttl w | .ttlClass w _ | .classTtl _ w => some w
  | _ => none

def Stated.class? : Stated → Option Text
  | .class w | .ttlClass _ w | .classTtl w _ => some w
  | _ => none

inductive Entry where
  | nothing
  | origin (w : Text)
  | ttl (w : Text)
  | record (owner : Option Text) (stated : Stated) (type : Text) (data : List Text)

def Entry.words : Entry → List Text
  | .nothing => []
  | .origin w => ["$ORIGIN".toList, w]
  | .ttl w => ["$TTL".toList, w]
  | .record owner stated type data => owner.toList ++ stated.words ++ type :: data

/-- The entry stands on the lines: an owner and a directive at the start of the first, and where the
owner is omitted a blank. -/
def Entry.On (e : Entry) (y : Layout) : Prop :=
  y.words = e.words ∧
    match e with
    | .nothing => True
    | .record none _ _ _ => ∃ tab, y.first = some (.blank tab)
    | e => y.first = e.words.head?.map Sign.field

/-- What the entries before one have said. -/
structure Context where
  org : Name
  owner : Option Name := none
  /-- By a directive. -/
  ttl : Option Int := none
  /-- By a record. -/
  lastTtl : Option Int := none

/-- What an entry says where it stands. A TTL that is omitted is that of the directive, or the last one stated. -/
inductive Says (c : Context) : Entry → Context → Option Loaded → Prop
  | nothing : Says c .nothing c none
  | origin {w : Text} {name : Name} (named : NameField c.org w name) : Says c (.origin w) { c with org := name } none
  | ttl {w : Text} {n : Int} (number : Decimal w n) : Says c (.ttl w) { c with ttl := some n } none
  | record {owner : Option Text} {stated : Stated} {type : Text} {data : List Text} {r : Loaded}
      (owned : match owner with
        | some w => w.head? ≠ some '$' ∧ NameField c.org w r.owner
        | none => c.owner = some r.owner)
      (timed : match stated.ttl? with
        | some w => Decimal w r.ttl
        | none => c.ttl.or c.lastTtl = some r.ttl)
      (classed : ∀ w ∈ stated.class?, w.map Char.toUpper = "IN".toList)
      (typed : type.map Char.toUpper = r.kind.text) (means : Data c.org r.kind data r.rdata) :
      Says c (.record owner stated type data)
        { c with owner := some r.owner, lastTtl := if stated.ttl?.isSome then some r.ttl else c.lastTtl } (some r)

/-- What a file says, each of its entries being as `fine` has it. -/
inductive Reads (fine : Context → Entry → Layout → Prop) : Context → List (Entry × Layout) → List Loaded → Prop
  | nil {c : Context} : Reads fine c [] []
  | cons {c c' : Context} {e : Entry} {y : Layout} {r : Option Loaded} {rest : List (Entry × Layout)}
      {rs : List Loaded} (stands : e.On y) (ok : fine c e y) (tells : Says c e c' r) (others : Reads fine c' rest rs) :
      Reads fine c ((e, y) :: rest) (r.toList ++ rs)

/-- The text is a file with these entries. -/
def Written (text : Text) (file : List (Entry × Layout)) : Prop :=
  Filter.splitLines text = file.flatMap fun p => p.2.lines.map Line.text

end Trench.AuthZone.MasterFile
