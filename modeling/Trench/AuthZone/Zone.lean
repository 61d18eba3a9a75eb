import Mathlib
import Trench.Lib.Dict
import Trench.Wire.Message
import Trench.Dnssec.Nsec3

set_option autoImplicit false

/- One authoritative zone and its lookup. SHA-1, which only the hashed denial uses,
is a parameter. -/
namespace Trench.AuthZone

open Wire
open Dnssec (nameLt nsec3Hash nsec3B32 wildcardOf lastLabels)
open PathOrder (commonPrefix)

def defaultTtl : Int := 3600

/-! ### Response codes -/

def noError : Nat := 0
def formErr : Nat := 1
def servFail : Nat := 2
def nxDomain : Nat := 3
def refused : Nat := 5
def yxDomain : Nat := 6
def yxRrset : Nat := 7
def nxRrset : Nat := 8
def notAuth : Nat := 9
def notZone : Nat := 10

structure Answer where
  rcode : Nat := noError
  aa : Bool := true
  answers : List RR := []
  authority : List RR := []
  additional : List RR := []
  deriving DecidableEq

/-- What a lookup can raise: a field that the class of the data lacks, an empty
record set, a hashed owner that is not ASCII, two hashed owners that cannot be
sorted. -/
inductive LookupError where
  | attribute
  | index
  | decode
  | unordered
  deriving DecidableEq

/-- The records at one name. -/
abbrev Node := Dict RRType (List Rdata)

/-- The `sign_params` of a zone that was signed here. -/
structure SignParams where
  algorithm : UInt8
  nsec3 : Bool
  nsec3Salt : Octets
  nsec3Iterations : Nat
  deriving DecidableEq

/-- One journal entry; the serials are its `from` and its `to`. -/
structure JournalStep where
  fromSerial : Int
  toSerial : Int
  delete : List RR
  add : List RR
  deriving DecidableEq

/-- The signing key is kept in whatever form the signer takes it. -/
structure Zone where
  origin : Name
  records : Dict Name Node
  ttls : Dict (Name × RRType) Int
  rrsigs : Dict (Name × RRType) RrsigData
  signed : Bool
  signingKey : Option Octets
  signParams : Option SignParams
  journal : List JournalStep

/-- The records of one set. -/
def rrset (owner : Name) (rtype : RRType) (ttl : Int) (rds : List Rdata) : List RR :=
  rds.map fun rd => ⟨owner, rtype, RRClass.in, ttl, rd⟩

/-- The attribute `name`. -/
def nameOf : Rdata → Except LookupError Name
  | .ns name => .ok name
  | .cname name => .ok name
  | .ptr name => .ok name
  | .dname name => .ok name
  | _ => .error .attribute

/-- `rds[0]`. -/
def firstOf (rds : List Rdata) : Except LookupError Rdata :=
  match rds with
  | [] => .error .index
  | rd :: _ => .ok rd

/-- A hashed owner: it stands beside the names of the zone. -/
def nsec3Only (node : Node) : Bool :=
  node.contains RRType.nsec3 &&
    node.entries.all fun slot => slot.1 == RRType.nsec3 || slot.1 == RRType.rrsig

/-- Why a denial is given. -/
inductive DenialKind where
  | nodata
  | nxdomain
  | wildcard
  | wildcardNodata
  deriving DecidableEq

def maxCnameChain : Nat := 16

namespace Zone

def make (origin : Name) : Zone :=
  ⟨origin, Dict.empty, Dict.empty, Dict.empty, false, none, none, []⟩

/-- `records.get(name, {})`. -/
def node (z : Zone) (name : Name) : Node := (z.records.get? name).getD Dict.empty

/-- `records.get(name, {}).get(rtype, [])`. -/
def slot (z : Zone) (name : Name) (rtype : RRType) : List Rdata :=
  ((z.node name).get? rtype).getD []

def add (z : Zone) (name : Name) (rtype : RRType) (rdata : Rdata) (ttl : Int := defaultTtl) : Zone :=
  { z with
    records := z.records.set name ((z.node name).set rtype (z.slot name rtype ++ [rdata]))
    ttls := z.ttls.set (name, rtype) ttl }

/-- The SOA slot holds SOA data by construction. -/
def soa (z : Zone) : Option SoaData :=
  match z.slot z.origin RRType.soa with
  | .soa data :: _ => some data
  | _ => none

def names (z : Zone) : List Name :=
  (z.records.entries.map Prod.fst).insertionSort fun a b => a.canonKey ≤ b.canonKey

def ttlOf (z : Zone) (name : Name) (rtype : RRType) : Int :=
  (z.ttls.get? (name, rtype)).getD defaultTtl

def inBailiwick (z : Zone) (name : Name) : Bool := name.isSubdomainOf z.origin

/-! ### Names that exist -/

/-- How many labels the name shares with the owner, the origin's counted as shared. -/
def sharedLabels (z : Zone) (qname owner : Name) : Nat :=
  let base := z.origin.labels.length
  base + (commonPrefix (owner.canonKey.drop base) (qname.canonKey.drop base)).length

/-- The scan stops early once every label is shared; more it cannot find. -/
def closestEncloser (z : Zone) (qname : Name) : Name :=
  let owners := z.records.entries.filter fun entry => !nsec3Only entry.2
  lastLabels qname
    (owners.foldl (fun best entry => max best (z.sharedLabels qname entry.1)) z.origin.labels.length)

/-! ### Delegations -/

def isCut (z : Zone) (n : Name) : Bool :=
  (z.node n).contains RRType.ns && !(z.node n).contains RRType.soa

/-- The addresses of one server, where it lies inside the child zone. -/
def glue (z : Zone) (n : Name) (rd : Rdata) : Except LookupError (List RR) := do
  let target ← nameOf rd
  if !target.isSubdomainOf n then return []
  return [RRType.a, RRType.aaaa].flatMap fun gt =>
    rrset target gt (z.ttlOf target gt) (z.slot target gt)

def glues (z : Zone) (n : Name) : List Rdata → Except LookupError (List RR)
  | [] => return []
  | rd :: rest => do
      let first ← z.glue n rd
      let more ← z.glues n rest
      return first ++ more

def referral (z : Zone) (n : Name) : Except LookupError Answer := do
  let extra ← z.glues n (z.slot n RRType.ns)
  -- the DS set proves that the child is signed
  return {
    rcode := noError
    aa := false
    authority := rrset n RRType.ns (z.ttlOf n RRType.ns) (z.slot n RRType.ns) ++
      rrset n RRType.ds (z.ttlOf n RRType.ds) (z.slot n RRType.ds)
    additional := extra }

/-- The walk of `_delegation` up from the name. -/
def cutFrom (z : Zone) (qname : Name) (qtype : RRType) : List Label → Option Name
  | [] => none
  | label :: rest =>
      let n : Name := ⟨label :: rest⟩
      if n.labels.length > z.origin.labels.length then
        if qtype = RRType.ds ∧ (n == qname) = true then z.cutFrom qname qtype rest
        else if z.isCut n then some n
        else z.cutFrom qname qtype rest
      else none

def delegation (z : Zone) (qname : Name) (qtype : RRType) : Except LookupError (Option Answer) :=
  match z.cutFrom qname qtype qname.labels with
  | none => return none
  | some n => do return some (← z.referral n)

/-! ### Signatures and denial -/

def attachSig (z : Zone) (rrs : List RR) (name : Name) (rtype : RRType) (dnssecOk : Bool)
    (shown : Name) (ttl : Int) : List RR :=
  if dnssecOk && z.signed then
    match z.rrsigs.get? (name, rtype) with
    | some sig => rrs ++ [⟨shown, RRType.rrsig, RRClass.in, ttl, .rrsig sig⟩]
    | none => rrs
  else rrs

def negativeTtl (z : Zone) : Int :=
  let ttl := z.ttlOf z.origin RRType.soa
  match z.soa with
  | some soa => min ttl soa.minimum
  | none => ttl

def soaRr (z : Zone) (dnssecOk : Bool) : List RR :=
  match z.soa with
  | none => []
  | some soa =>
      z.attachSig [⟨z.origin, RRType.soa, RRClass.in, z.negativeTtl, .soa soa⟩] z.origin RRType.soa
        dnssecOk z.origin z.negativeTtl

def proving (z : Zone) (dnssecOk : Bool) : Bool := dnssecOk && z.signed

/-- The last owner of an NSEC record before the name. -/
def nsecPredecessor (z : Zone) (name : Name) : Name :=
  z.records.entries.foldl (fun best entry =>
    if entry.2.contains RRType.nsec && nameLt entry.1 name && nameLt best entry.1 then entry.1
    else best) z.origin

/-- The records of some owners, each owner once. -/
def denialRrsFrom (z : Zone) (rtype : RRType) : List Name → List Name → List RR
  | [], _ => []
  | owner :: rest, seen =>
      if seen.any (· == owner) then z.denialRrsFrom rtype rest seen
      else
        match z.slot owner rtype with
        | [] => z.denialRrsFrom rtype rest (owner :: seen)
        | rd :: _ =>
            z.attachSig [⟨owner, rtype, RRClass.in, z.negativeTtl, rd⟩] owner rtype true owner
                z.negativeTtl ++
              z.denialRrsFrom rtype rest (owner :: seen)

def denialRrs (z : Zone) (owners : List Name) (rtype : RRType) : List RR :=
  z.denialRrsFrom rtype owners []

/-- The hash that a hashed owner begins with. -/
def ownerHash (owner : Name) : Text :=
  match owner.labels with
  | [] => []
  | label :: _ => label.octets.map fun c => Char.ofNat (lowerOctet c).toNat

/-- `decode("ascii")` takes the first label. -/
def asciiOwner (owner : Name) : Bool :=
  match owner.labels with
  | [] => true
  | label :: _ => label.octets.all fun c => c < 0x80

def nsec3Owners (z : Zone) : List Name :=
  ((z.records.entries.filter fun entry => entry.2.contains RRType.nsec3).map Prod.fst).filter
    fun owner => !owner.labels.isEmpty

/-- The owners by their hashes. Two with one hash would be sorted by their names, which
have no order. -/
def nsec3Chain (z : Zone) : Except LookupError (List (Text × Name)) :=
  let owners := z.nsec3Owners
  if owners.all asciiOwner then
    if (owners.map ownerHash).Nodup then
      .ok ((owners.map fun owner => (ownerHash owner, owner)).insertionSort fun a b => a.1 ≤ b.1)
    else .error .unordered
  else .error .decode

/-- The scan of `_nsec3_owner`. -/
def scanChain (h : Text) (matching : Bool) : Name → List (Text × Name) → Option Name
  | prev, [] => if matching then none else some prev
  | prev, (hash, owner) :: rest =>
      if hash = h then some owner
      else if h < hash then (if matching then none else some prev)
      else scanChain h matching owner rest

section

variable (sha1 : Octets → Octets)

def nsec3Owner (z : Zone) (chain : List (Text × Name)) (name : Name) (matching : Bool) :
    Option Name :=
  let salt := (z.signParams.map SignParams.nsec3Salt).getD []
  let iterations := (z.signParams.map SignParams.nsec3Iterations).getD 0
  let h := (nsec3B32 (nsec3Hash sha1 name salt iterations)).map Char.toLower
  match chain.getLast? with
  | none => none
  | some last => scanChain h matching last.2 chain

def nsec3Denial (z : Zone) (qname encloser : Name) (kind : DenialKind) (wildcard : Option Name) :
    Except LookupError (List RR) := do
  let chain ← z.nsec3Chain
  if chain.isEmpty then return []
  let nextCloser := if qname.labels.length > encloser.labels.length then
      lastLabels qname (encloser.labels.length + 1)
    else qname
  let want : List (Option Name) :=
    match kind with
    | .nodata => [z.nsec3Owner sha1 chain qname true]
    | .wildcard => [z.nsec3Owner sha1 chain nextCloser false]
    | .nxdomain =>
        [z.nsec3Owner sha1 chain encloser true, z.nsec3Owner sha1 chain nextCloser false,
          z.nsec3Owner sha1 chain (wildcardOf encloser) false]
    | .wildcardNodata =>
        [z.nsec3Owner sha1 chain encloser true, z.nsec3Owner sha1 chain nextCloser false,
          wildcard.bind fun w => z.nsec3Owner sha1 chain w true]
  -- a name that is not matched is skipped
  return z.denialRrs (want.filterMap id) RRType.nsec3

def denial (z : Zone) (qname encloser : Name) (kind : DenialKind) (wildcard : Option Name := none) :
    Except LookupError (List RR) :=
  if (z.node z.origin).contains RRType.nsec3param then z.nsec3Denial sha1 qname encloser kind wildcard
  else
    let want : List Name :=
      match kind with
      | .nodata =>
          if (z.node qname).contains RRType.nsec then [qname] else [z.nsecPredecessor qname]
      | .wildcard => [z.nsecPredecessor qname]
      | .nxdomain => [z.nsecPredecessor qname, z.nsecPredecessor (wildcardOf encloser)]
      | .wildcardNodata => z.nsecPredecessor qname :: wildcard.toList
    .ok (z.denialRrs want RRType.nsec)

/-! ### Answers -/

/-- A denial where one is asked for. -/
def proof (z : Zone) (dnssecOk : Bool) (qname encloser : Name) (kind : DenialKind)
    (wildcard : Option Name := none) : Except LookupError (List RR) :=
  if z.proving dnssecOk then z.denial sha1 qname encloser kind wildcard else .ok []

def nodata (z : Zone) (dnssecOk : Bool) (qname : Name) (wildcard encloser : Option Name) :
    Except LookupError Answer := do
  let denied ← match wildcard with
    | some w => z.proof sha1 dnssecOk qname (encloser.getD w.parent) .wildcardNodata wildcard
    | none => z.proof sha1 dnssecOk qname (encloser.getD qname) .nodata
  return { rcode := noError, authority := z.soaRr dnssecOk ++ denied }

def nxdomain (z : Zone) (dnssecOk : Bool) (qname encloser : Name) : Except LookupError Answer := do
  let denied ← z.proof sha1 dnssecOk qname encloser .nxdomain
  return { rcode := nxDomain, authority := z.soaRr dnssecOk ++ denied }

/-- The loop over a CNAME chain, from the records found so far and the names seen.
It runs at most `MAX_CNAME_CHAIN` times, as each round adds a record. -/
def chase (z : Zone) (qtype : RRType) (dnssecOk : Bool) :
    Nat → List RR → List Name → Name → Node → Name → Except LookupError (List RR)
  | 0, ans, _, _, _, _ => .ok ans
  | fuel + 1, ans, seen, cur, curNode, curShown =>
      match curNode.get? RRType.cname with
      | none => .ok ans
      | some rds =>
          if ¬ ans.length < maxCnameChain ∨ seen.any (· == cur) then .ok ans
          else do
            let rd ← firstOf rds
            let ttl := z.ttlOf cur RRType.cname
            let ans := z.attachSig (ans ++ [⟨curShown, RRType.cname, RRClass.in, ttl, rd⟩]) cur
              RRType.cname dnssecOk curShown ttl
            let seen := cur :: seen
            let target ← nameOf rd
            if seen.any (· == target) || !z.inBailiwick target then return ans
            match z.records.get? target with
            | none => return ans
            | some nxt =>
                match nxt.get? qtype with
                | some rds =>
                    let ttl := z.ttlOf target qtype
                    return ans ++ z.attachSig (rrset target qtype ttl rds) target qtype dnssecOk target ttl
                | none => z.chase qtype dnssecOk fuel ans seen target nxt target

/-- The proof a wildcard answer carries: the name asked for does not exist. -/
def withExpansion (z : Zone) (dnssecOk : Bool) (owner : Name) (synth encloser : Option Name)
    (out : Answer) : Except LookupError Answer :=
  match synth with
  | none => .ok out
  | some qname => do
      let denied ← z.proof sha1 dnssecOk qname (encloser.getD owner.parent) .wildcard
      return { out with authority := out.authority ++ denied }

/-- `synth` is the query name when the owner is a wildcard. -/
def answerAt (z : Zone) (owner : Name) (node : Node) (qtype : RRType) (dnssecOk : Bool)
    (synth encloser : Option Name := none) : Except LookupError Answer := do
  let shown := synth.getD owner
  if qtype ≠ RRType.cname ∧ node.contains RRType.cname = true then
    let ans ← z.chase qtype dnssecOk maxCnameChain [] [] owner node shown
    z.withExpansion sha1 dnssecOk owner synth encloser { answers := ans }
  else
    match node.get? qtype with
    | some rds =>
        let ttl := z.ttlOf owner qtype
        let ans := z.attachSig (rrset shown qtype ttl rds) owner qtype dnssecOk shown ttl
        z.withExpansion sha1 dnssecOk owner synth encloser { answers := ans }
    | none => z.nodata sha1 dnssecOk shown (synth.map fun _ => owner) encloser

/-- The records at an owner that is a name of the zone. -/
def realNode (z : Zone) (name : Name) : Option Node :=
  (z.records.get? name).filter fun node => !nsec3Only node

def lookup (z : Zone) (qname : Name) (qtype : RRType) (dnssecOk : Bool := false) :
    Except LookupError Answer := do
  match ← z.delegation qname qtype with
  | some cut => return cut
  | none =>
      match z.realNode qname with
      | some node => z.answerAt sha1 qname node qtype dnssecOk
      | none =>
          let encloser := z.closestEncloser qname
          -- an empty non-terminal exists without records
          if encloser == qname then z.nodata sha1 dnssecOk qname none (some encloser)
          else
            let wild := wildcardOf encloser
            match z.records.get? wild with
            | some node => z.answerAt sha1 wild node qtype dnssecOk (some qname) (some encloser)
            | none => z.nxdomain sha1 dnssecOk qname encloser

end

end Zone

end Trench.AuthZone
