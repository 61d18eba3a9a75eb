import Mathlib
import Trench.Wire.NameText
import Trench.Wire.Reply

set_option autoImplicit false

/- What is done to an upstream's reply before anything else sees it. -/
namespace Trench.Engine

open Wire

/-! ### Unsolicited records -/

def maxCnameChain : Nat := 16

/-- `_TARGET_TYPES`. -/
def targetTypes : List RRType := [RRType.ns, RRType.mx, RRType.srv, RRType.svcb, RRType.https]

/-- The attribute `target`, unless it is false, else the attribute `name`; only where that
is a name. -/
def chainTarget : Rdata → Option Name
  | .srv d => if d.target.isRoot then none else some d.target
  | .svcb d | .https d => if d.target.isRoot then none else some d.target
  | .ns name | .cname name | .ptr name | .dname name => some name
  | _ => none

/-- The first of `target`, `exchange` and `name` that is a name. -/
def targetName : Rdata → Option Name
  | .srv d => some d.target
  | .svcb d | .https d => some d.target
  | .mx d => some d.exchange
  | .ns name | .cname name | .ptr name | .dname name => some name
  | _ => none

/-- The CNAME records of a section, target by owner. -/
def cnames (answers : List RR) : List (Name × Name) :=
  answers.filterMap fun rr =>
    if rr.rtype = RRType.cname then (chainTarget rr.rdata).map fun target => (rr.name, target)
    else none

/-- The loop of `_chain`; the first record of an owner counts. -/
def followChain (cnames : List (Name × Name)) : Nat → Name → List Name → List Name
  | 0, _, chain => chain
  | fuel + 1, cur, chain =>
      match cnames.find? fun entry => entry.1 == cur with
      | none => chain
      | some (_, next) =>
          if chain.any fun link => link == next then chain
          else followChain cnames fuel next (chain ++ [next])

/-- `_chain`. -/
def chain (qname : Name) (answers : List RR) : List Name :=
  followChain (cnames answers) maxCnameChain qname [qname]

/-- `_in_bailiwick`. -/
def inBailiwick (name qname : Name) : Bool := qname.isSubdomainOf name

/-- `_targets`. -/
def targets (rrs : List RR) : List Name :=
  rrs.filterMap fun rr =>
    if rr.rtype ∈ targetTypes then
      (targetName rr.rdata).filter fun target => target == rr.name || target.isSubdomainOf rr.name
    else none

def listed (names : List Name) (rr : RR) : Bool := names.any fun name => name == rr.name

/-- `sanitize` with the name asked for. -/
def sanitize (resp : Message) (owner : Name) : Message :=
  let allowed := chain owner resp.answers
  let answers := resp.answers.filter (listed allowed)
  let authority := resp.authority.filter fun rr =>
    listed allowed rr || allowed.any fun link => inBailiwick rr.name link
  let wanted := allowed ++ targets answers ++ targets authority
  { resp with answers, authority, additional := resp.additional.filter (listed wanted) }

/-! ### Parameters of SVCB and HTTPS -/

def echKey : UInt16 := 5

/-- `iter_params`; a parameter cut short ends the list. -/
def iterParams : Nat → Octets → List (UInt16 × Octets)
  | fuel + 1, a :: b :: c :: d :: rest =>
      let length := (join16 c d).toNat
      if rest.length < length then []
      else (join16 a b, rest.take length) :: iterParams fuel (rest.drop length)
  | _, _ => []

def hasEch (raw : Octets) : Bool := (iterParams raw.length raw).any fun param => param.1 == echKey

/-- `strip_ech`; octets that are not parameters leave the whole untouched. -/
def stripEch (raw : Octets) : Octets :=
  let params := iterParams raw.length raw
  let consumed := (params.map fun param => 4 + param.2.length).sum
  if hasEch raw = false ∨ consumed ≠ raw.length then raw
  else (params.filter fun param => param.1 != echKey).flatMap fun param =>
    octets16 param.1 ++ (octets16 (UInt16.ofNat param.2.length) ++ param.2)

/-- A service record with other parameters. -/
def withParams (change : Octets → Octets) (rr : RR) : RR :=
  if rr.rtype = RRType.svcb ∨ rr.rtype = RRType.https then
    match rr.rdata with
    | .svcb d => { rr with rdata := .svcb { d with params := change d.params } }
    | .https d => { rr with rdata := .https { d with params := change d.params } }
    | _ => rr
  else rr

/-- `strip_ech_records`. -/
def stripEchRecords (resp : Message) : Message :=
  { resp with
    answers := resp.answers.map (withParams stripEch)
    authority := resp.authority.map (withParams stripEch)
    additional := resp.additional.map (withParams stripEch) }

/-! ### Rebinding -/

/-- What is used of the `ipaddress` library: the text of an address given by its octets, and
whether an address text is private, loopback, link-local, unspecified or reserved. -/
structure Addresses where
  text : Octets → Text
  isPrivate : Text → Bool

/-- `_HINT_KEYS`, key to address length. -/
def hintKeys : List (UInt16 × Nat) := [(4, 4), (6, 16)]

/-- The addresses of a hint, of one length each. -/
def chunks (size : Nat) : Nat → Octets → List Octets
  | 0, _ => []
  | fuel + 1, val => if val = [] then [] else val.take size :: chunks size fuel (val.drop size)

/-- The loop of `_scrub_hints`: the parameters written out so far, and whether one changed;
nothing where the parameters are malformed. -/
def scrubLoop (lib : Addresses) : Nat → Octets → Octets → Bool → Option (Octets × Bool)
  | _, [], out, changed => some (out, changed)
  | fuel + 1, a :: b :: c :: d :: rest, out, changed =>
      let length := (join16 c d).toNat
      let val := rest.take length
      if val.length ≠ length then none
      else
        match hintKeys.lookup (join16 a b) with
        | none => scrubLoop lib fuel (rest.drop length) (out ++ (a :: b :: c :: d :: val)) changed
        | some size =>
            if length % size ≠ 0 then none
            else
              let addrs := chunks size val.length val
              let good := addrs.filter fun addr => !lib.isPrivate (lib.text addr)
              if good.length ≠ addrs.length then
                let blob := good.flatten
                let kept := if good = [] then []
                  else a :: b :: (octets16 (UInt16.ofNat blob.length) ++ blob)
                scrubLoop lib fuel (rest.drop length) (out ++ kept) true
              else scrubLoop lib fuel (rest.drop length) (out ++ (a :: b :: c :: d :: val)) changed
  | _, _, _, _ => none

/-- `_scrub_hints`, with the parameters themselves where there is nothing to remove. -/
def scrubHints (lib : Addresses) (params : Octets) : Octets :=
  match scrubLoop lib params.length params [] false with
  | some (out, true) => out
  | _ => params

/-- `is_local_name`, on a name without its last dot in lower case. -/
def isLocalName (qname : Text) (localSuffixes : List Text) : Bool :=
  localSuffixes.any fun s => qname == s || ('.' :: s).isSuffixOf qname

/-- An address record that points into private space. -/
def rebinds (lib : Addresses) (rr : RR) : Bool :=
  (rr.rtype == RRType.a || rr.rtype == RRType.aaaa) &&
    match rr.rdata with
    | .a address | .aaaa address => lib.isPrivate address
    | _ => false

def scrub (lib : Addresses) (resp : Message) (qname : Text) (localSuffixes : List Text) : Message :=
  if isLocalName qname localSuffixes then resp
  else { resp with
    answers := (resp.answers.filter fun rr => !rebinds lib rr).map (withParams (scrubHints lib)) }

/-! ### Letter case of the question -/

/-- `zerox20.verify`: the name asked for comes back letter by letter. -/
def verifyCase (resp : Message) (expected : Name) : Bool :=
  resp.question.any fun q => decide (q.name = expected)

/-- `zerox20.restore`. -/
def restoreCase (resp : Message) (original : Name) : Message :=
  { resp with
    questions := match resp.questions with
      | [] => []
      | q :: rest => { q with name := original } :: rest
    answers := resp.answers.map fun rr => if rr.name == original then { rr with name := original } else rr }

end Trench.Engine
