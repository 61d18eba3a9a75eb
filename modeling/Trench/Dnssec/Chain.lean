import Mathlib
import Trench.AuthZone.Signer
import Trench.Dnssec.Nsec3
import Trench.Engine.Pipeline
import Trench.Lib.Acts
import Trench.Lib.Dict

set_option autoImplicit false

/- The chain of trust, walked down from the anchors. Validations share what they have found, and wait
for the records that they look up; hashes and the check of a signature are parameters. -/
namespace Trench.Dnssec

open Wire
open AuthZone (signedData keyTag dnskeyRdata canonName)
open Engine.Rcode (nxdomain)

inductive ValidationResult where
  | secure
  | insecure
  | bogus
  | indeterminate
  deriving DecidableEq

/-- `DNSSECError`, or anything else that is raised. -/
inductive ChainError where
  | dnssec
  | other
  deriving DecidableEq

/-- `_Work`, with the number of signatures that were checked. -/
structure Work where
  crypto : Int
  queries : Int
  checked : Nat := 0

structure Lookup where
  name : Name
  rtype : RRType
  deriving DecidableEq

/-- What a descent comes to: the deepest secure zone with its keys, or a cut below which nothing is signed. -/
inductive Trust where
  | secure (zone : Name) (keys : List DnskeyData)
  | insecure (cut : Name)

abbrev Cache (κ ν : Type) [BEq κ] := Dict κ (ℚ × ν)

/-- `_keys` and `_state`, and how often the two clocks were read. -/
structure Caches where
  keys : Cache (Text × List DsData) (List DnskeyData) := .empty
  state : Cache Text Trust := .empty
  readings : Nat := 0
  walls : Nat := 0

/-- Time goes on. -/
instance : Preorder Caches := Preorder.lift fun s => (s.readings, s.walls)

/-- The settings of `Validator`, and what is outside of it: the hashes, the check of a signature by a
key, the monotonic clock and the time of day. -/
structure Validator where
  anchors : List DsData
  maxCryptoOps : Int := 48
  maxChainQueries : Int := 32
  maxNsec3Iterations : Nat := 100
  sha1 : Octets → Octets
  sha256 : Octets → Octets
  sha384 : Octets → Octets
  checks : DnskeyData → UInt8 → Octets → Octets → Bool
  clock : Nat → ℚ
  wall : Nat → Int
  steady : Monotone clock

def maxDepth : Nat := 128

def maxTrustTtl : Int := 86400

def zoneFlag : UInt16 := 0x0100

def supportedAlgos : List UInt8 := [5, 7, 8, 10, 13, 14, 15, 16]

def supportedDigests : List UInt8 := [1, 2, 4]

/-! ### Records -/

/-- The data of a name's records of a type, as far as they were read as such. -/
def dataOf {α : Type} (rtype : RRType) (read : Rdata → Option α) (name : Name) (rrs : List RR) : List α :=
  rrs.filterMap fun rr => if rr.rtype = rtype ∧ (rr.name == name) = true then read rr.rdata else none

def ds? : Rdata → Option DsData
  | .ds d => some d
  | _ => none

def dnskey? : Rdata → Option DnskeyData
  | .dnskey d => some d
  | _ => none

def rrsig? : Rdata → Option RrsigData
  | .rrsig d => some d
  | _ => none

def nsec? : Rdata → Option NsecData
  | .nsec d => some d
  | _ => none

def nsec3? : Rdata → Option Nsec3Data
  | .nsec3 d => some d
  | _ => none

/-- The signatures of a name over a type; one that was not read as such has no `type_covered`. -/
def covering (name : Name) (covered : RRType) : List RR → Except ChainError (List RrsigData)
  | [] => .ok []
  | rr :: rrs =>
      if rr.rtype = RRType.rrsig ∧ (rr.name == name) = true then
        match rrsig? rr.rdata with
        | some sig => do
            let others ← covering name covered rrs
            return if sig.typeCovered = covered then sig :: others else others
        | none => .error .other
      else covering name covered rrs

/-- The data of each owner of records of a type. -/
def byOwner {α : Type} (rtype : RRType) (read : Rdata → Option α) (rrs : List RR) : Dict Name (List α) :=
  rrs.foldl (fun d rr =>
    match read rr.rdata with
    | some data => if rr.rtype = rtype then d.set rr.name ((d.get? rr.name).getD [] ++ [data]) else d
    | none => d) .empty

/-- `_wildcard_owner`: the name that a signature covers, and whether it is a wildcard for the owner. -/
def wildcardOwner (owner : Name) (sig : RrsigData) : Option (Name × Bool) :=
  let n := owner.labels.length
  let counted := if owner.labels.head? = some Label.star then n - 1 else n
  if counted < sig.labels.toNat then none
  else if sig.labels.toNat = counted then some (owner, false)
  else some (wildcardOf ⟨owner.labels.drop (n - sig.labels.toNat)⟩, true)

/-- The order of DS tuples. -/
def dsLe (a b : DsData) : Bool :=
  if a.keyTag ≠ b.keyTag then a.keyTag < b.keyTag
  else if a.algorithm ≠ b.algorithm then a.algorithm < b.algorithm
  else if a.digestType ≠ b.digestType then a.digestType < b.digestType
  else decide (a.digest ≤ b.digest)

/-- `_within_validity`, in serial arithmetic. -/
def withinValidity (rrsig : RrsigData) (now : Int) : Bool :=
  let serialLe (a b : Int) : Bool := (b - a) % 2 ^ 32 < 2 ^ 31
  let t := now % 2 ^ 32
  serialLe rrsig.inception.toNat t && serialLe t rrsig.expiration.toNat

/-- How long what rests on the records may be trusted. -/
def trustTtl (rrs : List RR) (sigs : List RrsigData) (wall : Int) : Int :=
  let ttl := rrs.foldl (fun ttl rr => min ttl rr.ttl) maxTrustTtl
  max 0 (sigs.foldl (fun ttl sig => min ttl ((sig.expiration.toNat - wall) % 2 ^ 32)) ttl)

/-! ### Steps of a validation -/

abbrev Step : Type → Type := Coroutine.Act Caches Lookup (Option Message) Work ChainError

def signOp : Step Unit := .charge fun work =>
  let work := { work with crypto := work.crypto - 1 }
  if work.crypto < 0 then (work, .error .dnssec) else ({ work with checked := work.checked + 1 }, .ok ())

def query : Step Unit := .charge fun work =>
  let work := { work with queries := work.queries - 1 }
  (work, if work.queries < 0 then .error .dnssec else .ok ())

/-- A lookup, from the budget of lookups. One that raises ends the validation. -/
def ask (name : Name) (rtype : RRType) : Step Message := do
  query
  match ← .send ⟨name, rtype⟩ with
  | some msg => return msg
  | none => .ofExcept (.error .other)

namespace Validator

variable (v : Validator)

def monotonic : StateM Caches ℚ := fun s => (v.clock s.readings, { s with readings := s.readings + 1 })

def time : StateM Caches Int := fun s => (v.wall s.walls, { s with walls := s.walls + 1 })

/-- `_expiry` -/
def expiry (rrs : List RR) (sigs : List RrsigData) : StateM Caches ℚ := do
  let wall ← v.time
  let now ← v.monotonic
  return now + trustTtl rrs sigs wall

/-- `_cached`, on a cache of a state. -/
def cached {κ ν : Type} [BEq κ] (get : Caches → Cache κ ν) (put : Caches → Cache κ ν → Caches) (key : κ) :
    StateM Caches (Option (ℚ × ν)) := do
  match (get (← MonadState.get)).get? key with
  | none => return none
  | some hit =>
      let now ← v.monotonic
      if hit.1 ≤ now then
        modify fun s => put s ((get s).erase key)
        return none
      return some hit

/-- `_store` -/
def store {κ ν : Type} [BEq κ] (get : Caches → Cache κ ν) (put : Caches → Cache κ ν → Caches) (key : κ) (expires : ℚ)
    (value : ν) (limit : Nat) : StateM Caches Unit := do
  if expires ≤ (← v.monotonic) then return
  if limit ≤ (get (← MonadState.get)).size then
    let now ← v.monotonic
    modify fun s => put s ((get s).keep fun e => !decide (e.2.1 ≤ now))
    if limit ≤ (get (← MonadState.get)).size then return
  modify fun s => put s ((get s).set key (expires, value))

def dsDigest (owner : Name) (dnskey : DnskeyData) (digestType : UInt8) : Option Octets :=
  let data := canonName owner ++ dnskeyRdata dnskey
  if digestType = 2 then some (v.sha256 data)
  else if digestType = 4 then some (v.sha384 data)
  else if digestType = 1 then some (v.sha1 data)
  else none

/-- `_ds_matches` -/
def dsMatches (zone : Name) (key : DnskeyData) (ds : DsData) : Bool :=
  ds.keyTag = keyTag key ∧ ds.algorithm = key.algorithm ∧ v.dsDigest zone key ds.digestType = some ds.digest

/-- `verify_rrset` -/
def verifyRrset (owner : Name) (rtype : RRType) (rdatas : List Rdata) (sig : RrsigData) (key : DnskeyData) :
    Step Bool := do
  if sig.algorithm ≠ key.algorithm then return false
  if sig.keyTag ≠ keyTag key then return false
  let now ← .atomic v.time
  if withinValidity sig now = false then return false
  let data ← .ofExcept ((signedData owner rtype RRClass.in sig rdatas).mapError fun _ => .other)
  return v.checks key sig.algorithm sig.signature data

/-- The keys with the tag of a signature, one after the other. -/
def verifyByKeys (owner : Name) (rtype : RRType) (rdatas : List Rdata) (sig : RrsigData) :
    List DnskeyData → Step Bool
  | [] => pure false
  | key :: keys => do
      if sig.algorithm ≠ key.algorithm then verifyByKeys owner rtype rdatas sig keys
      else
        signOp
        if ← v.verifyRrset owner rtype rdatas sig key then return true
        verifyByKeys owner rtype rdatas sig keys

/-- The loop of `_verify`. -/
def verifyBySigs (owner : Name) (rtype : RRType) (rdatas : List Rdata) (keys : List DnskeyData) (zone : Name) :
    List RrsigData → Step (Bool × Option Name)
  | [] => pure (false, none)
  | sig :: sigs => do
      if (sig.signer == zone) = false then verifyBySigs owner rtype rdatas keys zone sigs
      else
        match wildcardOwner owner sig with
        | none => verifyBySigs owner rtype rdatas keys zone sigs
        | some (signedOwner, expanded) =>
            if ← v.verifyByKeys signedOwner rtype rdatas sig (keys.filter fun key => keyTag key == sig.keyTag) then
              return (true, if expanded then some signedOwner else none)
            verifyBySigs owner rtype rdatas keys zone sigs

/-- `_verify`: whether the zone's keys have signed an RRset, and for which wildcard. -/
def verify (owner : Name) (rtype : RRType) (rdatas : List Rdata) (sigs : List RrsigData) (keys : List DnskeyData)
    (zone : Name) : Step (Bool × Option Name) :=
  if rdatas = [] then pure (false, none) else v.verifyBySigs owner rtype rdatas keys zone sigs

/-- The RRsets of a type that the zone has signed, of one owner after the other. -/
def signedSets {α : Type} (rtype : RRType) (data : α → Rdata) (authority : List RR) (zone : Name)
    (keys : List DnskeyData) : List (Name × List α) → Step (List (Name × α))
  | [] => pure []
  | (owner, rdatas) :: groups => do
      let mine ← .ofExcept (covering owner rtype authority)
      let (ok, expanded) ← v.verify owner rtype (rdatas.map data) mine keys zone
      let others ← signedSets rtype data authority zone keys groups
      return if ok ∧ expanded = none then rdatas.map (fun rd => (owner, rd)) ++ others else others

/-- `_denial_records` -/
def denialRecords (authority : List RR) (zone : Name) (keys : List DnskeyData) :
    Step (List NsecItem × Option Nsec3Set) := do
  let nsecs ← v.signedSets RRType.nsec Rdata.nsec authority zone keys (byOwner RRType.nsec nsec? authority).entries
  let nsec3s ← v.signedSets RRType.nsec3 Rdata.nsec3 authority zone keys (byOwner RRType.nsec3 nsec3? authority).entries
  if nsec3s = [] then return (nsecs, none)
  let candidate := Nsec3Set.make nsec3s zone v.maxNsec3Iterations
  return (nsecs, if candidate.usable then some candidate else none)

/-! ### The descent -/

/-- A key that one of the DS names, and that has signed the keys. -/
def anchoring (zone : Name) (ds : List DsData) (dnskeys : List DnskeyData) (sigs : List RrsigData) :
    List DnskeyData → Step (Option RrsigData)
  | [] => pure none
  | key :: keys => do
      if (ds.any fun d => v.dsMatches zone key d) = false then anchoring zone ds dnskeys sigs keys
      else
        match ← bySigs key sigs with
        | some sig => return some sig
        | none => anchoring zone ds dnskeys sigs keys
where
  bySigs (key : DnskeyData) : List RrsigData → Step (Option RrsigData)
    | [] => pure none
    | sig :: sigs => do
        if sig.keyTag ≠ keyTag key ∨ sig.algorithm ≠ key.algorithm ∨ (sig.signer == zone) = false then bySigs key sigs
        else
          signOp
          if ← v.verifyRrset zone RRType.dnskey (dnskeys.map Rdata.dnskey) sig key then return some sig
          bySigs key sigs

def cachedKeys : Text × List DsData → StateM Caches (Option (ℚ × List DnskeyData)) :=
  v.cached Caches.keys fun s keys => { s with keys }

def storeKeys (key : Text × List DsData) (expires : ℚ) (keys : List DnskeyData) : StateM Caches Unit :=
  v.store Caches.keys (fun s keys => { s with keys }) key expires keys 4096

/-- `_keys_exp`: the keys of a zone that its DS anchor, and how long they are trusted. -/
def keysExp (zone : Name) (ds : List DsData) : Step (ℚ × List DnskeyData) := do
  let ck := (zone.toText, ds.mergeSort dsLe)
  match ← .atomic (v.cachedKeys ck) with
  | some hit => return hit
  | none =>
      let msg ← ask zone RRType.dnskey
      let dnskeys := dataOf RRType.dnskey dnskey? zone msg.answers
      let sigs ← .ofExcept (covering zone RRType.dnskey msg.answers)
      if dnskeys = [] ∨ sigs = [] then .ofExcept (.error .dnssec)
      else
        let strong := ds.filter fun d => d.digestType == 2 || d.digestType == 4
        let ds := if strong = [] then ds else strong
        let usable := dnskeys.filter fun key => key.flags &&& zoneFlag != 0
        match ← v.anchoring zone ds dnskeys sigs usable with
        | none => .ofExcept (.error .dnssec)
        | some sig =>
            let own := msg.answers.filter fun rr => rr.rtype == RRType.dnskey && rr.name == zone
            let exp ← .atomic (v.expiry own [sig])
            .atomic (v.storeKeys ck exp usable)
            return (exp, usable)

/-- What a name is to the zone above it. -/
inductive Cut where
  | secure (keys : List DnskeyData)
  | insecure
  | nocut

/-- `_delegation` -/
def delegation (child parentZone : Name) (parentKeys : List DnskeyData) : Step (ℚ × Cut) := do
  let msg ← ask child RRType.ds
  let ds := dataOf RRType.ds ds? child msg.answers
  if ds ≠ [] then
    let sigs ← .ofExcept (covering child RRType.ds msg.answers)
    let (ok, expanded) ← v.verify child RRType.ds (ds.map Rdata.ds) sigs parentKeys parentZone
    if ok = false ∨ expanded ≠ none then .ofExcept (.error .dnssec)
    else
      let own := msg.answers.filter fun rr => rr.rtype == RRType.ds && rr.name == child
      let dsExp ← .atomic (v.expiry own sigs)
      let usable := ds.filter fun d => supportedAlgos.contains d.algorithm && supportedDigests.contains d.digestType
      if usable = [] then return (dsExp, .insecure)
      else
        let (kexp, keys) ← v.keysExp child usable
        return (min kexp dsExp, .secure keys)
  else
    let (nsecs, n3) ← v.denialRecords msg.authority parentZone parentKeys
    match (nsecDsDenial child nsecs).or (n3.bind (nsec3DsDenial v.sha1 child)) with
    | none => .ofExcept (.error .dnssec)
    | some verdict =>
        let proof := msg.authority.filter fun rr =>
          rr.rtype == RRType.nsec || rr.rtype == RRType.nsec3 || rr.rtype == RRType.rrsig
        let exp ← .atomic (v.expiry proof (proof.filterMap fun rr => rrsig? rr.rdata))
        return (exp, match verdict with | .insecure => .insecure | .nocut => .nocut)

def cachedState : Text → StateM Caches (Option (ℚ × Trust)) := v.cached Caches.state fun s state => { s with state }

def storeState (key : Text) (expires : ℚ) (trust : Trust) : StateM Caches Unit :=
  v.store Caches.state (fun s state => { s with state }) key expires trust 8192

/-- What is known of a name, or else is found and kept. -/
def known (name : Name) (finds : Step (ℚ × Trust)) : Step (ℚ × Trust) := do
  match ← .atomic (v.cachedState name.toText) with
  | some hit => return hit
  | none =>
      if name.labels.length > maxDepth then .ofExcept (.error .dnssec)
      else
        let (exp, trust) ← finds
        .atomic (v.storeState name.toText exp trust)
        return (exp, trust)

/-- One label further down than what was found above. -/
def below (name : Name) (above : Step (ℚ × Trust)) : Step (ℚ × Trust) := do
  let (exp, trust) ← above
  match trust with
  | .insecure cut => return (exp, .insecure cut)
  | .secure zone keys =>
      let (own, cut) ← v.delegation name zone keys
      return (min exp own,
        match cut with
        | .secure childKeys => .secure name childKeys
        | .insecure => .insecure name
        | .nocut => .secure zone keys)

/-- `_trust` of a name of these labels. -/
def trust : List Label → Step (ℚ × Trust)
  | [] => v.known Name.root do
      let (exp, keys) ← v.keysExp Name.root v.anchors
      return (exp, .secure Name.root keys)
  | label :: above => v.known ⟨label :: above⟩ (v.below ⟨label :: above⟩ (trust above))

def trustAt (name : Name) : Step Trust := do return (← v.trust name.labels).2

/-- The deepest signer at or above the owner. -/
def bestSigner (owner : Name) (signers : List Name) : Option Name :=
  signers.foldl (fun best signer =>
    if owner.isSubdomainOf signer = false then best
    else match best with
      | none => some signer
      | some deepest => if signer.labels.length > deepest.labels.length then some signer else best) none

/-- `_trust_via_signer` -/
def trustViaSigner (owner : Name) (signers : List Name) : Step Trust :=
  v.trustAt ((bestSigner owner signers).getD owner)

/-- `_trust_for` -/
def trustFor (owner : Name) (rtype : RRType) (rrsigs : List RrsigData) : Step Trust :=
  if rtype = RRType.ds then v.trustAt owner.parent
  else v.trustViaSigner owner (rrsigs.map RrsigData.signer)

/-! ### Validation -/

/-- `_proves_denial` -/
def provesDenial (qname : Name) (qtype : RRType) (rcode : Nat) (nsecs : List NsecItem) (n3 : Option Nsec3Set) : Bool :=
  if qtype = RRType.ds ∧ rcode ≠ nxdomain then
    (nsecDsDenial qname nsecs).isSome || (n3.bind (nsec3DsDenial v.sha1 qname)).isSome
  else if rcode = nxdomain then
    nsecNxdomain qname nsecs || n3.any (nsec3Nxdomain v.sha1 qname)
  else
    nsecNodata qname qtype nsecs || nsecWildcardNodata qname qtype nsecs || n3.any (nsec3Nodata v.sha1 qname qtype)

/-- `_proves_expansion` -/
def provesExpansion (qname expandedFrom : Name) (nsecs : List NsecItem) (n3 : Option Nsec3Set) : Bool :=
  nsecWildcardExpansion qname expandedFrom nsecs || n3.any (nsec3WildcardExpansion v.sha1 qname expandedFrom)

/-- A `DNSSECError` is a verdict. -/
def judged (finds : Step ValidationResult) : Step ValidationResult := do
  match ← .attempt finds with
  | .error .dnssec => return .bogus
  | .error .other => .ofExcept (.error .other)
  | .ok verdict => return verdict

def validate (owner : Name) (rtype : RRType) (rdatas : List Rdata) (rrsigs : List RrsigData) (authority : List RR) :
    Step ValidationResult :=
  judged do
    match ← v.trustFor owner rtype rrsigs with
    | .insecure _ => return .insecure
    | .secure zone keys =>
        let (ok, expanded) ← v.verify owner rtype rdatas rrsigs keys zone
        if ok = false then return .bogus
        else
          match expanded with
          | none => return .secure
          | some wild =>
              let (nsecs, n3) ← v.denialRecords authority zone keys
              return if v.provesExpansion owner wild nsecs n3 then .secure else .bogus

def validateDenial (qname : Name) (qtype : RRType) (authority : List RR) (rcode : Nat) : Step ValidationResult :=
  judged do
    let sigs := authority.filterMap fun rr => if rr.rtype = RRType.rrsig then rrsig? rr.rdata else none
    match ← v.trustViaSigner qname (sigs.map RrsigData.signer) with
    | .insecure _ => return .insecure
    | .secure zone keys =>
        let (nsecs, n3) ← v.denialRecords authority zone keys
        if nsecs = [] ∧ n3.isNone then return .bogus
        else return if v.provesDenial qname qtype rcode nsecs n3 then .secure else .bogus

def work : Work := { crypto := v.maxCryptoOps, queries := v.maxChainQueries }

end Validator

end Trench.Dnssec
