import Mathlib
import Trench.Dnssec.Chain
import Trench.Wire.NameText

set_option autoImplicit false

/- What is trusted, and why: a chain of signatures from the anchors down, none of it past its time. The
caches hold nothing else, whatever is looked up and whoever takes turns. -/
namespace Trench.Dnssec

open Wire
open AuthZone (signedData keyTag)
open Coroutine (Rules Runs Steady Keeps keeps_pure keeps_get keeps_modify)

/-! ### Chains -/

section

variable (v : Validator)

/-- A key has signed an RRset, valid at a time of day that was read. -/
structure Verified (s : Caches) (owner : Name) (rtype : RRType) (rdatas : List Rdata) (sig : RrsigData)
    (key : DnskeyData) : Prop where
  algorithm : sig.algorithm = key.algorithm
  tagged : sig.keyTag = keyTag key
  valid : ∃ n < s.walls, withinValidity sig (v.wall n) = true
  signed : ∃ data, signedData owner rtype RRClass.in sig rdatas = .ok data ∧
    v.checks key sig.algorithm sig.signature data = true

/-- One of the zone's keys has signed the RRset of an owner, in its own name or in that of a wildcard. -/
def Signs (s : Caches) (zone : Name) (keys : List DnskeyData) (owner : Name) (rtype : RRType) (rdatas : List Rdata)
    (wild : Option Name) : Prop :=
  rdatas ≠ [] ∧ ∃ sig key, key ∈ keys ∧ (sig.signer == zone) = true ∧
    wildcardOwner owner sig = some (wild.getD owner, wild.isSome) ∧ Verified v s (wild.getD owner) rtype rdatas sig key

/-- What rests on the records lasts that long from a time that was read. -/
def Lasts (s : Caches) (exp : ℚ) (rrs : List RR) (sigs : List RrsigData) : Prop :=
  ∃ n < s.readings, ∃ m < s.walls, exp ≤ v.clock n + trustTtl rrs sigs (v.wall m)

/-- The zone's keys, one of which is named by a DS and has signed them all. -/
structure Anchored (s : Caches) (exp : ℚ) (zone : Name) (ds : List DsData) (keys : List DnskeyData) : Prop where
  signed : ∃ (dnskeys : List DnskeyData) (sig : RrsigData) (key : DnskeyData) (d : DsData) (rrs : List RR),
    keys = dnskeys.filter (fun key => key.flags &&& zoneFlag != 0) ∧ key ∈ keys ∧ d ∈ ds ∧
    ((∃ other ∈ ds, other.digestType = 2 ∨ other.digestType = 4) → d.digestType = 2 ∨ d.digestType = 4) ∧
    v.dsMatches zone key d = true ∧ (sig.signer == zone) = true ∧
    Verified v s zone RRType.dnskey (dnskeys.map Rdata.dnskey) sig key ∧
    (∀ key ∈ dnskeys, ∃ rr ∈ rrs, rr.rdata = .dnskey key) ∧ Lasts v s exp rrs [sig]

/-- A zone has signed the DS of a name below it. -/
structure Delegates (s : Caches) (exp : ℚ) (zone : Name) (keys : List DnskeyData) (child : Name) (ds : List DsData) :
    Prop where
  signed : Signs v s zone keys child RRType.ds (ds.map Rdata.ds) none
  lasts : ∃ (rrs : List RR) (sigs : List RrsigData), (∀ d ∈ ds, ∃ rr ∈ rrs, rr.rdata = .ds d) ∧ Lasts v s exp rrs sigs

/-- A DS that can be acted on. -/
def Usable (d : DsData) : Prop := d.algorithm ∈ supportedAlgos ∧ d.digestType ∈ supportedDigests

def Below (child zone : Name) : Prop := zone.labels <:+ child.labels ∧ zone.labels.length < child.labels.length

/-- The keys of a zone are trusted, from the anchors down: each zone's DS is signed by the zone above. -/
inductive Trusts (s : Caches) (exp : ℚ) : Name → List DnskeyData → Prop
  | root {keys : List DnskeyData} (anchored : Anchored v s exp Name.root v.anchors keys) : Trusts s exp Name.root keys
  | child {zone child : Name} {keys childKeys : List DnskeyData} {ds usable : List DsData} (above : Trusts s exp zone keys)
      (below : Below child zone) (delegates : Delegates v s exp zone keys child ds)
      (some : ∀ d, d ∈ usable ↔ d ∈ ds ∧ Usable d) (anchored : Anchored v s exp child usable childKeys) :
      Trusts s exp child childKeys

/-- The zone has signed each of the records of a denial. -/
structure Denies (s : Caches) (zone : Name) (keys : List DnskeyData) (nsecs : List NsecItem) (n3 : Option Nsec3Set) :
    Prop where
  nsecs : ∀ item ∈ nsecs, ∃ rdatas : List NsecData, item.2 ∈ rdatas ∧
    Signs v s zone keys item.1 RRType.nsec (rdatas.map Rdata.nsec) none
  nsec3s : ∀ set ∈ n3, ∃ items : List Nsec3Item, set = Nsec3Set.make items zone v.maxNsec3Iterations ∧
    set.usable = true ∧ ∀ item ∈ items, ∃ rdatas : List Nsec3Data, item.2 ∈ rdatas ∧
      Signs v s zone keys item.1 RRType.nsec3 (rdatas.map Rdata.nsec3) none

/-- A trusted zone above has signed that a cut is not signed: no DS that can be acted on, or none at all. -/
inductive Unsigned (s : Caches) (exp : ℚ) (cut : Name) : Prop
  | unusable {zone : Name} {keys : List DnskeyData} {ds : List DsData} (above : Trusts v s exp zone keys)
      (below : Below cut zone) (delegates : Delegates v s exp zone keys cut ds) (none : ∀ d ∈ ds, ¬ Usable d)
  | denied {zone : Name} {keys : List DnskeyData} {nsecs : List NsecItem} {n3 : Option Nsec3Set} {rrs : List RR}
      {sigs : List RrsigData} (above : Trusts v s exp zone keys) (below : Below cut zone)
      (denies : Denies v s zone keys nsecs n3)
      (proof : (nsecDsDenial cut nsecs).or (n3.bind (nsec3DsDenial v.sha1 cut)) = some .insecure)
      (lasts : Lasts v s exp rrs sigs)

/-- The zone has signed that a name below it is no cut. -/
def Whole (s : Caches) (exp : ℚ) (zone : Name) (keys : List DnskeyData) (name : Name) : Prop :=
  ∃ (nsecs : List NsecItem) (n3 : Option Nsec3Set) (rrs : List RR) (sigs : List RrsigData),
    Denies v s zone keys nsecs n3 ∧ (nsecDsDenial name nsecs).or (n3.bind (nsec3DsDenial v.sha1 name)) = some .nocut ∧
      Lasts v s exp rrs sigs

/-- What a descent to a name may come to: the deepest cut above it that is signed, or one that is not. -/
def Concludes (s : Caches) (exp : ℚ) (name : Name) : Trust → Prop
  | .secure zone keys => Trusts v s exp zone keys ∧ zone.labels <:+ name.labels ∧
      ∀ labels, labels <:+ name.labels → zone.labels.length < labels.length → Whole v s exp zone keys ⟨labels⟩
  | .insecure cut => Unsigned v s exp cut ∧ cut.labels <:+ name.labels

end

section

variable {v : Validator} {s s' : Caches} {exp exp' : ℚ} {zone owner child cut name : Name} {keys : List DnskeyData}
  {rtype : RRType} {rdatas : List Rdata} {ds : List DsData} {sig : RrsigData} {key : DnskeyData}

theorem Verified.mono (later : s ≤ s') (verified : Verified v s owner rtype rdatas sig key) :
    Verified v s' owner rtype rdatas sig key := by
  obtain ⟨n, read, valid⟩ := verified.valid
  exact ⟨verified.algorithm, verified.tagged, ⟨n, read.trans_le later.2, valid⟩, verified.signed⟩

theorem Signs.mono (later : s ≤ s') {wild : Option Name} (signs : Signs v s zone keys owner rtype rdatas wild) :
    Signs v s' zone keys owner rtype rdatas wild := by
  obtain ⟨some, sig, key, held, signer, covers, verified⟩ := signs
  exact ⟨some, sig, key, held, signer, covers, verified.mono later⟩

theorem Lasts.mono (later : s ≤ s') (earlier : exp' ≤ exp) {rrs : List RR} {sigs : List RrsigData}
    (lasts : Lasts v s exp rrs sigs) : Lasts v s' exp' rrs sigs := by
  obtain ⟨n, read, m, read', within⟩ := lasts
  exact ⟨n, read.trans_le later.1, m, read'.trans_le later.2, earlier.trans within⟩

theorem Anchored.mono (later : s ≤ s') (earlier : exp' ≤ exp) (anchored : Anchored v s exp zone ds keys) :
    Anchored v s' exp' zone ds keys := by
  obtain ⟨dnskeys, sig, key, d, rrs, own, held, named, strong, digest, signer, verified, read, lasts⟩ := anchored.signed
  exact ⟨dnskeys, sig, key, d, rrs, own, held, named, strong, digest, signer, verified.mono later, read,
    lasts.mono later earlier⟩

/-- The order of the DS makes no difference. -/
theorem Anchored.perm {ds' : List DsData} (perm : ds.Perm ds') (anchored : Anchored v s exp zone ds keys) :
    Anchored v s exp zone ds' keys := by
  obtain ⟨dnskeys, sig, key, d, rrs, own, held, named, strong, rest⟩ := anchored.signed
  refine ⟨dnskeys, sig, key, d, rrs, own, held, perm.mem_iff.mp named, fun ⟨other, there, digest⟩ => ?_, rest⟩
  exact strong ⟨other, perm.mem_iff.mpr there, digest⟩

theorem Delegates.mono (later : s ≤ s') (earlier : exp' ≤ exp) (delegates : Delegates v s exp zone keys child ds) :
    Delegates v s' exp' zone keys child ds := by
  obtain ⟨signed, rrs, sigs, read, lasts⟩ := delegates
  exact ⟨signed.mono later, rrs, sigs, read, lasts.mono later earlier⟩

theorem Trusts.mono (later : s ≤ s') (earlier : exp' ≤ exp) (trusts : Trusts v s exp zone keys) :
    Trusts v s' exp' zone keys := by
  induction trusts with
  | root anchored => exact .root (anchored.mono later earlier)
  | child _ below delegates some anchored ih =>
      exact .child ih below (delegates.mono later earlier) some (anchored.mono later earlier)

theorem Denies.mono (later : s ≤ s') {nsecs : List NsecItem} {n3 : Option Nsec3Set}
    (denies : Denies v s zone keys nsecs n3) : Denies v s' zone keys nsecs n3 := by
  refine ⟨fun item held => ?_, fun set there => ?_⟩
  · obtain ⟨rdatas, inside, signs⟩ := denies.nsecs item held
    exact ⟨rdatas, inside, signs.mono later⟩
  · obtain ⟨items, same, usable, all⟩ := denies.nsec3s set there
    refine ⟨items, same, usable, fun item held => ?_⟩
    obtain ⟨rdatas, inside, signs⟩ := all item held
    exact ⟨rdatas, inside, signs.mono later⟩

theorem Whole.mono (later : s ≤ s') (earlier : exp' ≤ exp) (whole : Whole v s exp zone keys name) :
    Whole v s' exp' zone keys name := by
  obtain ⟨nsecs, n3, rrs, sigs, denies, proof, lasts⟩ := whole
  exact ⟨nsecs, n3, rrs, sigs, denies.mono later, proof, lasts.mono later earlier⟩

theorem Unsigned.mono (later : s ≤ s') (earlier : exp' ≤ exp) (unsigned : Unsigned v s exp cut) :
    Unsigned v s' exp' cut := by
  cases unsigned with
  | unusable above below delegates none =>
      exact .unusable (above.mono later earlier) below (delegates.mono later earlier) none
  | denied above below denies proof lasts =>
      exact .denied (above.mono later earlier) below (denies.mono later) proof (lasts.mono later earlier)

theorem Concludes.mono (later : s ≤ s') (earlier : exp' ≤ exp) {trust : Trust} (concludes : Concludes v s exp name trust) :
    Concludes v s' exp' name trust := by
  cases trust with
  | secure zone keys =>
      obtain ⟨trusts, above, whole⟩ := concludes
      exact ⟨trusts.mono later earlier, above, fun labels part deep => (whole labels part deep).mono later earlier⟩
  | insecure cut => exact ⟨concludes.1.mono later earlier, concludes.2⟩

end

end Trench.Dnssec
