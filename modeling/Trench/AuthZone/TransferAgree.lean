import Mathlib
import Trench.AuthZone.Transfer
import Trench.AuthZone.Signer
import Trench.AuthZone.ZoneLookup
import Trench.Lib.Sha1

set_option autoImplicit false

/- A zone that went through a full transfer answers as the zone that was sent. -/
namespace Trench.AuthZone

open Wire

/-! ### Equal up to order -/

def RRsShuffled (a b : List RR) : Prop := ∃ c, c.Perm b ∧ RRsAlike a c

theorem RRsShuffled.of_alike {a b : List RR} (alike : RRsAlike a b) : RRsShuffled a b :=
  ⟨b, .refl b, alike⟩

theorem RRsShuffled.length_eq {a b : List RR} (shuffled : RRsShuffled a b) : a.length = b.length := by
  obtain ⟨c, perm, alike⟩ := shuffled
  rw [List.Forall₂.length_eq alike, perm.length_eq]

/-- The same response code and flag, and the same records in each section in some order. -/
structure Answer.Shuffled (a b : Answer) : Prop where
  rcode : a.rcode = b.rcode
  aa : a.aa = b.aa
  answers : RRsShuffled a.answers b.answers
  authority : RRsShuffled a.authority b.authority
  additional : RRsShuffled a.additional b.additional

theorem Answer.Alike.shuffled {a b : Answer} (alike : a.Alike b) : a.Shuffled b :=
  ⟨alike.rcode, alike.aa, .of_alike alike.answers, .of_alike alike.authority,
    .of_alike alike.additional⟩

theorem ResultsAlike.mono {α : Type} {alike also : α → α → Prop}
    (weaker : ∀ x y, alike x y → also x y) {a b : Except LookupError α}
    (results : ResultsAlike alike a b) : ResultsAlike also a b := by
  rcases results with raised | ⟨x, y, first, second, both⟩
  · exact .inl raised
  · exact .inr ⟨x, y, first, second, weaker x y both⟩

namespace Zone

/-- The zone assembled from the stream of `z` answers every question as `z` does. -/
def TransfersAlike (z : Zone) (sha1 : Octets → Octets) : Prop :=
  ∃ records w, z.axfrRecords = some records ∧ zoneFromRecords records z.origin = .ok w ∧
    ∀ qname qtype dnssecOk, ResultsAlike Answer.Shuffled (w.lookup sha1 qname qtype dnssecOk)
      (z.lookup sha1 qname qtype dnssecOk)

theorem addedAt_soa (name : Name) (rrs : List RR) : addedAt name RRType.soa rrs = [] := by
  rw [addedAt, List.filter_eq_nil_iff]
  intro rr _ both
  simp only [Bool.and_eq_true, decide_eq_true_eq, beq_iff_eq] at both
  exact both.1.1 both.2.2

theorem addedAt_rrsig (name : Name) (rrs : List RR) : addedAt name RRType.rrsig rrs = [] := by
  rw [addedAt, List.filter_eq_nil_iff]
  intro rr _ both
  simp only [Bool.and_eq_true, decide_eq_true_eq, beq_iff_eq] at both
  exact both.1.2 both.2.2

theorem slot_make (origin name : Name) (rtype : RRType) : (Zone.make origin).slot name rtype = [] := rfl

namespace Coherent

variable {z w : Zone} (coherent : z.Coherent)

include coherent

/-- What the zone holds once its whole stream was taken is what `z` holds. -/
theorem agree (recoverable : z.Recoverable) {soa : SoaData} {rest : List Rdata} {ttl : Int}
    (held : z.slot z.origin RRType.soa = .soa soa :: rest)
    (sameTtl : ttl = z.ttlOf z.origin RRType.soa)
    (taken : Taken ((Zone.make z.origin).add z.origin RRType.soa (.soa soa) ttl) w
      (z.body ++ [⟨z.origin, RRType.soa, RRClass.in, ttl, .soa soa⟩])) : z.Agree w := by
  have only : z.slot z.origin RRType.soa = [.soa soa] := by
    have short := recoverable.oneSoa
    rw [held, List.length_cons] at short
    rw [held, List.length_eq_zero_iff.mp (by omega : rest.length = 0)]
  have plain (name : Name) (rtype : RRType) :
      addedAt name rtype (z.body ++ [⟨z.origin, RRType.soa, RRClass.in, ttl, .soa soa⟩]) =
        addedAt name rtype z.body := by
    have last : addedAt name rtype [⟨z.origin, RRType.soa, RRClass.in, ttl, .soa soa⟩] = [] := by
      simp [addedAt, Plain]
    rw [addedAt_append, last, List.append_nil]
  have slots (name : Name) (rtype : RRType) : w.slot name rtype = z.slot name rtype := by
    rw [taken.slots, plain, slot_add, slot_make, List.nil_append]
    by_cases isSoa : rtype = RRType.soa
    · subst isSoa
      rw [addedAt_soa, List.map_nil, List.append_nil]
      by_cases here : (z.origin == name) = true
      · rw [here, BEq.rfl, Bool.and_self, if_pos rfl, ← slot_congr z here, only]
      · have away : z.slot name RRType.soa = [] := by
          by_contra filled
          exact here (BEq.symm (recoverable.apexOnly name filled))
        rw [Bool.eq_false_iff.mpr here, Bool.false_and, if_neg Bool.false_ne_true, away]
    · rw [beq_eq_false_iff_ne.mpr (Ne.symm isSoa), Bool.and_false, if_neg Bool.false_ne_true,
        List.nil_append]
      by_cases isSig : rtype = RRType.rrsig
      · rw [isSig, addedAt_rrsig, recoverable.noSigs, List.map_nil]
      · obtain ⟨owner, _, content⟩ := addedAt_body coherent.formed name rtype ⟨isSoa, isSig⟩
        rw [content, rrset, List.map_map]
        exact List.map_id _
  have signed : w.signed = z.signed := by
    rw [taken.signed, List.any_append, coherent.any_rrsig recoverable]
    exact Bool.or_false _
  refine ⟨coherent.formed, taken.formed, taken.origin, slots, ?_, ?_, signed, coherent.apex, ?_⟩
  · intro name rtype filled
    apply taken.ttls
    · intro rr inside
      rw [plain] at inside
      by_cases isSoa : rtype = RRType.soa
      · rw [isSoa, addedAt_soa] at inside
        cases inside
      · by_cases isSig : rtype = RRType.rrsig
        · rw [isSig, addedAt_rrsig] at inside
          cases inside
        · obtain ⟨owner, _, content⟩ := addedAt_body coherent.formed name rtype ⟨isSoa, isSig⟩
          rw [content] at inside
          obtain ⟨rd, _, rfl⟩ := List.mem_map.mp inside
          rfl
    · by_cases isSoa : rtype = RRType.soa
      · left
        subst isSoa
        have here := BEq.symm (recoverable.apexOnly name filled)
        have key : ((z.origin, RRType.soa) == (name, RRType.soa)) = true :=
          setKey_beq_iff.mpr ⟨here, rfl⟩
        rw [ttlOf_add, here, BEq.rfl, Bool.and_self, if_pos rfl, sameTtl, ttlOf, ttlOf,
          Dict.get?_congr z.ttls key]
      · right
        have isSig : rtype ≠ RRType.rrsig := by
          intro equal
          rw [equal, recoverable.noSigs] at filled
          exact filled rfl
        obtain ⟨owner, _, content⟩ := addedAt_body coherent.formed name rtype ⟨isSoa, isSig⟩
        rw [plain, content, rrset, Ne, List.map_eq_nil_iff]
        exact filled
  · intro _ name rtype filled
    have last : sigsAt name rtype [⟨z.origin, RRType.soa, RRClass.in, ttl, .soa soa⟩] = [] := rfl
    rw [taken.sigs, sigsAt_append, last, List.append_nil, coherent.sigsAt_body recoverable filled]
    exact Option.or_none
  · intro hashed
    obtain ⟨salt, iterations⟩ := recoverable.unsalted hashed
    have params : w.signParams = none := taken.params
    rw [salt, iterations, Zone.salt, Zone.iterations, params]
    exact ⟨rfl, rfl⟩

theorem transfers (recoverable : z.Recoverable) (sha1 : Octets → Octets) :
    z.TransfersAlike sha1 := by
  obtain ⟨soa, rest, held, stream⟩ := coherent.formed.axfrRecords coherent.apex
  have suits : Suits RRType.soa (.soa soa) :=
    coherent.formed.slot_suits (held ▸ List.mem_cons_self)
  have start : ((Zone.make z.origin).add z.origin RRType.soa (.soa soa)
      (z.ttlOf z.origin RRType.soa)).Formed := (Formed.make z.origin).add suits
  have streamed : ∀ rr ∈ z.body ++ [⟨z.origin, RRType.soa, RRClass.in, z.ttlOf z.origin RRType.soa,
      .soa soa⟩], Streamed rr := by
    intro rr inside
    rcases List.mem_append.mp inside with within | last
    · exact coherent.streamed recoverable within
    · rw [List.mem_singleton.mp last]
      refine ⟨suits, fun isSig => ?_⟩
      have apart : RRType.soa ≠ RRType.rrsig := by decide
      exact absurd isSig apart
  obtain ⟨w, run, taken⟩ := takeRecords_seen start streamed
  have agree := coherent.agree recoverable held rfl taken
  refine ⟨_, w, stream, ?_, ?_⟩
  · rw [zoneFromRecords, takeRecords, takeRecord, if_pos rfl]
    exact run
  · intro qname qtype dnssecOk
    exact (agree.lookup sha1 qname qtype dnssecOk).mono fun _ _ => Answer.Alike.shuffled

end Coherent

end Zone

/-! ### What signing keeps -/

/-- Records were added to a zone, and nothing else was touched. -/
structure Grown (z w : Zone) : Prop where
  origin : w.origin = z.origin
  rrsigs : w.rrsigs = z.rrsigs
  formed : z.Formed → w.Formed
  keeps : ∀ name rtype, z.slot name rtype ≠ [] → w.slot name rtype ≠ []

theorem Grown.refl (z : Zone) : Grown z z := ⟨rfl, rfl, id, fun _ _ filled => filled⟩

theorem Grown.trans {z m w : Zone} (first : Grown z m) (second : Grown m w) : Grown z w where
  origin := second.origin.trans first.origin
  rrsigs := second.rrsigs.trans first.rrsigs
  formed := fun formed => second.formed (first.formed formed)
  keeps name rtype filled := second.keeps name rtype (first.keeps name rtype filled)

theorem Grown.add {z w : Zone} (grown : Grown z w) {name : Name} {rtype : RRType} {rd : Rdata}
    {ttl : Int} (free : rtype ∉ [RRType.ns, RRType.cname, RRType.soa]) :
    Grown z (w.add name rtype rd ttl) where
  origin := grown.origin
  rrsigs := grown.rrsigs
  formed := fun formed => (grown.formed formed).add fun followed => absurd followed free
  keeps other rt filled := by
    rw [Zone.slot_add]
    exact List.append_ne_nil_of_left_ne_nil (grown.keeps other rt filled) _

theorem Grown.foldl {α : Type} {step : Zone → α → Zone} (each : ∀ z a, Grown z (step z a))
    (links : List α) (z : Zone) : Grown z (links.foldl step z) := by
  induction links generalizing z with
  | nil => exact .refl z
  | cons link rest ih => exact (each z link).trans (ih (step z link))

theorem grown_publishKey (z : Zone) (dnskey : DnskeyData) (ds : DsData) :
    Grown z (Crypto.publishKey z dnskey ds) := by
  have first : RRType.dnskey ∉ [RRType.ns, RRType.cname, RRType.soa] := by decide
  have second : RRType.cdnskey ∉ [RRType.ns, RRType.cname, RRType.soa] := by decide
  have third : RRType.cds ∉ [RRType.ns, RRType.cname, RRType.soa] := by decide
  exact (((Grown.refl z).add first).add second).add third

theorem grown_buildNsecChain (z : Zone) (cuts : List Name) : Grown z (buildNsecChain z cuts) :=
  Grown.foldl (fun z _ => (Grown.refl z).add (by decide)) _ z

namespace Crypto

variable (crypto : Crypto)

theorem grown_buildNsec3Chain (z : Zone) (salt : Octets) (iterations : Nat) (cuts : List Name) :
    Grown z (crypto.buildNsec3Chain z salt iterations cuts) :=
  ((Grown.refl z).add (by decide)).trans
    (Grown.foldl (fun z _ => (Grown.refl z).add (by decide)) _ _)

/-- Signatures were filed, each under the type it covers. -/
structure Filed (z w : Zone) : Prop where
  origin : w.origin = z.origin
  records : w.records = z.records
  covers : (∀ name rtype sig, z.rrsigs.get? (name, rtype) = some sig → sig.typeCovered = rtype) →
    ∀ name rtype sig, w.rrsigs.get? (name, rtype) = some sig → sig.typeCovered = rtype
  keeps : ∀ key, z.rrsigs.get? key ≠ none → w.rrsigs.get? key ≠ none

theorem signRrset_ok {key : Octets} {signer owner : Name} {algorithm : UInt8} {tag : UInt16}
    {now : Int} {rtype : RRType} {rdatas : List Rdata} {ttl : Int} {sig : RrsigData}
    (signed : crypto.signRrset key signer owner algorithm tag now rtype rdatas ttl = .ok sig) :
    sig.typeCovered = rtype := by
  rw [signRrset] at signed
  by_cases wide : ttl < 0 ∨ 2 ^ 32 ≤ ttl
  · rw [if_pos wide] at signed
    cases signed
  · rw [if_neg wide] at signed
    obtain ⟨data, _, rest⟩ := bind_eq_ok.mp signed
    cases rest
    rfl

theorem signAll_ok {key : Octets} {algorithm : UInt8} {tag : UInt16} {now : Int} {z w : Zone}
    {sets : List (Name × RRType × List Rdata)}
    (run : crypto.signAll key algorithm tag now z sets = .ok w) :
    Filed z w ∧ ∀ set ∈ sets, w.rrsigs.get? (set.1, set.2.1) ≠ none := by
  induction sets generalizing z with
  | nil =>
      cases run
      exact ⟨⟨rfl, rfl, id, fun _ held => held⟩, fun set inside => by cases inside⟩
  | cons set rest ih =>
      obtain ⟨name, rtype, rds⟩ := set
      rw [signAll] at run
      obtain ⟨sig, signed, more⟩ := bind_eq_ok.mp run
      obtain ⟨filed, each⟩ := ih more
      have covered := crypto.signRrset_ok signed
      have here : w.rrsigs.get? (name, rtype) ≠ none := by
        apply filed.keeps
        simp only [Dict.get?_set]
        rw [if_pos BEq.rfl]
        exact Option.some_ne_none sig
      refine ⟨⟨filed.origin, filed.records, fun before => filed.covers ?_, fun other held =>
        filed.keeps other ?_⟩, ?_⟩
      · intro other rt found there
        simp only [Dict.get?_set] at there
        split at there
        · next same =>
            cases there
            exact covered.trans (setKey_beq_iff.mp same).2
        · exact before other rt found there
      · simp only [Dict.get?_set]
        split
        · exact Option.some_ne_none sig
        · exact held
      · intro set inside
        rcases List.mem_cons.mp inside with rfl | later
        · exact here
        · exact each set later

end Crypto

theorem cuts_apart {z : Zone} {cut : Name} (held : cut ∈ z.cuts) : (cut == z.origin) = false := by
  rw [Zone.cuts] at held
  obtain ⟨entry, kept, rfl⟩ := List.mem_map.mp held
  have apart := (List.mem_filter.mp kept).2
  simp only [Bool.and_eq_true, bne, Bool.not_eq_true'] at apart
  exact apart.1.1

/-- The apex SOA is among the sets to sign. -/
theorem apex_mem_snapshot {z : Zone} (cuts : List Name) (formed : z.Formed)
    (apex : z.slot z.origin RRType.soa ≠ []) (apart : ∀ cut ∈ cuts, (cut == z.origin) = false) :
    ∃ set ∈ Crypto.snapshot z cuts, (set.1 == z.origin) = true ∧ set.2.1 = RRType.soa := by
  obtain ⟨entry, inside, same, held⟩ := Dict.get?_eq_some.mp (Zone.get?_of_slot apex)
  have found := formed.get?_node z.origin RRType.soa
  rw [if_neg apex] at found
  obtain ⟨slot, within, equal, filled⟩ := Dict.get?_eq_some.mp found
  have isSoa : slot.1 = RRType.soa := beq_iff_eq.mp equal
  have short : entry.1.labels.length = z.origin.labels.length := by
    have keys := congrArg List.length (Name.beq_iff_canonKey.mp same)
    simpa using keys
  have shown : z.occluded entry.1 cuts = false := by
    rw [Zone.occluded]
    cases above : entry.1.parent.labels with
    | nil => rfl
    | cons label rest =>
        rw [Zone.occludedFrom, if_neg]
        rw [← above, Name.parent, List.length_drop, short]
        omega
  have uncut : (cuts.any fun cut => cut == entry.1) = false := by
    rw [List.any_eq_false]
    intro cut there isCut
    have away := apart cut there
    rw [BEq.trans isCut same] at away
    cases away
  refine ⟨(entry.1, slot.1, slot.2), ?_, same, isSoa⟩
  rw [Crypto.snapshot, List.mem_flatMap]
  refine ⟨entry, List.mem_filter.mpr ⟨inside, by rw [shown]; rfl⟩, List.mem_map.mpr ⟨slot, ?_, rfl⟩⟩
  rw [List.mem_filter, held]
  refine ⟨within, ?_⟩
  rw [uncut, isSoa]
  decide

/-! ### The zones that are served -/

/-- A zone that nobody signed. -/
structure Zone.Bare (z : Zone) : Prop where
  formed : z.Formed
  apex : z.slot z.origin RRType.soa ≠ []
  unsigned : z.signed = false
  noSigs : z.rrsigs = Dict.empty

/-- An unsigned zone, or what the signer made of one. -/
inductive Zone.Served (crypto : Crypto) : Zone → Prop
  | unsigned {z : Zone} (bare : z.Bare) : Served crypto z
  | signed {z w : Zone} {algorithm : UInt8} {now : Int} {nsec3 : Bool} {salt : Octets}
      {iterations : Nat} {key : Option Octets} {result : SignResult} (bare : z.Bare)
      (run : crypto.signZone z algorithm now nsec3 salt iterations key = .ok (w, result)) :
      Served crypto w

theorem Zone.Bare.coherent {z : Zone} (bare : z.Bare) : z.Coherent where
  formed := bare.formed
  apex := bare.apex
  covers name rtype sig filed := by
    rw [bare.noSigs, Dict.get?_empty] at filed
    cases filed
  unsigned _ key := by rw [bare.noSigs, Dict.get?_empty]
  signed signed := by
    rw [bare.unsigned] at signed
    cases signed

theorem Crypto.signZone_coherent (crypto : Crypto) {z w : Zone} {algorithm : UInt8} {now : Int}
    {nsec3 : Bool} {salt : Octets} {iterations : Nat} {key : Option Octets} {result : SignResult}
    (bare : z.Bare)
    (run : crypto.signZone z algorithm now nsec3 salt iterations key = .ok (w, result)) :
    w.Coherent := by
  rw [Crypto.signZone] at run
  obtain ⟨last, signed, rest⟩ := bind_eq_ok.mp run
  obtain ⟨filed, each⟩ := crypto.signAll_ok signed
  have same : w.records = last.records ∧ w.rrsigs = last.rrsigs ∧ w.origin = last.origin ∧
      w.signed = true := by
    cases rest
    exact ⟨rfl, rfl, rfl, rfl⟩
  obtain ⟨sameRecords, sameSigs, sameOrigin, isSigned⟩ := same
  -- the records: the key, and one of the two chains
  have published := grown_publishKey z ⟨257, 3, algorithm, crypto.publicKey (key.getD crypto.generate)⟩
    ⟨keyTag ⟨257, 3, algorithm, crypto.publicKey (key.getD crypto.generate)⟩, algorithm, 2,
      crypto.sha256 (canonName z.origin ++
        dnskeyRdata ⟨257, 3, algorithm, crypto.publicKey (key.getD crypto.generate)⟩)⟩
  generalize Crypto.publishKey z _ _ = m at signed filed each published
  have chained : Grown m (if nsec3 = true then crypto.buildNsec3Chain m salt iterations m.cuts
      else buildNsecChain m m.cuts) := by
    cases nsec3 with
    | true => exact crypto.grown_buildNsec3Chain m salt iterations m.cuts
    | false => exact grown_buildNsecChain m m.cuts
  generalize (if nsec3 = true then crypto.buildNsec3Chain m salt iterations m.cuts
    else buildNsecChain m m.cuts) = built at signed filed each chained
  have grown := published.trans chained
  have origin : w.origin = z.origin := sameOrigin.trans (filed.origin.trans grown.origin)
  have records : w.records = built.records := sameRecords.trans filed.records
  have slots (name : Name) (rtype : RRType) : w.slot name rtype = built.slot name rtype := by
    rw [Zone.slot, Zone.slot, Zone.node, Zone.node, records]
  have formedBuilt := grown.formed bare.formed
  have formed : w.Formed := by
    obtain ⟨owning, filled, suits⟩ := formedBuilt
    rw [← records] at owning filled suits
    exact ⟨owning, filled, suits⟩
  have apexBuilt : built.slot built.origin RRType.soa ≠ [] := by
    rw [grown.origin]
    exact grown.keeps _ _ bare.apex
  refine ⟨formed, ?_, ?_, fun unsigned => ?_, fun _ => ?_⟩
  · rw [origin, slots]
    exact grown.keeps _ _ bare.apex
  · rw [sameSigs]
    apply filed.covers
    intro name rtype sig there
    rw [grown.rrsigs, bare.noSigs, Dict.get?_empty] at there
    cases there
  · rw [isSigned] at unsigned
    cases unsigned
  · obtain ⟨set, inside, isApex, isSoa⟩ := apex_mem_snapshot m.cuts formedBuilt apexBuilt
      fun cut held => by
        rw [chained.origin]
        exact cuts_apart held
    have key : ((set.1, set.2.1) == (w.origin, RRType.soa)) = true := by
      rw [origin, ← grown.origin]
      exact setKey_beq_iff.mpr ⟨isApex, isSoa⟩
    rw [sameSigs, ← Dict.get?_congr last.rrsigs key]
    exact each set inside

theorem Zone.Served.coherent {crypto : Crypto} {z : Zone} (served : z.Served crypto) : z.Coherent := by
  cases served with
  | unsigned bare => exact bare.coherent
  | signed bare run => exact crypto.signZone_coherent bare run

/-- A served zone answers after a transfer as before, where the stream can carry it. -/
theorem transfer_answers_alike {crypto : Crypto} {z : Zone} (served : z.Served crypto)
    (recoverable : z.Recoverable) (sha1 : Octets → Octets) : z.TransfersAlike sha1 :=
  served.coherent.transfers recoverable sha1

/-- The zone signed, or left as it was. -/
def Crypto.signedOr (crypto : Crypto) (z : Zone) (algorithm : UInt8) (now : Int) (nsec3 : Bool)
    (salt : Octets) (iterations : Nat) : Zone :=
  match crypto.signZone z algorithm now nsec3 salt iterations none with
  | .ok (w, _) => w
  | .error _ => z

theorem Zone.Bare.served {crypto : Crypto} {z : Zone} (bare : z.Bare) (algorithm : UInt8)
    (now : Int) (nsec3 : Bool) (salt : Octets) (iterations : Nat) :
    (crypto.signedOr z algorithm now nsec3 salt iterations).Served crypto := by
  rw [Crypto.signedOr]
  cases run : crypto.signZone z algorithm now nsec3 salt iterations none with
  | error e => exact .unsigned bare
  | ok result => exact .signed bare run

theorem Crypto.signedOr_run {crypto : Crypto} {z : Zone} {algorithm : UInt8} {now : Int}
    {nsec3 : Bool} {salt : Octets} {iterations : Nat}
    (signs : (crypto.signZone z algorithm now nsec3 salt iterations none).toOption.isSome = true) :
    ∃ result, crypto.signZone z algorithm now nsec3 salt iterations none =
      .ok (crypto.signedOr z algorithm now nsec3 salt iterations, result) := by
  rw [Crypto.signedOr]
  cases run : crypto.signZone z algorithm now nsec3 salt iterations none with
  | error e =>
      rw [run] at signs
      cases signs
  | ok both => exact ⟨both.2, rfl⟩

/-- Keys and curves that keep their input: only the hash is the real one. -/
def plainCrypto : Crypto := ⟨Sha1.hash, Sha1.hash_length, id, [], id, fun _ data => data⟩

/-- A zone of one SOA. -/
def soaZone : Zone := (Zone.make apexName).add apexName RRType.soa (.soa apexSoa)

theorem soaZone_bare : soaZone.Bare := by
  have suits : Suits RRType.soa (.soa apexSoa) := by decide
  refine ⟨(Zone.Formed.make apexName).add suits, ?_, rfl, rfl⟩
  decide +kernel

theorem transfers_soaZone : soaZone.TransfersAlike Sha1.hash := by
  have slots (name : Name) (rtype : RRType) : soaZone.slot name rtype =
      if (apexName == name && RRType.soa == rtype) = true then [.soa apexSoa] else [] := by
    rw [soaZone, Zone.slot_add, Zone.slot_make, List.nil_append]
  have served : soaZone.Served plainCrypto := .unsigned soaZone_bare
  refine transfer_answers_alike served ⟨?_, ?_, ?_, ?_⟩ Sha1.hash
  · decide +kernel
  · intro name filled
    by_contra away
    refine filled ?_
    have apart : (apexName == name) = false := by
      rw [Bool.eq_false_iff]
      exact fun same => away (BEq.symm same)
    rw [slots, apart, Bool.false_and, if_neg Bool.false_ne_true]
  · intro name
    have apart : (RRType.soa == RRType.rrsig) = false := by decide
    rw [slots, apart, Bool.and_false, if_neg Bool.false_ne_true]
  · intro hashed
    cases hashed.1

/-- The zone signed with hashed denials, a salt of one octet. -/
def saltedZone : Zone := plainCrypto.signedOr soaZone 13 1700000000 true [0xAB] 0

/-- The stream carries no salt, so the zone that comes back hashes without it and finds no
proof that the apex has no TXT records. -/
theorem not_transfers_saltedZone :
    saltedZone.Served plainCrypto ∧ ¬ saltedZone.TransfersAlike Sha1.hash := by
  constructor
  · exact soaZone_bare.served 13 1700000000 true [0xAB] 0
  · intro ⟨records, w, stream, assembled, alike⟩
    have here := alike apexName RRType.txt true
    have sent : (saltedZone.lookup Sha1.hash apexName RRType.txt true).toOption.map
        (fun ans => ans.authority.length) = some 4 := by decide +kernel
    have back : (saltedZone.axfrRecords.bind fun records =>
        (Zone.zoneFromRecords records saltedZone.origin).toOption.bind fun w =>
          (w.lookup Sha1.hash apexName RRType.txt true).toOption.map
            fun ans => ans.authority.length) = some 2 := by decide +kernel
    rw [stream, Option.bind_some, assembled] at back
    rcases here with ⟨e, _, raised⟩ | ⟨x, y, left, right, shuffled⟩
    · rw [raised] at sent
      cases sent
    · rw [right] at sent
      have same : (w.lookup Sha1.hash apexName RRType.txt true).toOption.map
          (fun ans => ans.authority.length) = some 2 := back
      rw [left] at same
      have lengths := shuffled.authority.length_eq
      have two : x.authority.length = 2 := Option.some.inj same
      have four : y.authority.length = 4 := Option.some.inj sent
      omega

end Trench.AuthZone
