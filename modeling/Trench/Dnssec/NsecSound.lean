import Mathlib
import Trench.Dnssec.Content

set_option autoImplicit false

/- Any subset of a zone's genuine NSEC chain. One record that proves a gap says
everything about the name in it: the name is not in the chain, nothing on the way
to it ends the zone, and the ancestors that exist are those shared with the two
ends of the gap. -/
namespace Trench.Dnssec

open Trench.Wire
open PathOrder (commonPrefix commonPrefix_left commonPrefix_right prefix_commonPrefix)

/-- A record of the zone's chain: the next name follows in the ring and the bitmap
lists the types the zone answers for, with those of the chain itself. -/
structure GenuineNsec (z : Content) (item : NsecItem) : Prop where
  link : CyclicChain.Link z.chain item.1.canonKey item.2.nextName.canonKey
  bits : ∀ t, bitmapHas item.2.typeBitmap t = true ↔
    z.Listed item.1.canonKey t ∨ t = RRType.rrsig ∨ t = RRType.nsec

/-- A subset of the chain, in any order. -/
def GenuineNsecs (z : Content) (nsecs : List NsecItem) : Prop :=
  ∀ item ∈ nsecs, GenuineNsec z item

/-- The name is at or below the zone's apex. -/
def InZone (z : Content) (name : Name) : Prop := z.apex <+: name.canonKey

instance (z : Content) (name : Name) : Decidable (InZone z name) := by
  unfold InZone
  infer_instance

section

variable {z : Content} {item : NsecItem} {name : Name}

theorem GenuineNsec.has_iff (genuine : GenuineNsec z item) {t : RRType}
    (plain : t ≠ RRType.rrsig ∧ t ≠ RRType.nsec) :
    bitmapHas item.2.typeBitmap t = true ↔ z.Listed item.1.canonKey t := by
  rw [genuine.bits]
  exact ⟨fun h => h.elim id fun own => absurd own (not_or.mpr plain), Or.inl⟩

theorem GenuineNsec.isDelegation_iff (genuine : GenuineNsec z item) :
    isDelegation item.2.typeBitmap = true ↔ z.Cut item.1.canonKey := by
  have ns := genuine.has_iff (t := RRType.ns) (by decide)
  have soa := genuine.has_iff (t := RRType.soa) (by decide)
  rw [isDelegation, Bool.and_eq_true, Bool.not_eq_true', ns, ← Bool.not_eq_true, soa]
  constructor
  · rintro ⟨listed, other⟩
    refine ⟨listed.1, fun same => other ⟨Content.has_soa_iff.mpr same, fun cut => ?_⟩⟩
    exact absurd same cut.2
  · intro cut
    refine ⟨⟨cut.1, fun _ => .inl rfl⟩, fun listed => ?_⟩
    exact cut.2 (Content.has_soa_iff.mp listed.1)

theorem GenuineNsec.stops_iff (genuine : GenuineNsec z item) :
    (isDelegation item.2.typeBitmap || bitmapHas item.2.typeBitmap RRType.dname) = true ↔
      z.Stops item.1.canonKey := by
  have dname := genuine.has_iff (t := RRType.dname) (by decide)
  rw [Bool.or_eq_true, genuine.isDelegation_iff, dname]
  by_cases cut : z.Cut item.1.canonKey
  · exact ⟨fun _ => .inl cut, fun _ => .inl cut⟩
  · simp only [Content.Stops, Content.Listed, cut, false_or, false_implies, and_true]

theorem GenuineNsec.cutsOff_iff (genuine : GenuineNsec z item) :
    cutsOff item.1 item.2.typeBitmap name = true ↔
      z.Stops item.1.canonKey ∧ item.1.canonKey <+: name.canonKey ∧
        item.1.canonKey ≠ name.canonKey := by
  have below := @Name.isSubdomainOf_iff_canonKey name item.1
  have same := Name.beq_iff_canonKey (a := name) (b := item.1)
  rw [cutsOff]
  by_cases outside : (name == item.1 || !name.isSubdomainOf item.1) = true
  · rw [if_pos outside]
    rw [Bool.or_eq_true, same, Bool.not_eq_true', ← Bool.not_eq_true, below] at outside
    refine ⟨fun h => (by cases h), fun h => ?_⟩
    exact outside.elim (fun equal => absurd equal.symm h.2.2) (fun apart => absurd h.2.1 apart)
  · rw [if_neg outside, genuine.stops_iff]
    rw [Bool.or_eq_true, same, Bool.not_eq_true', ← Bool.not_eq_true, below, not_or,
      not_not] at outside
    exact ⟨fun h => ⟨h, outside.2, fun equal => outside.1 equal.symm⟩, fun h => h.1⟩

theorem GenuineNsec.provesGap_iff (genuine : GenuineNsec z item) :
    provesGap item.1 item.2 name = true ↔
      CyclicChain.Covers item.1.canonKey item.2.nextName.canonKey name.canonKey ∧
      ¬ (z.Stops item.1.canonKey ∧ item.1.canonKey <+: name.canonKey ∧
        item.1.canonKey ≠ name.canonKey) := by
  rw [provesGap, Bool.and_eq_true, nsecCovers_iff, Bool.not_eq_true', ← Bool.not_eq_true,
    genuine.cutsOff_iff]

/-- What a proven gap says about the name in it. -/
structure Gap (z : Content) (low high q : Path) : Prop where
  low_mem : low ∈ z.chain
  high_mem : high ∈ z.chain
  absent : q ∉ z.chain
  shown : ¬ z.Occluded q
  lower : low < q
  below : ∀ member ∈ z.chain, member < q → member ≤ low
  above : ∀ member ∈ z.chain, q < member → q < high ∧ high ≤ member

/-- A delegation on the way to the name would be the owner of the record itself,
and then it cuts the name off. -/
theorem GenuineNsec.gap (genuine : GenuineNsec z item) (inside : InZone z name)
    (proves : provesGap item.1 item.2 name = true) :
    Gap z item.1.canonKey item.2.nextName.canonKey name.canonKey := by
  obtain ⟨covers, uncut⟩ := genuine.provesGap_iff.mp proves
  have link := genuine.link
  have lower := link.low_lt_of_covers covers Content.apex_mem_chain
    (PathOrder.le_of_extends inside)
  refine ⟨link.low_mem, link.high_mem, link.not_mem_of_covers covers, fun hidden => ?_, lower,
    fun member held lesser => link.le_low_of_lt covers held lesser, fun member held higher => ?_⟩
  · obtain ⟨c, held, stops, leads, differ⟩ := hidden.first_stop
    have early := link.le_low_of_lt covers held (PathOrder.lt_of_extends_ne leads differ)
    have onWay := PathOrder.prefix_of_le_of_le leads early lower.le
    by_cases same : c = item.1.canonKey
    · exact uncut ⟨same ▸ stops, same ▸ leads, same ▸ differ⟩
    · exact link.low_mem.2 (Content.occluded_iff.mpr ⟨c, stops, onWay, same⟩)
  · refine ⟨?_, link.high_le_of_lt lower held higher⟩
    rcases link.next with ⟨ordered, _⟩ | range
    · exact ((CyclicChain.covers_of_lt ordered).mp covers).2
    · exact absurd (range member held).2 (not_le.mpr (lower.trans higher))

theorem Gap.exists_iff {low high q p : Path} (gap : Gap z low high q) (leads : p <+: q) :
    z.Exists p ↔ p <+: low ∨ p <+: high := by
  constructor
  · intro found
    obtain ⟨member, held, onWay⟩ := Content.exists_iff.mp found
    rcases lt_trichotomy member q with lesser | same | higher
    · have reach := gap.below member held lesser
      exact .inl (PathOrder.prefix_of_le_of_le leads
        ((PathOrder.le_of_extends onWay).trans reach) gap.lower.le)
    · exact absurd (same ▸ held) gap.absent
    · obtain ⟨next, reach⟩ := gap.above member held higher
      exact .inr (PathOrder.prefix_of_le_of_le onWay
        ((PathOrder.le_of_extends leads).trans next.le) reach)
  · rintro (left | right)
    · exact Content.exists_iff.mpr ⟨low, gap.low_mem, left⟩
    · exact Content.exists_iff.mpr ⟨high, gap.high_mem, right⟩

/-- The longer of the ancestors shared with the two ends is the closest encloser. -/
theorem Gap.encloser_eq {low high q : Path} (gap : Gap z low high q) (inside : z.apex <+: q) :
    z.encloser q = if (commonPrefix high q).length ≤ (commonPrefix low q).length
      then commonPrefix low q else commonPrefix high q := by
  have left := commonPrefix_right low q
  have right := commonPrefix_right high q
  have leftFound := (gap.exists_iff left).mpr (.inl (commonPrefix_left low q))
  have rightFound := (gap.exists_iff right).mpr (.inr (commonPrefix_left high q))
  have reach (p : Path) (leads : p <+: q) (found : z.Exists p) :
      p <+: commonPrefix low q ∨ p <+: commonPrefix high q :=
    ((gap.exists_iff leads).mp found).imp (prefix_commonPrefix · leads) (prefix_commonPrefix · leads)
  split
  · next longer =>
      have step := List.prefix_of_prefix_length_le right left longer
      exact Content.encloser_eq inside left leftFound fun p leads found =>
        (reach p leads found).elim id (·.trans step)
  · next shorter =>
      have step := List.prefix_of_prefix_length_le left right (not_le.mp shorter).le
      exact Content.encloser_eq inside right rightFound fun p leads found =>
        (reach p leads found).elim (·.trans step) id

end

/-- One of the records has the path in its gap, and its owner does not end the
zone on the way to it. -/
def Denied (z : Content) (nsecs : List NsecItem) (p : Path) : Prop :=
  ∃ item ∈ nsecs, CyclicChain.Covers item.1.canonKey item.2.nextName.canonKey p ∧
    ¬ (z.Stops item.1.canonKey ∧ item.1.canonKey <+: p ∧ item.1.canonKey ≠ p)

section

variable {z : Content} {nsecs : List NsecItem} {qname : Name} {qtype : RRType}

theorem covered_iff (genuine : GenuineNsecs z nsecs) (name : Name) :
    covered name nsecs = true ↔ Denied z nsecs name.canonKey := by
  rw [covered, List.any_eq_true]
  constructor
  · rintro ⟨item, held, proves⟩
    exact ⟨item, held, (genuine item held).provesGap_iff.mp proves⟩
  · rintro ⟨item, held, gap⟩
    exact ⟨item, held, (genuine item held).provesGap_iff.mpr gap⟩

theorem Denied.gap (genuine : GenuineNsecs z nsecs) {name : Name} (inside : InZone z name)
    (denied : Denied z nsecs name.canonKey) : ∃ low high, Gap z low high name.canonKey := by
  obtain ⟨item, held, gap⟩ := denied
  have sound := genuine item held
  exact ⟨_, _, sound.gap inside (sound.provesGap_iff.mpr gap)⟩

/-- A denied name has no records, and it is not hidden either. -/
theorem Gap.not_owner {low high q : Path} (gap : Gap z low high q) : ¬ z.Owner q :=
  fun owner => gap.absent ⟨owner, gap.shown⟩

theorem nsecNxdomain_iff (genuine : GenuineNsecs z nsecs) (inside : InZone z qname) :
    nsecNxdomain qname nsecs = true ↔ Denied z nsecs qname.canonKey ∧ ¬ z.Exists qname.canonKey ∧
      Denied z nsecs (z.encloser qname.canonKey ++ [star]) := by
  rw [nsecNxdomain]
  split
  · next missing =>
      refine ⟨fun h => (by cases h), fun h => ?_⟩
      have some := (covered_iff genuine _).mpr h.1
      rw [covered, List.any_eq_true] at some
      obtain ⟨item, held, proves⟩ := some
      exact absurd proves (List.find?_eq_none.mp missing item held)
  · next owner rd found =>
      have proves : provesGap owner rd qname = true :=
        List.find?_some (p := fun item : NsecItem => provesGap item.1 item.2 qname) found
      have held := List.mem_of_find?_eq_some found
      have gap := (genuine _ held).gap inside proves
      have denied : Denied z nsecs qname.canonKey :=
        ⟨_, held, (genuine _ held).provesGap_iff.mp proves⟩
      simp only
      generalize shape : (if (commonSuffix owner qname).labels.length ≥
        (commonSuffix rd.nextName qname).labels.length then commonSuffix owner qname
        else commonSuffix rd.nextName qname) = ce
      have path : ce.canonKey = z.encloser qname.canonKey := by
        rw [gap.encloser_eq inside, ← shape]
        simp only [← Name.canonKey_length, commonSuffix_canonKey, ge_iff_le]
        split <;> exact commonSuffix_canonKey _ _
      have wild : (wildcardOf ce).canonKey = z.encloser qname.canonKey ++ [star] := by
        rw [wildcardOf_canonKey, path]
      have wildInside : InZone z (wildcardOf ce) := by
        have top := Content.encloser_deepest inside Content.exists_apex
        rw [InZone, wild]
        exact top.trans (List.prefix_append _ _)
      by_cases deep : ce.labels.length ≥ qname.labels.length
      · rw [if_pos deep]
        rw [← Name.canonKey_length, ← Name.canonKey_length, path] at deep
        have found := (Content.exists_iff_encloser inside).mpr deep
        exact ⟨fun h => (by cases h), fun h => absurd found h.2.1⟩
      · rw [if_neg deep]
        rw [← Name.canonKey_length, ← Name.canonKey_length, path] at deep
        have absent : ¬ z.Exists qname.canonKey :=
          fun h => deep ((Content.exists_iff_encloser inside).mp h)
        have rest := covered_iff genuine (wildcardOf ce)
        rw [wild] at rest
        split
        · next present =>
            refine ⟨fun h => (by cases h), fun h => ?_⟩
            obtain ⟨item, here, same⟩ := List.any_eq_true.mp present
            obtain ⟨low, high, other⟩ := Denied.gap genuine wildInside (wild.symm ▸ h.2.2)
            have equal := Name.beq_iff_canonKey.mp same
            exact absurd (equal ▸ (genuine item here).link.low_mem) other.absent
        · rw [rest]
          exact ⟨fun h => ⟨denied, absent, h⟩, fun h => h.2.2⟩

/-- The exact-match denial is always right: the record is the name's own. -/
theorem nsecNodata_sound (genuine : GenuineNsecs z nsecs)
    (accepts : nsecNodata qname qtype nsecs = true) :
    z.answer qname.canonKey qtype = .nodata := by
  rw [nsecNodata] at accepts
  split at accepts
  · next owner rd found =>
      have held := List.mem_of_find?_eq_some found
      have same := Name.beq_iff_canonKey.mp
        (List.find?_some (p := fun item : NsecItem => item.1 == qname) found)
      have sound := genuine _ held
      have member : qname.canonKey ∈ z.chain := same ▸ sound.link.low_mem
      have exact := Content.exists_iff.mpr ⟨_, member, List.prefix_refl _⟩
      split at accepts
      · cases accepts
      · next parent =>
          rw [Bool.not_eq_true', Bool.or_eq_false_iff] at accepts
          have uncut : ¬ z.Cut qname.canonKey := by
            rw [← same]
            exact fun cut => parent (sound.isDelegation_iff.mpr cut)
          have lacks (t : RRType) (clear : bitmapHas rd.typeBitmap t = false) :
              ¬ z.Listed qname.canonKey t := by
            intro listed
            have bit := (sound.bits t).mpr (.inl (same.symm ▸ listed))
            exact absurd bit (Bool.eq_false_iff.mp clear)
          refine (Content.answer_eq_nodata_iff member.2 qtype).mpr ?_
          rw [Content.Supplies, Content.source_of_exists exact]
          exact ⟨exact, fun cut => absurd cut uncut,
            not_or.mpr ⟨lacks _ accepts.1, lacks _ accepts.2⟩⟩
  · cases accepts

/-- A wildcard record that shows neither the type nor a CNAME, from strictly above
the name. -/
def OffersNodata (qname : Name) (qtype : RRType) (item : NsecItem) : Prop :=
  item.1.labels.head? = some Label.star ∧ item.1.parent.canonKey <+: qname.canonKey ∧
    item.1.parent.canonKey ≠ qname.canonKey ∧
    bitmapHas item.2.typeBitmap qtype = false ∧ bitmapHas item.2.typeBitmap RRType.cname = false

theorem strictlyBelow_iff (name ce : Name) :
    (!name.isSubdomainOf ce || name == ce) = false ↔
      ce.canonKey <+: name.canonKey ∧ ce.canonKey ≠ name.canonKey := by
  rw [Bool.or_eq_false_iff, Bool.not_eq_false', Name.isSubdomainOf_iff_canonKey,
    ← Bool.not_eq_true, Name.beq_iff_canonKey]
  exact and_congr_right fun _ => not_congr eq_comm

theorem nsecWildcardNodata_iff (genuine : GenuineNsecs z nsecs) :
    nsecWildcardNodata qname qtype nsecs = true ↔
      Denied z nsecs qname.canonKey ∧ ∃ item ∈ nsecs, OffersNodata qname qtype item := by
  rw [nsecWildcardNodata, List.any_eq_true, ← covered_iff genuine]
  constructor
  · rintro ⟨⟨owner, rd⟩, held, accepts⟩
    simp only at accepts
    split at accepts
    · cases accepts
    · next wild =>
        split at accepts
        · cases accepts
        · next below =>
            split at accepts
            · cases accepts
            · next lacks =>
                rw [Bool.not_eq_true, strictlyBelow_iff] at below
                rw [Bool.not_eq_true, Bool.or_eq_false_iff] at lacks
                exact ⟨accepts, _, held, not_not.mp wild, below.1, below.2, lacks⟩
  · rintro ⟨gap, ⟨owner, rd⟩, held, wild, leads, differ, lacks⟩
    refine ⟨_, held, ?_⟩
    simp only at wild leads differ lacks ⊢
    have below := (strictlyBelow_iff qname owner.parent).mpr ⟨leads, differ⟩
    simp only [wild, ne_eq, not_true_eq_false, ↓reduceIte, below, Bool.false_eq_true, lacks.1,
      lacks.2, Bool.or_self, gap]

theorem nsecWildcardExpansion_iff (genuine : GenuineNsecs z nsecs) (qname wild : Name) :
    nsecWildcardExpansion qname wild nsecs = true ↔
      (wild.parent.canonKey <+: qname.canonKey ∧ wild.parent.canonKey ≠ qname.canonKey) ∧
        Denied z nsecs qname.canonKey := by
  rw [nsecWildcardExpansion, ← strictlyBelow_iff, ← covered_iff genuine]
  cases !qname.isSubdomainOf wild.parent || qname == wild.parent <;> simp

end

/-- What the four NSEC denials promise about one question. -/
structure NsecSound (z : Content) (nsecs : List NsecItem) (qname : Name) (qtype : RRType)
    (wild : Name) : Prop where
  nxdomain : nsecNxdomain qname nsecs = true →
    ∀ t, z.answer qname.canonKey t = .nxdomain
  nodata : nsecNodata qname qtype nsecs = true →
    z.answer qname.canonKey qtype = .nodata ∧ ¬ z.Supplies qname.canonKey qtype
  wildcardNodata : nsecWildcardNodata qname qtype nsecs = true →
    z.answer qname.canonKey qtype = .nodata ∧ ¬ z.Supplies qname.canonKey qtype
  expansion : nsecWildcardExpansion qname wild nsecs = true →
    ¬ z.Exists qname.canonKey ∧ z.encloser qname.canonKey = wild.parent.canonKey

/-- The wildcards that matter are those of the closest encloser, which the code
does not look for. -/
structure WildcardsApply (z : Content) (nsecs : List NsecItem) (qname : Name) (qtype : RRType)
    (wild : Name) : Prop where
  /-- The wildcard that could answer an absent name is no empty non-terminal. -/
  nonempty : ¬ z.Exists qname.canonKey → Denied z nsecs qname.canonKey →
    Denied z nsecs (z.source qname.canonKey) → ¬ z.Exists (z.source qname.canonKey)
  /-- A wildcard record for an absent name is no delegation. -/
  uncut : ¬ z.Exists qname.canonKey → Denied z nsecs qname.canonKey → ∀ item ∈ nsecs,
    OffersNodata qname qtype item → item.1.canonKey = z.source qname.canonKey →
    z.Cut (z.source qname.canonKey) → qtype = RRType.ds
  /-- One from further up comes with a closer one that lacks the type too. -/
  closer : ¬ z.Exists qname.canonKey → Denied z nsecs qname.canonKey → ∀ item ∈ nsecs,
    OffersNodata qname qtype item → item.1.canonKey ≠ z.source qname.canonKey →
    z.Exists (z.source qname.canonKey) ∧
      (z.Cut (z.source qname.canonKey) → qtype = RRType.ds) ∧ ¬ z.Supplies qname.canonKey qtype
  /-- Nothing exists between the parent of the expanded wildcard and the name. -/
  adjacent : Denied z nsecs qname.canonKey → wild.parent.canonKey <+: qname.canonKey →
    wild.parent.canonKey ≠ qname.canonKey → z.Exists wild.parent.canonKey ∧
    ∀ p, p <+: qname.canonKey → z.Exists p → p <+: wild.parent.canonKey

section

variable {z : Content} {nsecs : List NsecItem} {qname wild : Name} {qtype : RRType}

theorem wildcard_canonKey {name : Name} (head : name.labels.head? = some Label.star) :
    name.canonKey = name.parent.canonKey ++ [star] := by
  obtain ⟨labels⟩ := name
  cases labels with
  | nil => cases head
  | cons label rest =>
      cases head
      rw [Name.canonKey_cons, Label.lower_star]
      rfl

/-- At an empty non-terminal every type is absent. -/
theorem Gap.nodata_of_exists {low high q : Path} (gap : Gap z low high q) (found : z.Exists q)
    (t : RRType) : z.answer q t = .nodata := by
  rw [Content.answer_of_shown gap.shown, Content.source_of_exists found, if_pos found]
  exact Content.answerAt_of_not_owner gap.not_owner t

theorem wildcardNodata_iff (genuine : GenuineNsecs z nsecs) (inside : InZone z qname) :
    (nsecWildcardNodata qname qtype nsecs = true → z.answer qname.canonKey qtype = .nodata) ↔
      (¬ z.Exists qname.canonKey → Denied z nsecs qname.canonKey → ∀ item ∈ nsecs,
        OffersNodata qname qtype item → z.Exists (z.source qname.canonKey) ∧
          (z.Cut (z.source qname.canonKey) → qtype = RRType.ds) ∧
          ¬ z.Supplies qname.canonKey qtype) := by
  rw [nsecWildcardNodata_iff genuine]
  constructor
  · intro sound _ denied item held offers
    obtain ⟨low, high, gap⟩ := denied.gap genuine inside
    exact (Content.answer_eq_nodata_iff gap.shown qtype).mp (sound ⟨denied, item, held, offers⟩)
  · rintro closest ⟨denied, item, held, offers⟩
    obtain ⟨low, high, gap⟩ := denied.gap genuine inside
    by_cases found : z.Exists qname.canonKey
    · exact gap.nodata_of_exists found qtype
    · exact (Content.answer_eq_nodata_iff gap.shown qtype).mpr
        (closest found denied item held offers)

/-- A wildcard record at the applying wildcard answers for itself, a delegation
aside. -/
theorem source_lacks (genuine : GenuineNsecs z nsecs) {item : NsecItem} (held : item ∈ nsecs)
    (offers : OffersNodata qname qtype item) (same : item.1.canonKey = z.source qname.canonKey) :
    z.Exists (z.source qname.canonKey) ∧ ¬ z.Supplies qname.canonKey qtype := by
  have sound := genuine item held
  have lacks (t : RRType) (clear : bitmapHas item.2.typeBitmap t = false) :
      ¬ z.Listed (z.source qname.canonKey) t := fun listed =>
    Bool.eq_false_iff.mp clear ((sound.bits t).mpr (.inl (same ▸ listed)))
  refine ⟨?_, not_or.mpr ⟨lacks _ offers.2.2.2.1, lacks _ offers.2.2.2.2⟩⟩
  exact Content.exists_iff.mpr ⟨_, sound.link.low_mem, same ▸ List.prefix_refl _⟩

end

/-! ### A wildcard from too far up

The zone `e` holds `*.e` with a TXT record and `*.f.e` with an address. The closest
encloser of `x.f.e` is `f.e`, so its addresses come from `*.f.e`; the NSEC of `*.e`
denies them all the same. -/

def letter (c : UInt8) : Label := ⟨[c], Nat.le_refl 1, by simp [maxLabel]⟩

def wildcardsZone : Content where
  apex := [[0x65]]
  nodes := [([[0x65]], [RRType.soa, RRType.ns]), ([[0x65], star], [RRType.txt]),
    ([[0x65], [0x66]], [RRType.txt]), ([[0x65], [0x66], star], [RRType.a])]
  inZone := by decide
  soaApex := by decide
  soaOnly := by decide

/-- The NSEC records of `*.e` and `*.f.e`. -/
def wildcardsChain : List NsecItem :=
  [(⟨[Label.star, letter 0x65]⟩, ⟨⟨[letter 0x66, letter 0x65]⟩,
      encodeTypeBitmap [RRType.txt, RRType.rrsig, RRType.nsec]⟩),
   (⟨[Label.star, letter 0x66, letter 0x65]⟩, ⟨⟨[letter 0x65]⟩,
      encodeTypeBitmap [RRType.a, RRType.rrsig, RRType.nsec]⟩)]

/-- Neighbours among the nodes are neighbours in the chain. -/
theorem link_of_nodes {z : Content} {low high : Path} (first : low ∈ z.chain)
    (second : high ∈ z.chain)
    (next : (low < high ∧ ∀ node ∈ z.nodes, node.1 ≤ low ∨ high ≤ node.1) ∨
      ∀ node ∈ z.nodes, high ≤ node.1 ∧ node.1 ≤ low) : CyclicChain.Link z.chain low high := by
  refine ⟨first, second, next.imp (fun inner => ⟨inner.1, ?_⟩) ?_⟩
  · intro p member
    obtain ⟨node, inside, rfl⟩ := member.1.node
    exact inner.2 node inside
  · intro range p member
    obtain ⟨node, inside, rfl⟩ := member.1.node
    exact range node inside

theorem genuine_of_types {z : Content} {item : NsecItem} (types : List RRType)
    (link : CyclicChain.Link z.chain item.1.canonKey item.2.nextName.canonKey)
    (bitmap : item.2.typeBitmap = encodeTypeBitmap (types ++ [RRType.rrsig, RRType.nsec]))
    (held : ∀ t, z.Listed item.1.canonKey t ↔ t ∈ types) : GenuineNsec z item := by
  refine ⟨link, fun t => ?_⟩
  rw [bitmap, bitmapHas_encodeTypeBitmap, held]
  simp only [List.mem_append, List.mem_cons, List.not_mem_nil, or_false]

/-- At a name that is no delegation the zone lists what it holds. -/
theorem listed_iff_of_uncut {z : Content} {p : Path} (uncut : ¬ z.Cut p) (t : RRType) :
    z.Listed p t ↔ z.Has p t :=
  ⟨fun listed => listed.1, fun has => ⟨has, fun cut => absurd cut uncut⟩⟩

theorem wildcardsChain_genuine : GenuineNsecs wildcardsZone wildcardsChain := by
  intro item held
  simp only [wildcardsChain, List.mem_cons, List.not_mem_nil, or_false] at held
  rcases held with rfl | rfl
  · refine genuine_of_types [RRType.txt] (link_of_nodes (by decide) (by decide) (by decide)) rfl
      fun t => (listed_iff_of_uncut (by decide) t).trans ?_
    simp [Content.Has, wildcardsZone, Name.canonKey, letter, Label.star, star, Label.lower,
      lowerOctet]
  · refine genuine_of_types [RRType.a] (link_of_nodes (by decide) (by decide) (by decide)) rfl
      fun t => (listed_iff_of_uncut (by decide) t).trans ?_
    simp [Content.Has, wildcardsZone, Name.canonKey, letter, Label.star, star, Label.lower,
      lowerOctet]

end Trench.Dnssec
