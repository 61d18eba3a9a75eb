import Mathlib
import Trench.Lib.PathOrder
import Trench.Dnssec.Nsec

set_option autoImplicit false

/- What a zone holds and what it answers, stated over paths from the root: which
names exist, which of them a delegation or a DNAME hides, and where a wildcard
applies. The denial functions are measured against this. -/
namespace Trench.Dnssec

open Trench.Wire

/-- The labels of a name from the root down, lowercased: its canonical key. -/
abbrev Path := List Octets

/-- Owner names with their types. The SOA marks the apex and nothing else. -/
structure Content where
  apex : Path
  nodes : List (Path × List RRType)
  inZone : ∀ node ∈ nodes, apex <+: node.1
  soaApex : ∃ node ∈ nodes, node.1 = apex ∧ RRType.soa ∈ node.2
  soaOnly : ∀ node ∈ nodes, RRType.soa ∈ node.2 → node.1 = apex

inductive ZoneAnswer where
  | referral
  | redirected
  | data
  | cname
  | nodata
  | nxdomain
  deriving DecidableEq

namespace Content

variable (z : Content)

def Has (p : Path) (t : RRType) : Prop := ∃ node ∈ z.nodes, node.1 = p ∧ t ∈ node.2

def Owner (p : Path) : Prop := ∃ node ∈ z.nodes, node.1 = p ∧ node.2 ≠ []

/-- A delegation to a child zone. -/
def Cut (p : Path) : Prop := z.Has p RRType.ns ∧ p ≠ z.apex

/-- The zone's own names end here. -/
def Stops (p : Path) : Prop := z.Cut p ∨ z.Has p RRType.dname

/-- Below a delegation or a DNAME. -/
def Occluded (p : Path) : Prop := ∃ node ∈ z.nodes, z.Stops node.1 ∧ node.1 <+: p ∧ node.1 ≠ p

/-- The names a signer puts in the chain. -/
def chain : Set Path := {p | z.Owner p ∧ ¬ z.Occluded p}

/-- The name or something under it is in the chain. -/
def Exists (p : Path) : Prop := ∃ node ∈ z.nodes, node.1 ∈ z.chain ∧ p <+: node.1

/-- The types a zone answers for at a name: at a delegation only what is the
parent's. -/
def Listed (p : Path) (t : RRType) : Prop :=
  z.Has p t ∧ (z.Cut p → t = RRType.ns ∨ t = RRType.ds)

/-- The type is the zone's own at a name that nothing hides. -/
def Serves (p : Path) (t : RRType) : Prop := ¬ z.Occluded p ∧ z.Listed p t

instance (p : Path) (t : RRType) : Decidable (z.Has p t) := by unfold Has; infer_instance
instance (p : Path) : Decidable (z.Owner p) := by unfold Owner; infer_instance
instance (p : Path) : Decidable (z.Cut p) := by unfold Cut; infer_instance
instance (p : Path) : Decidable (z.Stops p) := by unfold Stops; infer_instance
instance (p : Path) : Decidable (z.Occluded p) := by unfold Occluded; infer_instance
instance (p : Path) : Decidable (p ∈ z.chain) :=
  inferInstanceAs (Decidable (z.Owner p ∧ ¬ z.Occluded p))
instance (p : Path) : Decidable (z.Exists p) := by unfold Exists; infer_instance
instance (p : Path) (t : RRType) : Decidable (z.Listed p t) := by unfold Listed; infer_instance

/-- The longest existing path that leads to `q`. -/
def encloser (q : Path) : Path :=
  q.take (Nat.findGreatest (fun k => z.Exists (q.take k)) q.length)

/-- The wildcard that may stand in for `q`. -/
def source (q : Path) : Path := if z.Exists q then q else z.encloser q ++ [star]

/-- The answer from the records at one existing name. -/
def answerAt (p : Path) (t : RRType) : ZoneAnswer :=
  if z.Cut p ∧ t ≠ RRType.ds then .referral
  else if z.Listed p t then .data
  else if z.Listed p RRType.cname then .cname
  else .nodata

/-- The answer to a question: a cut or DNAME on the way, the name itself, the
wildcard at its closest encloser, or nothing. -/
def answer (q : Path) (t : RRType) : ZoneAnswer :=
  if ∃ node ∈ z.nodes, z.Cut node.1 ∧ node.1 <+: q ∧ node.1 ≠ q then .referral
  else if z.Occluded q then .redirected
  else if z.Exists (z.source q) then z.answerAt (z.source q) t
  else .nxdomain

variable {z}

theorem Has.owner {p : Path} {t : RRType} (has : z.Has p t) : z.Owner p := by
  obtain ⟨node, inside, same, held⟩ := has
  exact ⟨node, inside, same, List.ne_nil_of_mem held⟩

theorem Stops.owner {p : Path} (stops : z.Stops p) : z.Owner p :=
  stops.elim (fun cut => cut.1.owner) Has.owner

theorem Owner.node {p : Path} (owner : z.Owner p) : ∃ node ∈ z.nodes, node.1 = p := by
  obtain ⟨node, inside, same, _⟩ := owner
  exact ⟨node, inside, same⟩

theorem Owner.inZone {p : Path} (owner : z.Owner p) : z.apex <+: p := by
  obtain ⟨node, inside, rfl, _⟩ := owner
  exact z.inZone node inside

theorem occluded_iff {p : Path} : z.Occluded p ↔ ∃ c, z.Stops c ∧ c <+: p ∧ c ≠ p := by
  constructor
  · rintro ⟨node, _, stops, above, differ⟩
    exact ⟨node.1, stops, above, differ⟩
  · rintro ⟨c, stops, above, differ⟩
    obtain ⟨node, inside, rfl⟩ := stops.owner.node
    exact ⟨node, inside, stops, above, differ⟩

theorem exists_iff {p : Path} : z.Exists p ↔ ∃ member ∈ z.chain, p <+: member := by
  constructor
  · rintro ⟨node, _, member, above⟩
    exact ⟨node.1, member, above⟩
  · rintro ⟨member, inside, above⟩
    obtain ⟨node, here, rfl⟩ := inside.1.node
    exact ⟨node, here, inside, above⟩

theorem chain_inZone {p : Path} (member : p ∈ z.chain) : z.apex <+: p := member.1.inZone

/-- What lies below a hidden name is hidden too. -/
theorem Occluded.below {p q : Path} (hidden : z.Occluded p) (above : p <+: q) : z.Occluded q := by
  obtain ⟨c, stops, leads, differ⟩ := occluded_iff.mp hidden
  refine occluded_iff.mpr ⟨c, stops, leads.trans above, ?_⟩
  rintro rfl
  exact differ (leads.eq_of_length (le_antisymm leads.length_le above.length_le))

/-- The first stop on the way to a hidden name is in the chain itself. -/
theorem Occluded.first_stop {q : Path} (hidden : z.Occluded q) :
    ∃ c ∈ z.chain, z.Stops c ∧ c <+: q ∧ c ≠ q := by
  obtain ⟨c, stops, above, differ⟩ := occluded_iff.mp hidden
  induction length : c.length using Nat.strong_induction_on generalizing c with
  | _ n ih =>
      by_cases inner : z.Occluded c
      · obtain ⟨b, earlier, leads, apart⟩ := occluded_iff.mp inner
        have shorter : b.length < c.length := by
          refine lt_of_le_of_ne leads.length_le fun same => apart (leads.eq_of_length same)
        refine ih b.length (length ▸ shorter) b earlier (leads.trans above) ?_ rfl
        rintro rfl
        exact absurd above.length_le (not_le.mpr shorter)
      · exact ⟨c, ⟨stops.owner, inner⟩, stops, above, differ⟩

/-- A name above an owner exists unless it is hidden. -/
theorem exists_of_owner {p q : Path} (owner : z.Owner p) (above : q <+: p)
    (shown : ¬ z.Occluded q) : z.Exists q := by
  by_cases hidden : z.Occluded p
  · obtain ⟨c, member, stops, leads, _⟩ := hidden.first_stop
    rcases List.prefix_or_prefix_of_prefix above leads with here | there
    · exact exists_iff.mpr ⟨c, member, here⟩
    · by_cases same : c = q
      · exact exists_iff.mpr ⟨c, member, same ▸ List.prefix_refl c⟩
      · exact absurd (occluded_iff.mpr ⟨c, stops, there, same⟩) shown
  · exact exists_iff.mpr ⟨p, ⟨owner, hidden⟩, above⟩

theorem Exists.above {p q : Path} (found : z.Exists q) (above : p <+: q) : z.Exists p := by
  obtain ⟨member, inside, leads⟩ := exists_iff.mp found
  exact exists_iff.mpr ⟨member, inside, above.trans leads⟩

theorem has_soa_iff {p : Path} : z.Has p RRType.soa ↔ p = z.apex := by
  constructor
  · rintro ⟨node, inside, rfl, held⟩
    exact z.soaOnly node inside held
  · rintro rfl
    exact z.soaApex

theorem apex_mem_chain : z.apex ∈ z.chain := by
  refine ⟨(has_soa_iff.mpr rfl).owner, fun hidden => ?_⟩
  obtain ⟨c, stops, above, differ⟩ := occluded_iff.mp hidden
  exact differ (above.eq_of_length (le_antisymm above.length_le stops.owner.inZone.length_le))

theorem exists_apex : z.Exists z.apex := exists_iff.mpr ⟨z.apex, apex_mem_chain, List.prefix_refl _⟩

/-! ### The closest encloser -/

theorem encloser_onWay (q : Path) : z.encloser q <+: q := List.take_prefix _ _

theorem encloser_exists {q : Path} (inside : z.apex <+: q) : z.Exists (z.encloser q) := by
  refine Nat.findGreatest_spec (P := fun k => z.Exists (q.take k)) inside.length_le ?_
  rw [← List.prefix_iff_eq_take.mp inside]
  exact exists_apex

theorem encloser_deepest {p q : Path} (above : p <+: q) (found : z.Exists p) :
    p <+: z.encloser q := by
  have reached : z.Exists (q.take p.length) := List.prefix_iff_eq_take.mp above ▸ found
  have bound := Nat.le_findGreatest (P := fun k => z.Exists (q.take k)) above.length_le reached
  refine List.prefix_of_prefix_length_le above (encloser_onWay q) ?_
  rw [encloser, List.length_take]
  exact le_min bound above.length_le

/-- The closest encloser is the existing ancestor that all others lead to. -/
theorem encloser_eq {e q : Path} (inside : z.apex <+: q) (above : e <+: q) (found : z.Exists e)
    (closest : ∀ p, p <+: q → z.Exists p → p <+: e) : z.encloser q = e := by
  have down := closest _ (encloser_onWay q) (encloser_exists inside)
  have up := encloser_deepest above found
  exact down.eq_of_length (le_antisymm down.length_le up.length_le)

theorem exists_iff_encloser {q : Path} (inside : z.apex <+: q) :
    z.Exists q ↔ q.length ≤ (z.encloser q).length := by
  constructor
  · exact fun found => (encloser_deepest (List.prefix_refl q) found).length_le
  · intro long
    have whole := (encloser_onWay q).eq_of_length (le_antisymm (encloser_onWay q).length_le long)
    exact whole ▸ encloser_exists inside

/-! ### Answers -/

/-- Records of the type, or a CNAME, at the name or at the wildcard that applies. -/
def Supplies (z : Content) (q : Path) (t : RRType) : Prop :=
  z.Listed (z.source q) t ∨ z.Listed (z.source q) RRType.cname

theorem answer_of_shown {q : Path} (shown : ¬ z.Occluded q) (t : RRType) :
    z.answer q t = if z.Exists (z.source q) then z.answerAt (z.source q) t else .nxdomain := by
  have uncut : ¬ ∃ node ∈ z.nodes, z.Cut node.1 ∧ node.1 <+: q ∧ node.1 ≠ q := by
    rintro ⟨node, inside, cut, above, differ⟩
    exact shown ⟨node, inside, .inl cut, above, differ⟩
  rw [answer, if_neg uncut, if_neg shown]

theorem answerAt_eq_nodata_iff {p : Path} {t : RRType} : z.answerAt p t = .nodata ↔
    (z.Cut p → t = RRType.ds) ∧ ¬ z.Listed p t ∧ ¬ z.Listed p RRType.cname := by
  rw [answerAt]
  by_cases cut : z.Cut p ∧ t ≠ RRType.ds
  · rw [if_pos cut]
    exact ⟨fun h => (by cases h), fun h => absurd (h.1 cut.1) cut.2⟩
  · rw [if_neg cut]
    have parent : z.Cut p → t = RRType.ds := fun h => by_contra fun other => cut ⟨h, other⟩
    by_cases data : z.Listed p t
    · rw [if_pos data]
      exact ⟨fun h => (by cases h), fun h => absurd data h.2.1⟩
    · rw [if_neg data]
      by_cases chained : z.Listed p RRType.cname
      · rw [if_pos chained]
        exact ⟨fun h => (by cases h), fun h => absurd chained h.2.2⟩
      · rw [if_neg chained]
        exact ⟨fun _ => ⟨parent, data, chained⟩, fun _ => rfl⟩

theorem answerAt_ne_nxdomain (p : Path) (t : RRType) : z.answerAt p t ≠ .nxdomain := by
  rw [answerAt]
  split
  · decide
  · split
    · decide
    · split <;> decide

/-- A name without records is an empty non-terminal where it exists. -/
theorem answerAt_of_not_owner {p : Path} (empty : ¬ z.Owner p) (t : RRType) :
    z.answerAt p t = .nodata :=
  answerAt_eq_nodata_iff.mpr ⟨fun cut => absurd cut.1.owner empty,
    fun listed => empty listed.1.owner, fun listed => empty listed.1.owner⟩

theorem source_of_exists {q : Path} (found : z.Exists q) : z.source q = q := if_pos found

theorem source_of_absent {q : Path} (absent : ¬ z.Exists q) :
    z.source q = z.encloser q ++ [star] := if_neg absent

theorem answer_eq_nxdomain_iff {q : Path} (shown : ¬ z.Occluded q) (t : RRType) :
    z.answer q t = .nxdomain ↔ ¬ z.Exists (z.source q) := by
  rw [answer_of_shown shown]
  by_cases found : z.Exists (z.source q)
  · rw [if_pos found]
    exact ⟨fun h => absurd h (answerAt_ne_nxdomain _ _), fun h => absurd found h⟩
  · rw [if_neg found]
    exact ⟨fun _ => found, fun _ => rfl⟩

theorem answer_eq_nodata_iff {q : Path} (shown : ¬ z.Occluded q) (t : RRType) :
    z.answer q t = .nodata ↔ z.Exists (z.source q) ∧ (z.Cut (z.source q) → t = RRType.ds) ∧
      ¬ z.Supplies q t := by
  rw [answer_of_shown shown, Supplies, not_or]
  by_cases found : z.Exists (z.source q)
  · rw [if_pos found, answerAt_eq_nodata_iff]
    exact ⟨fun h => ⟨found, h⟩, fun h => h.2⟩
  · rw [if_neg found]
    exact ⟨fun h => (by cases h), fun h => absurd h.1 found⟩

end Content

end Trench.Dnssec
