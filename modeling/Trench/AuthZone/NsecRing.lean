import Mathlib
import Trench.AuthZone.Signer
import Trench.AuthZone.Transfer

set_option autoImplicit false

/- The NSEC chain of a signed zone divides the names below the apex. -/
namespace Trench.AuthZone

open Wire
open Zone (foldl_latest nsecBefore nsecPredecessor_eq)
open Dnssec (nameLt nameLt_iff nsecCovers nsecCovers_iff)

namespace Zone

/-- The links of the chain: every owner with the next one, the last with the first. -/
def nsecLinks (z : Zone) (cuts : List Name) : List (Name × Name) := CyclicChain.ring (z.chainNames cuts)

theorem chainNames_nil (z : Zone) : z.chainNames [] = z.names := by
  have never : ∀ labels, z.occludedFrom [] labels = false := by
    intro labels
    induction labels with
    | nil => rfl
    | cons label rest ih =>
        rw [occludedFrom, ih]
        split <;> rfl
  rw [chainNames, List.filter_eq_self]
  intro name _
  rw [occluded, never]
  rfl

/-- The apex is below no cut. -/
theorem occluded_apex (z : Zone) (cuts : List Name) {name : Name} (apex : (name == z.origin) = true) :
    z.occluded name cuts = false := by
  have count : name.labels.length = z.origin.labels.length := by
    rw [← Name.canonKey_length, ← Name.canonKey_length, Name.beq_iff_canonKey.mp apex]
  rw [occluded, Name.parent]
  cases rest : name.labels.drop 1 with
  | nil => rfl
  | cons label labels =>
      have short : (label :: labels).length = name.labels.length - 1 := by
        rw [← rest, List.length_drop]
      rw [occludedFrom, if_neg]
      rw [short, count]
      omega

/-- The owners of the chain, each once, in canonical order. -/
theorem chainNames_sorted (z : Zone) (cuts : List Name) :
    ((z.chainNames cuts).map Name.canonKey).Pairwise (· < ·) := by
  have sorted : z.names.Pairwise fun a b => a.canonKey ≤ b.canonKey := List.pairwise_insertionSort _ _
  have apart : z.names.Pairwise fun a b => a.canonKey ≠ b.canonKey := by
    refine List.Pairwise.imp_of_mem ?_ z.names_nodup
    intro a b left right differ same
    exact differ (z.names_unique left right (Name.beq_iff_canonKey.mpr same))
  rw [List.pairwise_map, chainNames]
  exact ((sorted.and apart).imp fun both => lt_of_le_of_ne both.1 both.2).filter _

theorem apex_mem_chain {z : Zone} (apex : z.records.contains z.origin = true) (cuts : List Name) :
    z.origin.canonKey ∈ (z.chainNames cuts).map Name.canonKey := by
  obtain ⟨entry, held, same⟩ := List.any_eq_true.mp apex
  refine List.mem_map.mpr ⟨entry.1, List.mem_filter.mpr ⟨mem_names.mpr ⟨entry, held, rfl⟩, ?_⟩,
    Name.beq_iff_canonKey.mp same⟩
  rw [z.occluded_apex cuts same]
  rfl

theorem mem_nsecLinks {z : Zone} {cuts : List Name} {link : Name × Name} (held : link ∈ z.nsecLinks cuts) :
    (link.1.canonKey, link.2.canonKey) ∈ CyclicChain.ring ((z.chainNames cuts).map Name.canonKey) := by
  rw [CyclicChain.ring_map]
  exact List.mem_map.mpr ⟨link, held, rfl⟩

/-! ### The owners of NSEC records -/

theorem contains_add {z : Zone} {name other : Name} {rtype t : RRType} {rd : Rdata} {ttl : Int} :
    ((z.add name rtype rd ttl).node other).contains t =
      ((name == other && rtype == t) || (z.node other).contains t) := by
  rw [node, add]
  simp only [Dict.get?_set]
  by_cases same : (name == other) = true
  · rw [if_pos same, Option.getD_some, Dict.contains_set, same, Bool.true_and, node, node,
      Dict.get?_congr z.records same]
  · rw [if_neg same, Bool.eq_false_iff.mpr same, Bool.false_and, Bool.false_or]
    rfl

end Zone

/-- The types at the names after records of one type were added. -/
theorem contains_foldl_add {β : Type} (links : List β) (owner : β → Name) (rtype : RRType) (rd : Zone → β → Rdata)
    (ttl : Int) (other : Name) : ∀ z : Zone,
      ((links.foldl (fun z link => z.add (owner link) rtype (rd z link) ttl) z).node other).contains rtype =
        (links.any (fun link => owner link == other) || (z.node other).contains rtype) := by
  induction links with
  | nil => exact fun z => rfl
  | cons link links ih =>
      intro z
      rw [List.foldl_cons, ih, Zone.contains_add, BEq.rfl, Bool.and_true, List.any_cons, Bool.or_left_comm,
        Bool.or_assoc]

theorem origin_foldl_add {β : Type} (links : List β) (owner : β → Name) (rtype : RRType) (rd : Zone → β → Rdata)
    (ttl : Int) : ∀ z : Zone,
      (links.foldl (fun z link => z.add (owner link) rtype (rd z link) ttl) z).origin = z.origin := by
  induction links with
  | nil => exact fun z => rfl
  | cons link links ih =>
      intro z
      rw [List.foldl_cons, ih]
      rfl

theorem contains_buildNsecChain (z : Zone) (cuts : List Name) (other : Name) :
    ((buildNsecChain z cuts).node other).contains RRType.nsec =
      ((z.chainNames cuts).any (· == other) || (z.node other).contains RRType.nsec) := by
  have owners : ((z.chainNames cuts).zip ((z.chainNames cuts).rotate 1)).map Prod.fst = z.chainNames cuts :=
    List.map_fst_zip (by rw [List.length_rotate])
  have firsts : (z.chainNames cuts).any (· == other) =
      ((z.chainNames cuts).zip ((z.chainNames cuts).rotate 1)).any fun link => link.1 == other := by
    calc (z.chainNames cuts).any (· == other)
      _ = (((z.chainNames cuts).zip ((z.chainNames cuts).rotate 1)).map Prod.fst).any (· == other) := by rw [owners]
      _ = _ := List.any_map
  rw [buildNsecChain, contains_foldl_add, firsts]

theorem origin_buildNsecChain (z : Zone) (cuts : List Name) : (buildNsecChain z cuts).origin = z.origin :=
  origin_foldl_add _ _ _ _ _ _

/-- Before the chain is built no name has an NSEC record. -/
def Zone.Unchained (z : Zone) : Prop := ∀ entry ∈ z.records.entries, entry.2.contains RRType.nsec = false

theorem Zone.Unchained.node {z : Zone} (unchained : z.Unchained) (name : Name) :
    (z.node name).contains RRType.nsec = false := by
  rw [Zone.node]
  cases found : z.records.get? name with
  | none => rfl
  | some node =>
      obtain ⟨entry, held, -, same⟩ := Dict.get?_eq_some.mp found
      rw [← same]
      exact unchained entry held

/-- An entry with an NSEC record is an owner of the chain, and every owner has an entry with one. -/
theorem mem_chain_iff {z : Zone} (unchained : z.Unchained) (cuts : List Name) (key : List Octets) :
    (∃ entry ∈ (buildNsecChain z cuts).records.entries, entry.2.contains RRType.nsec = true ∧
      entry.1.canonKey = key) ↔ key ∈ (z.chainNames cuts).map Name.canonKey := by
  have holds (name : Name) := contains_buildNsecChain z cuts name
  constructor
  · rintro ⟨entry, held, owns, rfl⟩
    have there : (buildNsecChain z cuts).records.get? entry.1 = some entry.2 :=
      Dict.get?_eq_some.mpr ⟨entry, held, BEq.rfl, rfl⟩
    have chained := holds entry.1
    rw [Zone.node, there, Option.getD_some, owns, unchained.node, Bool.or_false] at chained
    obtain ⟨owner, member, same⟩ := List.any_eq_true.mp chained.symm
    exact List.mem_map.mpr ⟨owner, member, Name.beq_iff_canonKey.mp same⟩
  · intro member
    obtain ⟨owner, held, rfl⟩ := List.mem_map.mp member
    have chained := holds owner
    have member : (z.chainNames cuts).any (· == owner) = true := List.any_eq_true.mpr ⟨owner, held, BEq.rfl⟩
    rw [member, Bool.true_or, Zone.node] at chained
    cases found : (buildNsecChain z cuts).records.get? owner with
    | none =>
        rw [found] at chained
        cases chained
    | some node =>
        rw [found, Option.getD_some] at chained
        obtain ⟨entry, inside, same, equal⟩ := Dict.get?_eq_some.mp found
        exact ⟨entry, inside, by rw [equal]; exact chained, Name.beq_iff_canonKey.mp same⟩

/-- The scan of the zone finds the owner of the link that covers a name. -/
theorem nsecPredecessor_covering {z : Zone} (apex : z.records.contains z.origin = true)
    (unchained : z.Unchained) {cuts : List Name} {name : Name} (inside : z.inBailiwick name = true)
    {link : Name × Name} (held : link ∈ z.nsecLinks cuts) (gap : nsecCovers link.1 link.2 name = true) :
    ((buildNsecChain z cuts).nsecPredecessor name == link.1) = true := by
  have sorted := z.chainNames_sorted cuts
  have joined : CyclicChain.Link _ link.1.canonKey link.2.canonKey :=
    CyclicChain.ring_link sorted (Zone.mem_nsecLinks held)
  have covers := nsecCovers_iff.mp gap
  have least := Zone.apex_mem_chain apex cuts
  have bound : z.origin.canonKey ≤ name.canonKey :=
    PathOrder.le_of_extends (Name.isSubdomainOf_iff_canonKey.mp inside)
  have absent := joined.not_mem_of_covers covers
  have start := joined.low_lt_of_covers covers least bound
  obtain ⟨found, lower, upper⟩ := foldl_latest (nsecBefore name) (buildNsecChain z cuts).records.entries
    (buildNsecChain z cuts).origin
  rw [← nsecPredecessor_eq] at found lower upper
  refine Name.beq_iff_canonKey.mpr (le_antisymm ?_ ?_)
  · rcases found with same | ⟨entry, there, good, same⟩
    · rw [same, origin_buildNsecChain]
      exact joined.le_low_of_lt covers least (lt_of_le_of_ne bound fun equal => absent (equal ▸ least))
    · rw [nsecBefore, Bool.and_eq_true, nameLt_iff] at good
      rw [← same]
      exact joined.le_low_of_lt covers ((mem_chain_iff unchained cuts _).mp ⟨entry, there, good.1, rfl⟩) good.2
  · obtain ⟨entry, there, owns, same⟩ := (mem_chain_iff unchained cuts _).mpr joined.low_mem
    have good : nsecBefore name entry = true := by
      rw [nsecBefore, Bool.and_eq_true, nameLt_iff, same]
      exact ⟨owns, start⟩
    rw [← same]
    exact upper entry there good

/-- The root with a name `b` below it; `a` is between the two. -/
def twoNames : Zone := ((Zone.make Name.root).add Name.root RRType.ns (.ns Name.root)).add
  ⟨[⟨[0x62], by decide, by decide⟩]⟩ RRType.txt (.txt [[0x78]])

def absentName : Name := ⟨[⟨[0x61, 0x61], by decide, by decide⟩]⟩

end Trench.AuthZone
