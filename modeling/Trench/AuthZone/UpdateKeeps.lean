import Mathlib
import Trench.AuthZone.Update
import Trench.AuthZone.TransferAgree

set_option autoImplicit false

/- What updates keep of a zone's structure. -/
namespace Trench.AuthZone

open Wire
open Rdata (TextError)

namespace Zone

/-! ### The invariant -/

/-- One SOA, at the apex, servers beside it, no empty set, no record twice, no owner
outside the zone. -/
structure Structured (z : Zone) : Prop extends z.Formed where
  soaOne : (z.slot z.origin RRType.soa).length = 1
  soaOnly : ∀ name, z.slot name RRType.soa ≠ [] → (name == z.origin) = true
  servers : z.slot z.origin RRType.ns ≠ []
  single : ∀ name rtype, (z.slot name rtype).Pairwise fun a b => a.fold ≠ b.fold
  inside : ∀ name, z.records.get? name ≠ none → name.isSubdomainOf z.origin = true

/-- A CNAME that is not alone. -/
def Mixed (z : Zone) (name : Name) : Prop :=
  z.slot name RRType.cname ≠ [] ∧ ∃ rtype, rtype ≠ RRType.cname ∧ z.slot name rtype ≠ []

/-- The structure is kept, and no CNAME gets company. -/
structure Keeps (z w : Zone) : Prop where
  origin : w.origin = z.origin
  signed : w.signed = z.signed
  structured : w.Structured
  alone : ∀ name, w.Mixed name → z.Mixed name

theorem Keeps.refl {z : Zone} (structured : z.Structured) : Keeps z z :=
  ⟨rfl, rfl, structured, fun _ mixed => mixed⟩

theorem Keeps.trans {z m w : Zone} (first : Keeps z m) (second : Keeps m w) : Keeps z w where
  origin := second.origin.trans first.origin
  signed := second.signed.trans first.signed
  structured := second.structured
  alone name mixed := first.alone name (second.alone name mixed)

/-- Neither the tables beside the records nor the journal matter. -/
theorem Structured.congr {z w : Zone} (structured : z.Structured) (origin : w.origin = z.origin)
    (records : w.records = z.records) : w.Structured := by
  have slots (name : Name) (rtype : RRType) : w.slot name rtype = z.slot name rtype := by
    rw [slot, slot, node, node, records]
  obtain ⟨⟨owning, filled, suits⟩, one, only, servers, single, inside⟩ := structured
  refine ⟨⟨?_, ?_, ?_⟩, ?_, ?_, ?_, ?_, ?_⟩
  · rw [records]
    exact owning
  · rw [records]
    exact filled
  · rw [records]
    exact suits
  · rw [origin, slots]
    exact one
  · intro name held
    rw [slots] at held
    rw [origin]
    exact only name held
  · rw [origin, slots]
    exact servers
  · intro name rtype
    rw [slots]
    exact single name rtype
  · rw [records, origin]
    exact inside

theorem Keeps.congr {z w v : Zone} (keeps : Keeps z w) (origin : v.origin = w.origin)
    (records : v.records = w.records) (signed : v.signed = w.signed) : Keeps z v where
  origin := origin.trans keeps.origin
  signed := signed.trans keeps.signed
  structured := keeps.structured.congr origin records
  alone name mixed := by
    apply keeps.alone
    rw [Mixed] at mixed ⊢
    simp only [slot, node, records] at mixed
    exact mixed

/-! ### One node replaced -/

theorem get?_putNode (z : Zone) (name other : Name) (node : Node) :
    (z.putNode name node).records.get? other =
      if (name == other) = true then (if node.entries.isEmpty then none else some node)
      else z.records.get? other := by
  rw [putNode]
  cases node.entries.isEmpty with
  | true => exact Dict.get?_erase z.records name other
  | false => exact Dict.get?_set z.records name other node

theorem slot_putNode (z : Zone) (name other : Name) (node : Node) (rtype : RRType) :
    (z.putNode name node).slot other rtype =
      if (name == other) = true then (node.get? rtype).getD [] else z.slot other rtype := by
  rw [slot, Zone.node, get?_putNode]
  by_cases same : (name == other) = true
  · rw [if_pos same, if_pos same]
    cases empty : node.entries.isEmpty with
    | true =>
        have none : node.get? rtype = none := by
          rw [Dict.get?, List.isEmpty_iff.mp empty]
          rfl
        rw [none]
        rfl
    | false => rfl
  · rw [if_neg same, if_neg same]
    rfl

/-- What a node holds is data of its types. -/
def Fitting (node : Node) : Prop :=
  ∀ rtype rds, node.get? rtype = some rds → rds ≠ [] ∧ ∀ rd ∈ rds, Suits rtype rd

theorem Formed.putNode {z : Zone} (formed : z.Formed) {name : Name} {node : Node}
    (fitting : Fitting node) : (z.putNode name node).Formed := by
  refine ⟨?_, ?_, ?_⟩
  · intro other held found
    rw [get?_putNode] at found
    split at found
    · split at found
      · cases found
      · next some =>
          cases found
          obtain ⟨slot, rest, split⟩ : ∃ slot rest, node.entries = slot :: rest := by
            apply List.exists_cons_of_ne_nil
            intro empty
            exact some (List.isEmpty_iff.mpr empty)
          refine ⟨slot.1, ?_⟩
          rw [Dict.contains, split, List.any_cons, BEq.rfl, Bool.true_or]
    · exact formed.owning other held found
  · intro other held rtype rds found inner
    rw [get?_putNode] at found
    split at found
    · split at found
      · cases found
      · cases found
        exact (fitting rtype rds inner).1
    · exact formed.filled other held rtype rds found inner
  · intro other held rtype rds found inner
    rw [get?_putNode] at found
    split at found
    · split at found
      · cases found
      · cases found
        exact (fitting rtype rds inner).2
    · exact formed.suits other held rtype rds found inner

/-- Every set of the node is part of the other's. -/
def Within (less node : Node) : Prop :=
  ∀ rtype rds, less.get? rtype = some rds → rds ≠ [] ∧ ∃ old, node.get? rtype = some old ∧ rds.Sublist old

/-- Deletions keep the structure where the apex keeps its SOA and a server. -/
theorem Structured.cutBack {z : Zone} (structured : z.Structured) {name : Name} {node less : Node}
    (held : z.records.get? name = some node) (within : Within less node)
    (soa : (name == z.origin) = true → less.get? RRType.soa = node.get? RRType.soa)
    (servers : (name == z.origin) = true → less.get? RRType.ns ≠ none) :
    Keeps z (z.putNode name less) := by
  have known (rtype : RRType) : z.slot name rtype = (node.get? rtype).getD [] := by
    rw [slot, Zone.node, held, Option.getD_some]
  have part (other : Name) (rtype : RRType) :
      ((z.putNode name less).slot other rtype).Sublist (z.slot other rtype) := by
    rw [slot_putNode]
    by_cases same : (name == other) = true
    · rw [if_pos same, ← slot_congr z same, known]
      cases found : less.get? rtype with
      | none => exact List.nil_sublist _
      | some rds =>
          obtain ⟨_, old, there, sub⟩ := within rtype rds found
          rw [there]
          exact sub
    · rw [if_neg same]
  have still {other : Name} {rtype : RRType} (filled : (z.putNode name less).slot other rtype ≠ []) :
      z.slot other rtype ≠ [] := by
    intro empty
    have sub := part other rtype
    rw [empty, List.sublist_nil] at sub
    exact filled sub
  refine ⟨rfl, rfl, ⟨?_, ?_, ?_, ?_, ?_, ?_⟩, ?_⟩
  · apply structured.toFormed.putNode
    intro rtype rds found
    obtain ⟨some, old, there, sub⟩ := within rtype rds found
    exact ⟨some, fun rd inside => structured.suits name node rtype old held there rd (sub.subset inside)⟩
  · change ((z.putNode name less).slot z.origin RRType.soa).length = 1
    rw [slot_putNode]
    by_cases apex : (name == z.origin) = true
    · rw [if_pos apex, soa apex, ← known, slot_congr z apex]
      exact structured.soaOne
    · rw [if_neg apex]
      exact structured.soaOne
  · intro other filled
    exact structured.soaOnly other (still filled)
  · change (z.putNode name less).slot z.origin RRType.ns ≠ []
    rw [slot_putNode]
    by_cases apex : (name == z.origin) = true
    · rw [if_pos apex]
      obtain ⟨rds, found⟩ := Option.ne_none_iff_exists'.mp (servers apex)
      rw [found]
      exact (within RRType.ns rds found).1
    · rw [if_neg apex]
      exact structured.servers
  · intro other rtype
    exact (structured.single other rtype).sublist (part other rtype)
  · intro other present
    rw [get?_putNode] at present
    change other.isSubdomainOf z.origin = true
    apply structured.inside
    by_cases same : (name == other) = true
    · rw [← Dict.get?_congr z.records same, held]
      exact Option.some_ne_none node
    · rw [if_neg same] at present
      exact present
  · rintro other ⟨isAlias, rtype, differ, filled⟩
    exact ⟨still isAlias, rtype, differ, still filled⟩

/-! ### Deletions -/

theorem get?_eraseAll (slots : List (RRType × List Rdata)) (node : Node) (rtype : RRType) :
    (slots.foldl (fun node slot => node.erase slot.1) node).get? rtype =
      if (slots.any fun slot => slot.1 == rtype) = true then none else node.get? rtype := by
  induction slots generalizing node with
  | nil => rfl
  | cons slot rest ih =>
      rw [List.foldl_cons, ih, Dict.get?_erase, List.any_cons]
      by_cases later : (rest.any fun slot => slot.1 == rtype) = true
      · rw [later, if_pos rfl, Bool.or_true, if_pos rfl]
      · rw [if_neg later, Bool.eq_false_iff.mpr later, Bool.or_false]

theorem Structured.deleteName {z : Zone} (structured : z.Structured) (name : Name) :
    Keeps z (z.deleteName name).1 := by
  rw [Zone.deleteName]
  split
  · exact .refl structured
  · next node held =>
      by_cases empty : node.entries.isEmpty = true
      · simp only [empty, ↓reduceIte]
        exact .refl structured
      · simp only [empty]
        have known (rtype : RRType) (found : node.get? rtype = none) : z.slot name rtype = [] := by
          rw [slot, Zone.node, held, Option.getD_some, found]
          rfl
        have spared (rtype : RRType) (guard : z.guarded name rtype = true) :
            ((node.entries.filter fun slot => !z.guarded name slot.1).any
              fun slot => slot.1 == rtype) = false := by
          rw [List.any_eq_false]
          intro slot inside same
          have taken := (List.mem_filter.mp inside).2
          rw [beq_iff_eq.mp same, guard] at taken
          cases taken
        apply structured.cutBack held
        · intro rtype rds found
          rw [get?_eraseAll] at found
          split at found
          · cases found
          · exact ⟨structured.filled name node rtype rds held found, rds, found, List.Sublist.refl _⟩
        · intro apex
          have guard : z.guarded name RRType.soa = true := by
            rw [guarded, apex]
            rfl
          rw [get?_eraseAll, spared RRType.soa guard, if_neg Bool.false_ne_true]
        · intro apex
          have guard : z.guarded name RRType.ns = true := by
            rw [guarded, apex]
            rfl
          rw [get?_eraseAll, spared RRType.ns guard, if_neg Bool.false_ne_true]
          intro none
          apply structured.servers
          rw [← slot_congr z apex]
          exact known RRType.ns none

theorem within_erase {node : Node} {rtype : RRType} (filled : ∀ rt rds, node.get? rt = some rds → rds ≠ []) :
    Within (node.erase rtype) node := by
  intro rt rds found
  rw [Dict.get?_erase] at found
  split at found
  · cases found
  · exact ⟨filled rt rds found, rds, found, List.Sublist.refl _⟩

theorem Structured.deleteSet {z : Zone} (structured : z.Structured) (name : Name) (rtype : RRType) :
    Keeps z (z.deleteSet name rtype).1 := by
  rw [Zone.deleteSet]
  by_cases guard : z.guarded name rtype = true
  · rw [if_pos guard]
    exact .refl structured
  · rw [if_neg guard]
    split
    · exact .refl structured
    · next node held =>
        split
        · exact .refl structured
        · next rds found =>
            have apart (other : RRType) (apex : (name == z.origin) = true)
                (isGuarded : other = RRType.soa ∨ other = RRType.ns) : (rtype == other) = false := by
              rw [Bool.eq_false_iff]
              intro same
              apply guard
              rw [guarded, apex, beq_iff_eq.mp same]
              rcases isGuarded with rfl | rfl <;> rfl
            have kept : Keeps z (z.putNode name (node.erase rtype)) := by
              apply structured.cutBack held
              · exact within_erase fun rt rds there => structured.filled name node rt rds held there
              · intro apex
                rw [Dict.get?_erase, apart RRType.soa apex (.inl rfl), if_neg Bool.false_ne_true]
              · intro apex none
                rw [Dict.get?_erase, apart RRType.ns apex (.inr rfl), if_neg Bool.false_ne_true] at none
                apply structured.servers
                rw [← slot_congr z apex, slot, Zone.node, held, Option.getD_some, none]
                rfl
            exact kept.congr rfl rfl rfl

theorem keepOthers_sublist {text : Except TextError Text} {rds keep : List Rdata}
    (kept : keepOthers text rds = .ok keep) : keep.Sublist rds := by
  induction rds generalizing keep with
  | nil =>
      cases kept
      exact List.Sublist.refl _
  | cons rd rest ih =>
      rw [keepOthers] at kept
      obtain ⟨mine, _, kept⟩ := bind_eq_ok.mp kept
      obtain ⟨other, _, kept⟩ := bind_eq_ok.mp kept
      obtain ⟨more, later, kept⟩ := bind_eq_ok.mp kept
      cases kept
      split
      · exact (ih later).cons_cons rd
      · exact (ih later).cons rd

/-- What is left out has the text. -/
theorem keepOthers_out {text : Except TextError Text} {rds keep : List Rdata} {rd : Rdata}
    (kept : keepOthers text rds = .ok keep) (held : rd ∈ rds) (out : rd ∉ keep) :
    ∃ t, text = .ok t ∧ rd.toText = .ok t := by
  induction rds generalizing keep with
  | nil => cases held
  | cons first rest ih =>
      rw [keepOthers] at kept
      obtain ⟨mine, read, kept⟩ := bind_eq_ok.mp kept
      obtain ⟨other, known, kept⟩ := bind_eq_ok.mp kept
      obtain ⟨more, later, kept⟩ := bind_eq_ok.mp kept
      cases kept
      rcases List.mem_cons.mp held with rfl | inside
      · by_cases differs : (mine != other) = true
        · rw [if_pos differs] at out
          exact absurd List.mem_cons_self out
        · have same : mine = other := by
            by_contra differ
            exact differs (bne_iff_ne.mpr differ)
          exact ⟨other, known, same ▸ read⟩
      · apply ih later inside
        intro present
        apply out
        split
        · exact List.mem_cons_of_mem first present
        · exact present

/-- Of several servers, one at most has the text. -/
theorem Structured.keepOthers_servers {z : Zone} (structured : z.Structured) {text : Except TextError Text}
    {rds keep : List Rdata} {name : Name} (slot : z.slot name RRType.ns = rds) (several : 1 < rds.length)
    (kept : keepOthers text rds = .ok keep) : keep ≠ [] := by
  intro empty
  obtain ⟨a, b, rest, rfl⟩ : ∃ a b rest, rds = a :: b :: rest := by
    match rds with
    | [] => cases several
    | [_] => exact absurd several (by decide : ¬ 1 < 1)
    | a :: b :: rest => exact ⟨a, b, rest, rfl⟩
  have text (rd : Rdata) (held : rd ∈ a :: b :: rest) : ∃ target t, rd = .ns target ∧
      text = .ok t ∧ target.toText = t := by
    have suits : Suits RRType.ns rd := structured.slot_suits (slot ▸ held)
    obtain ⟨target, rfl⟩ := suits.ns
    obtain ⟨t, same, shown⟩ := keepOthers_out kept held (by rw [empty]; exact List.not_mem_nil)
    exact ⟨target, t, rfl, same, Except.ok.inj shown⟩
  obtain ⟨first, t, rfl, given, shown⟩ := text a List.mem_cons_self
  obtain ⟨second, u, rfl, again, also⟩ := text b (List.mem_cons_of_mem _ List.mem_cons_self)
  rw [given] at again
  have equal : first = second := Name.toText_inj (shown.trans ((Except.ok.inj again).trans also.symm))
  have apart := structured.single name RRType.ns
  rw [slot, List.pairwise_cons] at apart
  exact apart.1 _ List.mem_cons_self (by rw [equal])

theorem putNode_set (z : Zone) (name : Name) (node : Node) (rtype : RRType) (rds : List Rdata) :
    z.putNode name (node.set rtype rds) =
      { z with records := z.records.set name (node.set rtype rds) } := by
  have some : (node.set rtype rds).entries.isEmpty = false := by
    rw [Bool.eq_false_iff]
    intro empty
    have found := Dict.get?_set node rtype rtype rds
    rw [if_pos BEq.rfl, Dict.get?, List.isEmpty_iff.mp empty] at found
    cases found
  rw [putNode, some]
  rfl

theorem Structured.deleteRecord {z w : Zone} {rr : RR} {deleted : List RR} (structured : z.Structured)
    (run : z.deleteRecord rr = .ok (w, deleted)) : Keeps z w := by
  rw [Zone.deleteRecord] at run
  by_cases apexSoa : (rr.name == z.origin && rr.rtype == RRType.soa) = true
  · rw [if_pos apexSoa] at run
    cases run
    exact .refl structured
  · rw [if_neg apexSoa] at run
    split at run
    · cases run
      exact .refl structured
    · next node held =>
        by_cases last : (rr.name == z.origin && rr.rtype == RRType.ns &&
            decide (((node.get? RRType.ns).getD []).length ≤ 1)) = true
        · rw [if_pos last] at run
          cases run
          exact .refl structured
        · rw [if_neg last] at run
          split at run
          · cases run
            exact .refl structured
          · next rds found =>
              obtain ⟨keep, kept, rest⟩ := bind_eq_ok.mp run
              have known (rtype : RRType) : z.slot rr.name rtype = (node.get? rtype).getD [] := by
                rw [slot, Zone.node, held, Option.getD_some]
              have notSoa (apex : (rr.name == z.origin) = true) : (rr.rtype == RRType.soa) = false := by
                rw [apex, Bool.true_and] at apexSoa
                exact Bool.eq_false_iff.mpr apexSoa
              -- the apex keeps a server: either another type goes, or there are several
              have serving (apex : (rr.name == z.origin) = true) (isNs : rr.rtype = RRType.ns) :
                  keep ≠ [] := by
                have several : 1 < rds.length := by
                  rw [isNs] at found
                  rw [apex, isNs, BEq.rfl, Bool.true_and, Bool.true_and, found, Option.getD_some,
                    decide_eq_true_eq] at last
                  omega
                have slot : z.slot rr.name RRType.ns = rds := by
                  rw [known, ← isNs, found, Option.getD_some]
                exact structured.keepOthers_servers slot several kept
              have nsHeld (apex : (rr.name == z.origin) = true) : node.get? RRType.ns ≠ none := by
                intro none
                apply structured.servers
                rw [← slot_congr z apex, known, none]
                rfl
              by_cases gone : keep = []
              · simp only [if_pos gone] at rest
                cases rest
                apply structured.cutBack held
                · exact within_erase fun rt rds there => structured.filled _ node rt rds held there
                · intro apex
                  rw [Dict.get?_erase, notSoa apex, if_neg Bool.false_ne_true]
                · intro apex
                  have other : (rr.rtype == RRType.ns) = false :=
                    beq_eq_false_iff_ne.mpr fun isNs => serving apex isNs gone
                  rw [Dict.get?_erase, other, if_neg Bool.false_ne_true]
                  exact nsHeld apex
              · simp only [if_neg gone] at rest
                cases rest
                rw [← putNode_set]
                apply structured.cutBack held
                · intro rt part there
                  rw [Dict.get?_set] at there
                  split at there
                  · next same =>
                      cases there
                      rw [← beq_iff_eq.mp same]
                      exact ⟨gone, rds, found, keepOthers_sublist kept⟩
                  · exact ⟨structured.filled _ node rt part held there, part, there,
                      List.Sublist.refl _⟩
                · intro apex
                  rw [Dict.get?_set, notSoa apex, if_neg Bool.false_ne_true]
                · intro apex
                  rw [Dict.get?_set]
                  split
                  · exact Option.some_ne_none _
                  · exact nsHeld apex

/-! ### Additions -/

/-- The record is there already, as its text goes. -/
def Holds (z : Zone) (rr : RR) : Prop :=
  ∃ rd ∈ z.slot rr.name rr.rtype, rd.toText = rr.rdata.toText

/-- What an added record must not do: bring an SOA, repeat a record in other letters, or
stand beside a CNAME or be one beside others. -/
structure Welcome (z : Zone) (rr : RR) : Prop where
  notSoa : rr.rtype ≠ RRType.soa
  fresh : ∀ rd ∈ z.slot rr.name rr.rtype, rd.fold ≠ rr.rdata.fold
  apart : (if rr.rtype = RRType.cname then ∃ rtype, rtype ≠ RRType.cname ∧ z.slot rr.name rtype ≠ []
    else z.slot rr.name RRType.cname ≠ []) → z.Mixed rr.name

/-- An update record does no harm: it deletes, is there already, or is welcome. -/
def Benign (z : Zone) (rr : RR) : Prop := rr.rclass = RRClass.in → z.Holds rr ∨ z.Welcome rr

theorem allDiffer_holds {text : Except TextError Text} {rds : List Rdata} {rd : Rdata}
    (held : rd ∈ rds) (same : rd.toText = text) {differ : Bool}
    (run : allDiffer text rds = .ok differ) : differ = false := by
  induction rds with
  | nil => cases held
  | cons first rest ih =>
      rw [allDiffer] at run
      obtain ⟨mine, read, later⟩ := bind_eq_ok.mp run
      obtain ⟨other, known, last⟩ := bind_eq_ok.mp later
      rcases List.mem_cons.mp held with first | inside
      · have equal : mine = other := by
          rw [← first, same, known] at read
          exact (Except.ok.inj read).symm
        rw [equal, bne_self_eq_false, if_neg Bool.false_ne_true] at last
        cases last
        rfl
      · split at last
        · exact ih inside last
        · cases last
          rfl

theorem Structured.add {z : Zone} (structured : z.Structured) {rr : RR} (suits : Suits rr.rtype rr.rdata)
    (inside : rr.name.isSubdomainOf z.origin = true) (welcome : z.Welcome rr) :
    Keeps z (z.add rr.name rr.rtype rr.rdata rr.ttl) := by
  have grows (name : Name) (rtype : RRType) := slot_add z rr.name name rr.rtype rtype rr.rdata rr.ttl
  have elsewhere {name : Name} {rtype : RRType} (other : ¬ (rr.name == name && rr.rtype == rtype) = true) :
      (z.add rr.name rr.rtype rr.rdata rr.ttl).slot name rtype = z.slot name rtype := by
    rw [grows, if_neg other, List.append_nil]
  have here {name : Name} {rtype : RRType} (same : (rr.name == name && rr.rtype == rtype) = true) :
      (z.add rr.name rr.rtype rr.rdata rr.ttl).slot name rtype =
        z.slot rr.name rr.rtype ++ [rr.rdata] := by
    rw [grows, if_pos same]
    rw [Bool.and_eq_true] at same
    rw [← slot_congr z same.1, beq_iff_eq.mp same.2]
  have soas (name : Name) : ¬ (rr.name == name && rr.rtype == RRType.soa) = true := by
    rw [beq_eq_false_iff_ne.mpr welcome.notSoa, Bool.and_false]
    exact Bool.false_ne_true
  refine ⟨rfl, rfl, ⟨structured.toFormed.add suits, ?_, ?_, ?_, ?_, ?_⟩, ?_⟩
  · change ((z.add rr.name rr.rtype rr.rdata rr.ttl).slot z.origin RRType.soa).length = 1
    rw [elsewhere (soas z.origin)]
    exact structured.soaOne
  · intro name filled
    rw [elsewhere (soas name)] at filled
    exact structured.soaOnly name filled
  · change (z.add rr.name rr.rtype rr.rdata rr.ttl).slot z.origin RRType.ns ≠ []
    rw [grows]
    exact List.append_ne_nil_of_left_ne_nil structured.servers _
  · intro name rtype
    by_cases same : (rr.name == name && rr.rtype == rtype) = true
    · rw [here same, List.pairwise_append]
      refine ⟨structured.single rr.name rr.rtype, List.pairwise_singleton _ _, ?_⟩
      intro rd held last final
      rw [List.mem_singleton.mp final]
      exact welcome.fresh rd held
    · rw [elsewhere same]
      exact structured.single name rtype
  · intro name present
    change name.isSubdomainOf z.origin = true
    rw [Zone.add] at present
    simp only [Dict.get?_set] at present
    by_cases same : (rr.name == name) = true
    · rw [Name.isSubdomainOf_iff_canonKey, ← Name.beq_iff_canonKey.mp same,
        ← Name.isSubdomainOf_iff_canonKey]
      exact inside
    · rw [if_neg same] at present
      exact structured.inside name present
  · rintro name ⟨isAlias, rtype, differ, filled⟩
    by_cases there : (rr.name == name) = true
    · have moved (mixed : z.Mixed rr.name) : z.Mixed name := by
        rw [Mixed] at mixed ⊢
        simp only [slot_congr z there] at mixed
        exact mixed
      apply moved
      apply welcome.apart
      by_cases isCname : rr.rtype = RRType.cname
      · rw [if_pos isCname]
        refine ⟨rtype, differ, ?_⟩
        have other : ¬ (rr.name == name && rr.rtype == rtype) = true := by
          rw [isCname, beq_eq_false_iff_ne.mpr differ.symm, Bool.and_false]
          exact Bool.false_ne_true
        rw [elsewhere other] at filled
        rw [slot_congr z there]
        exact filled
      · rw [if_neg isCname]
        have other : ¬ (rr.name == name && rr.rtype == RRType.cname) = true := by
          rw [beq_eq_false_iff_ne.mpr isCname, Bool.and_false]
          exact Bool.false_ne_true
        rw [elsewhere other] at isAlias
        rw [slot_congr z there]
        exact isAlias
    · have other (rt : RRType) : ¬ (rr.name == name && rr.rtype == rt) = true := by
        rw [Bool.eq_false_iff.mpr there, Bool.false_and]
        exact Bool.false_ne_true
      rw [elsewhere (other RRType.cname)] at isAlias
      rw [elsewhere (other rtype)] at filled
      exact ⟨isAlias, rtype, differ, filled⟩

theorem Structured.addRecord {z w : Zone} {rr : RR} {added : List RR} (structured : z.Structured)
    (suits : Suits rr.rtype rr.rdata) (inside : rr.name.isSubdomainOf z.origin = true)
    (harmless : z.Holds rr ∨ z.Welcome rr) (run : z.addRecord rr = .ok (w, added)) : Keeps z w := by
  rw [Zone.addRecord] at run
  obtain ⟨differ, asked, rest⟩ := bind_eq_ok.mp run
  by_cases isNew : differ = true
  · rw [if_pos isNew] at rest
    cases rest
    rcases harmless with ⟨rd, held, same⟩ | welcome
    · have known := allDiffer_holds held same asked
      rw [isNew] at known
      cases known
    · exact structured.add suits inside welcome
  · rw [if_neg isNew] at rest
    cases rest
    exact .refl structured

end Zone

/-! ### The loop -/

/-- The rest of the loop meets only harmless records. -/
def Updating.Benign : Updating → List RR → Prop
  | _, [] => True
  | u, rr :: rest => u.zone.Benign rr ∧ ∀ next, u.applyOne rr = .ok next → next.Benign rest

theorem Updating.applyOne_keeps {u next : Updating} {rr : RR} (structured : u.zone.Structured)
    (suits : Suits rr.rtype rr.rdata) (inside : rr.name.isSubdomainOf u.zone.origin = true)
    (known : rr.rclass = RRClass.in ∨ rr.rclass = RRClass.any ∨ rr.rclass = RRClass.none)
    (benign : u.zone.Benign rr) (run : u.applyOne rr = .ok next) : Zone.Keeps u.zone next.zone := by
  rw [applyOne] at run
  by_cases isAny : rr.rclass = RRClass.any
  · rw [if_pos isAny] at run
    by_cases whole : rr.rtype = RRType.any
    · simp only [if_pos whole] at run
      cases run
      exact structured.deleteName rr.name
    · simp only [if_neg whole] at run
      cases run
      exact structured.deleteSet rr.name rr.rtype
  · rw [if_neg isAny] at run
    by_cases isNone : rr.rclass = RRClass.none
    · rw [if_pos isNone] at run
      obtain ⟨⟨z, deleted⟩, done, rest⟩ := bind_eq_ok.mp run
      cases rest
      exact structured.deleteRecord done
    · rw [if_neg isNone] at run
      obtain ⟨⟨z, added⟩, done, rest⟩ := bind_eq_ok.mp run
      cases rest
      have isIn : rr.rclass = RRClass.in := by
        rcases known with isIn | other | other
        · exact isIn
        · exact absurd other isAny
        · exact absurd other isNone
      exact structured.addRecord suits inside (benign isIn) done

theorem Updating.applyAll_keeps {u : Updating} {rrs : List RR} (structured : u.zone.Structured)
    (each : ∀ rr ∈ rrs, Suits rr.rtype rr.rdata ∧ rr.name.isSubdomainOf u.zone.origin = true ∧
      (rr.rclass = RRClass.in ∨ rr.rclass = RRClass.any ∨ rr.rclass = RRClass.none))
    (benign : u.Benign rrs) : Zone.Keeps u.zone (u.applyAll rrs).1.zone := by
  induction rrs generalizing u with
  | nil => exact .refl structured
  | cons rr rest ih =>
      obtain ⟨harmless, later⟩ := benign
      rw [applyAll]
      cases run : u.applyOne rr with
      | error e => exact .refl structured
      | ok next =>
          obtain ⟨suits, inside, known⟩ := each rr List.mem_cons_self
          have first := u.applyOne_keeps structured suits inside known harmless run
          refine first.trans (ih first.structured ?_ (later next run))
          intro other held
          rw [first.origin]
          exact each other (List.mem_cons_of_mem rr held)

namespace Zone

/-- The serial of the apex SOA is no part of the structure. -/
theorem Structured.setSerial {z : Zone} (structured : z.Structured) (serial : Int) :
    Keeps z (z.setSerial serial) := by
  rw [Zone.setSerial]
  split
  · next data rest held =>
      have alone : rest = [] := by
        have one := structured.soaOne
        rw [held, List.length_cons] at one
        exact List.length_eq_zero_iff.mp (by omega)
      obtain ⟨node, there, found⟩ : ∃ node, z.records.get? z.origin = some node ∧
          node.get? RRType.soa = some [.soa data] := by
        have filled : z.slot z.origin RRType.soa ≠ [] := by
          rw [held]
          exact List.cons_ne_nil _ _
        refine ⟨z.node z.origin, get?_of_slot filled, ?_⟩
        rw [structured.toFormed.get?_node, if_neg filled, held, alone]
      have same : z.node z.origin = node := by rw [Zone.node, there, Option.getD_some]
      let less := node.set RRType.soa [.soa { data with serial }]
      have put : z.putNode z.origin less =
          { z with records := z.records.set z.origin less } := putNode_set z z.origin node _ _
      simp only [alone, same]
      rw [← put]
      have part (other : Name) (rtype : RRType) (differ : rtype ≠ RRType.soa) :
          (z.putNode z.origin less).slot other rtype = z.slot other rtype := by
        rw [slot_putNode]
        by_cases apex : (z.origin == other) = true
        · rw [if_pos apex, Dict.get?_set, beq_eq_false_iff_ne.mpr differ.symm,
            if_neg Bool.false_ne_true, ← slot_congr z apex, slot, same]
        · rw [if_neg apex]
      have apexSoa (other : Name) (apex : (z.origin == other) = true) :
          (z.putNode z.origin less).slot other RRType.soa = [.soa { data with serial }] := by
        rw [slot_putNode, if_pos apex, Dict.get?_set, if_pos BEq.rfl]
        rfl
      have noSoa (other : Name) (apart : ¬ (z.origin == other) = true) :
          (z.putNode z.origin less).slot other RRType.soa = [] := by
        rw [slot_putNode, if_neg apart]
        by_contra filled
        exact apart (BEq.symm (structured.soaOnly other filled))
      refine ⟨rfl, rfl, ⟨?_, ?_, ?_, ?_, ?_, ?_⟩, ?_⟩
      · apply structured.toFormed.putNode
        intro rtype rds inner
        rw [Dict.get?_set] at inner
        split at inner
        · next isSoa =>
            cases inner
            refine ⟨List.cons_ne_nil _ _, fun rd inside => ?_⟩
            rw [List.mem_singleton.mp inside, ← beq_iff_eq.mp isSoa]
            exact fun _ => ⟨True.intro, rfl⟩
        · exact ⟨structured.filled _ node rtype rds there inner,
            structured.suits _ node rtype rds there inner⟩
      · change ((z.putNode z.origin less).slot z.origin RRType.soa).length = 1
        rw [apexSoa z.origin BEq.rfl]
        rfl
      · intro other filled
        by_contra apart
        exact filled (noSoa other fun apex => apart (BEq.symm apex))
      · change (z.putNode z.origin less).slot z.origin RRType.ns ≠ []
        rw [part z.origin RRType.ns (by decide)]
        exact structured.servers
      · intro other rtype
        by_cases isSoa : rtype = RRType.soa
        · rw [isSoa]
          by_cases apex : (z.origin == other) = true
          · rw [apexSoa other apex]
            exact List.pairwise_singleton _ _
          · rw [noSoa other apex]
            exact List.Pairwise.nil
        · rw [part other rtype isSoa]
          exact structured.single other rtype
      · intro other present
        rw [get?_putNode] at present
        change other.isSubdomainOf z.origin = true
        apply structured.inside
        by_cases apex : (z.origin == other) = true
        · rw [← Dict.get?_congr z.records apex, there]
          exact Option.some_ne_none node
        · rw [if_neg apex] at present
          exact present
      · rintro other ⟨isAlias, rtype, differ, filled⟩
        rw [part other RRType.cname (by decide)] at isAlias
        refine ⟨isAlias, ?_⟩
        by_cases isSoa : rtype = RRType.soa
        · subst isSoa
          refine ⟨RRType.soa, differ, ?_⟩
          by_cases apex : (z.origin == other) = true
          · rw [← slot_congr z apex, held]
            exact List.cons_ne_nil _ _
          · exact absurd (noSoa other apex) filled
        · rw [part other rtype isSoa] at filled
          exact ⟨rtype, differ, filled⟩
  · exact .refl structured

theorem bump_keeps {u : Updating} (structured : u.zone.Structured) : Keeps u.zone (bump u) := by
  rw [bump]
  split
  · exact .refl structured
  · exact (structured.setSerial _).congr rfl rfl rfl

/-! ### Whole updates -/

/-- What the checks let through. -/
theorem refusal_none {z : Zone} {msg : Message} (passed : z.refusal msg {} = .ok none) :
    ∀ rr ∈ msg.authority, rr.name.isSubdomainOf z.origin = true ∧
      (rr.rclass = RRClass.in ∨ rr.rclass = RRClass.any ∨ rr.rclass = RRClass.none) := by
  rw [refusal] at passed
  cases asked : msg.question with
  | none =>
      rw [asked] at passed
      cases passed
  | some q =>
      rw [asked] at passed
      simp only at passed
      by_cases isSoa : q.rtype ≠ RRType.soa
      · rw [if_pos isSoa] at passed
        cases passed
      · rw [if_neg isSoa] at passed
        by_cases away : (!(z.origin == q.name)) = true
        · rw [if_pos away] at passed
          cases passed
        · rw [if_neg away] at passed
          obtain ⟨rcode, _, passed⟩ := bind_eq_ok.mp passed
          by_cases unmet : rcode ≠ noError
          · rw [if_pos unmet] at passed
            cases passed
          · rw [if_neg unmet] at passed
            split at passed
            · next denied =>
                rw [Except.ok.inj passed] at denied
                cases denied
            · next allowed =>
                split at passed
                · cases passed
                · next classes =>
                    intro rr held
                    constructor
                    · by_contra outside
                      rw [Option.not_isSome_iff_eq_none, List.findSome?_eq_none_iff] at allowed
                      have here := allowed rr held
                      rw [Bool.not_eq_true] at outside
                      rw [outside, Bool.not_false, if_pos rfl] at here
                      cases here
                    · rw [List.any_eq_true] at classes
                      by_contra foreign
                      rw [not_or, not_or] at foreign
                      refine classes ⟨rr, held, ?_⟩
                      rw [beq_eq_false_iff_ne.mpr foreign.1, beq_eq_false_iff_ne.mpr foreign.2.1,
                        beq_eq_false_iff_ne.mpr foreign.2.2]
                      rfl

/-- Data that was parsed suits its type. -/
theorem suits_of_parsed {rr : RR} (parsed : rr.Parsed) : Suits rr.rtype rr.rdata := by
  intro followed
  rcases parsed.data with ⟨typed, _, same⟩ | ⟨octets, _, _, inert⟩
  · exact ⟨typed, same⟩
  · simp only [List.mem_cons, List.not_mem_nil, or_false] at followed
    rcases inert with unregistered | unnamed
    · rcases followed with isNs | isCname | isSoa
      · rw [isNs] at unregistered
        cases unregistered
      · rw [isCname] at unregistered
        cases unregistered
      · rw [isSoa] at unregistered
        cases unregistered
    · refine absurd ?_ unnamed
      rcases followed with isNs | isCname | isSoa
      · rw [isNs]
        decide
      · rw [isCname]
        decide
      · rw [isSoa]
        decide

section

variable (crypto : Crypto) (now : Int)

/-- The records that an update really applies are harmless. -/
def BenignUpdate (z : Zone) (msg : Message) : Prop :=
  z.refusal msg {} = .ok none → (⟨z, [], []⟩ : Updating).Benign msg.authority

theorem applyUpdate_keeps {z : Zone} (structured : z.Structured) (unsigned : z.signed = false)
    {msg : Message} (parsed : ∃ bytes, Message.parse bytes = .ok msg) (benign : z.BenignUpdate msg) :
    Keeps z (z.applyUpdate crypto now msg).1 := by
  rw [applyUpdate]
  cases refused : z.refusal msg {} with
  | error e => exact .refl structured
  | ok answer =>
      cases answer with
      | some rcode => exact .refl structured
      | none =>
          obtain ⟨bytes, read⟩ := parsed
          have records := (Message.parsed_of_parse read).2
          have fitting : ∀ rr ∈ msg.authority, Suits rr.rtype rr.rdata ∧
              rr.name.isSubdomainOf z.origin = true ∧
                (rr.rclass = RRClass.in ∨ rr.rclass = RRClass.any ∨ rr.rclass = RRClass.none) := by
            intro rr held
            obtain ⟨inside, known⟩ := refusal_none refused rr held
            refine ⟨suits_of_parsed (records rr ?_), inside, known⟩
            exact List.mem_append_left _ (List.mem_append_right _ held)
          have loop := Updating.applyAll_keeps (u := ⟨z, [], []⟩) structured fitting (benign refused)
          simp only
          cases run : (⟨z, [], []⟩ : Updating).applyAll msg.authority with
          | mk u raised =>
              rw [run] at loop
              cases raised with
              | some e => exact loop
              | none =>
                  simp only
                  split
                  · exact loop
                  · have bumped := bump_keeps loop.structured
                    have still : (bump u).signed = false :=
                      bumped.signed.trans (loop.signed.trans unsigned)
                    rw [still, if_neg Bool.false_ne_true]
                    exact loop.trans bumped

/-- The zones that a series of updates goes through. -/
def updatesFrom : Zone → List Message → List Zone
  | z, [] => [z]
  | z, msg :: rest => z :: updatesFrom (z.applyUpdate crypto now msg).1 rest

/-- Every update of the series is harmless to the zone it meets. -/
def BenignUpdates : Zone → List Message → Prop
  | _, [] => True
  | z, msg :: rest => z.BenignUpdate msg ∧ BenignUpdates (z.applyUpdate crypto now msg).1 rest

/-- Whatever harmless updates an unsigned zone goes through, its structure is kept. -/
theorem updates_keep_structure {z : Zone} (structured : z.Structured) (unsigned : z.signed = false)
    {msgs : List Message} (parsed : ∀ msg ∈ msgs, ∃ bytes, Message.parse bytes = .ok msg)
    (benign : BenignUpdates crypto now z msgs) :
    ∀ w ∈ updatesFrom crypto now z msgs, w.Structured ∧ ∀ name, w.Mixed name → z.Mixed name := by
  induction msgs generalizing z with
  | nil =>
      intro w held
      rw [List.mem_singleton.mp held]
      exact ⟨structured, fun name mixed => mixed⟩
  | cons msg rest ih =>
      obtain ⟨harmless, later⟩ := benign
      have step := applyUpdate_keeps crypto now structured unsigned
        (parsed msg List.mem_cons_self) harmless
      intro w held
      rcases List.mem_cons.mp held with rfl | further
      · exact ⟨structured, fun name mixed => mixed⟩
      · obtain ⟨sound, alone⟩ := ih step.structured (step.signed.trans unsigned)
          (fun other inside => parsed other (List.mem_cons_of_mem msg inside)) later w further
        exact ⟨sound, fun name mixed => step.alone name (alone name mixed)⟩

end

end Zone

/-! ### Two updates of a small zone -/

/-- One SOA and one server. -/
def servedZone : Zone := soaZone.add apexName RRType.ns (.ns (under [0x6E, 0x73]))

theorem servedZone_slot (name : Name) (rtype : RRType) : servedZone.slot name rtype =
    (if (apexName == name && RRType.soa == rtype) = true then [.soa apexSoa] else []) ++
      if (apexName == name && RRType.ns == rtype) = true then [.ns (under [0x6E, 0x73])] else [] := by
  rw [servedZone, Zone.slot_add, soaZone, Zone.slot_add, Zone.slot_make, List.nil_append]

theorem servedZone_apex {name : Name} {rtype : RRType} (filled : servedZone.slot name rtype ≠ []) :
    (apexName == name) = true ∧ (rtype = RRType.soa ∨ rtype = RRType.ns) := by
  rw [servedZone_slot] at filled
  by_cases first : (apexName == name && RRType.soa == rtype) = true
  · rw [Bool.and_eq_true] at first
    exact ⟨first.1, .inl (beq_iff_eq.mp first.2).symm⟩
  · rw [if_neg first, List.nil_append] at filled
    by_cases second : (apexName == name && RRType.ns == rtype) = true
    · rw [Bool.and_eq_true] at second
      exact ⟨second.1, .inr (beq_iff_eq.mp second.2).symm⟩
    · rw [if_neg second] at filled
      exact absurd rfl filled

theorem servedZone_structured : servedZone.Structured := by
  have suits : Suits RRType.ns (.ns (under [0x6E, 0x73])) := by decide
  have formed : servedZone.Formed := soaZone_bare.formed.add suits
  refine ⟨formed, ?_, ?_, ?_, ?_, ?_⟩
  · decide +kernel
  · intro name filled
    exact BEq.symm (servedZone_apex filled).1
  · decide +kernel
  · intro name rtype
    rw [servedZone_slot]
    by_cases isSoa : (RRType.soa == rtype) = true
    · have other : (RRType.ns == rtype) = false := by
        rw [← beq_iff_eq.mp isSoa]
        decide
      rw [other, Bool.and_false, if_neg Bool.false_ne_true, List.append_nil]
      split
      · exact List.pairwise_singleton _ _
      · exact List.Pairwise.nil
    · rw [Bool.eq_false_iff.mpr isSoa, Bool.and_false, if_neg Bool.false_ne_true, List.nil_append]
      split
      · exact List.pairwise_singleton _ _
      · exact List.Pairwise.nil
  · intro name present
    obtain ⟨rtype, filled⟩ := (formed.owner_iff name).mp present
    have apex := (servedZone_apex filled).1
    rw [Name.isSubdomainOf_iff_canonKey, ← Name.beq_iff_canonKey.mp apex]
    exact List.prefix_refl _

/-- The header and the question of an update of the zone, for one record. -/
def updateFront : Octets :=
  [0, 0, 0x28, 0, 0, 1, 0, 0, 0, 1, 0, 0, 7, 0x65, 0x78, 0x61, 0x6D, 0x70, 0x6C, 0x65, 0, 0, 6, 0, 1]

def addAddress : Message where
  flags := 0x2800
  questions := [⟨apexName, RRType.soa, RRClass.in⟩]
  authority := [⟨under [0x77], RRType.a, RRClass.in, 60, .a "192.0.2.1".toList⟩]

theorem parse_addAddress : Message.parse (updateFront ++
    [1, 0x77, 0xC0, 12, 0, 1, 0, 1, 0, 0, 0, 60, 0, 4, 192, 0, 2, 1]) = .ok addAddress := by
  decide +kernel

theorem updates_keep_structure_addAddress :
    (Zone.updatesFrom plainCrypto 0 servedZone [addAddress]).length = 2 ∧
      ∀ w ∈ Zone.updatesFrom plainCrypto 0 servedZone [addAddress],
        w.Structured ∧ ∀ name, w.Mixed name → servedZone.Mixed name := by
  refine ⟨rfl, ?_⟩
  apply Zone.updates_keep_structure plainCrypto 0 servedZone_structured rfl
  · intro msg held
    rw [List.mem_singleton.mp held]
    exact ⟨_, parse_addAddress⟩
  · refine ⟨fun _ => ⟨fun _ => .inr ⟨by decide, ?_, ?_⟩, fun _ _ => True.intro⟩, True.intro⟩
    · intro rd held
      have none : servedZone.slot (under [0x77]) RRType.a = [] := by decide +kernel
      have inside : rd ∈ servedZone.slot (under [0x77]) RRType.a := held
      rw [none] at inside
      cases inside
    · intro beside
      have none : servedZone.slot (under [0x77]) RRType.cname = [] := by decide +kernel
      exact absurd none beside

/-- An SOA with another serial. -/
def addSoa : Message where
  flags := 0x2800
  questions := [⟨apexName, RRType.soa, RRClass.in⟩]
  authority := [⟨apexName, RRType.soa, RRClass.in, 60, .soa ⟨Name.root, Name.root, 5, 0, 0, 0, 0⟩⟩]

theorem parse_addSoa : Message.parse (updateFront ++
    [0xC0, 12, 0, 6, 0, 1, 0, 0, 0, 60, 0, 22, 0, 0, 0, 0, 0, 5, 0, 0, 0, 0, 0, 0, 0, 0, 0, 0, 0, 0,
      0, 0, 0, 0]) = .ok addSoa := by
  decide +kernel

/-- The SOA is stored beside the one that is there. -/
theorem addSoa_breaks_structure : servedZone.Structured ∧ servedZone.signed = false ∧
    (∃ bytes, Message.parse bytes = .ok addSoa) ∧
      ¬ ∀ w ∈ Zone.updatesFrom plainCrypto 0 servedZone [addSoa], w.Structured := by
  refine ⟨servedZone_structured, rfl, ⟨_, parse_addSoa⟩, ?_⟩
  intro each
  have last := each (servedZone.applyUpdate plainCrypto 0 addSoa).1
    (List.mem_cons_of_mem _ List.mem_cons_self)
  have two : ((servedZone.applyUpdate plainCrypto 0 addSoa).1.slot
      (servedZone.applyUpdate plainCrypto 0 addSoa).1.origin RRType.soa).length = 2 := by
    decide +kernel
  rw [last.soaOne] at two
  cases two

end Trench.AuthZone
