import Mathlib
import Trench.AuthZone.ZoneNames

set_option autoImplicit false

/- Zones that hold the same records, however their tables are ordered, answer alike. -/
namespace Trench.AuthZone

open Wire
open Dnssec (wildcardOf lastLabels nameLt nameLt_iff nsec3B32 nsec3Hash)

/-! ### Answers that are alike -/

/-- Records that are equal as the program compares them: names up to letter case. -/
structure RRAlike (a b : RR) : Prop where
  name : (a.name == b.name) = true
  rtype : a.rtype = b.rtype
  rclass : a.rclass = b.rclass
  ttl : a.ttl = b.ttl
  rdata : a.rdata = b.rdata

theorem RRAlike.refl (a : RR) : RRAlike a a := ⟨BEq.rfl, rfl, rfl, rfl, rfl⟩

abbrev RRsAlike (a b : List RR) : Prop := List.Forall₂ RRAlike a b

theorem rrsAlike_refl (a : List RR) : RRsAlike a a := List.forall₂_same.mpr fun rr _ => .refl rr

structure Answer.Alike (a b : Answer) : Prop where
  rcode : a.rcode = b.rcode
  aa : a.aa = b.aa
  answers : RRsAlike a.answers b.answers
  authority : RRsAlike a.authority b.authority
  additional : RRsAlike a.additional b.additional

theorem Answer.Alike.refl (a : Answer) : a.Alike a :=
  ⟨rfl, rfl, rrsAlike_refl _, rrsAlike_refl _, rrsAlike_refl _⟩

/-- Both raise the same, or both return values that are alike. -/
def ResultsAlike {α : Type} (alike : α → α → Prop) (a b : Except LookupError α) : Prop :=
  (∃ e, a = .error e ∧ b = .error e) ∨ ∃ x y, a = .ok x ∧ b = .ok y ∧ alike x y

theorem ResultsAlike.of_eq {α : Type} {alike : α → α → Prop} (refl : ∀ x, alike x x)
    {a b : Except LookupError α} (same : a = b) : ResultsAlike alike a b := by
  subst same
  cases a with
  | error e => exact .inl ⟨e, rfl, rfl⟩
  | ok x => exact .inr ⟨x, x, rfl, rfl, refl x⟩

theorem ResultsAlike.bind {α β : Type} {alike : α → α → Prop} {also : β → β → Prop}
    {a b : Except LookupError α} {f g : α → Except LookupError β} (first : ResultsAlike alike a b)
    (next : ∀ x y, alike x y → ResultsAlike also (f x) (g y)) :
    ResultsAlike also (a >>= f) (b >>= g) := by
  rcases first with ⟨e, rfl, rfl⟩ | ⟨x, y, rfl, rfl, both⟩
  · exact .inl ⟨e, rfl, rfl⟩
  · exact next x y both

namespace Zone

theorem Formed.slot_ne_nil {z : Zone} (formed : z.Formed) {name : Name} {node : Node}
    {rtype : RRType} {rds : List Rdata} (held : z.records.get? name = some node)
    (found : node.get? rtype = some rds) : z.slot name rtype ≠ [] := by
  rw [slot, Zone.node, held, Option.getD_some, found, Option.getD_some]
  exact formed.filled name node rtype rds held found

theorem Formed.get?_node {z : Zone} (formed : z.Formed) (name : Name) (rtype : RRType) :
    (z.node name).get? rtype =
      if z.slot name rtype = [] then none else some (z.slot name rtype) := by
  cases held : z.records.get? name with
  | none =>
      rw [slot, node, held]
      rfl
  | some node =>
      have same : z.node name = node := by rw [Zone.node, held, Option.getD_some]
      cases found : node.get? rtype with
      | none => rw [slot, same, found, Option.getD_none, if_pos rfl]
      | some rds =>
          rw [if_neg (formed.slot_ne_nil held found), slot, same, found, Option.getD_some]

theorem Formed.contains_node_iff {z : Zone} (formed : z.Formed) {name : Name} {rtype : RRType} :
    (z.node name).contains rtype = true ↔ z.slot name rtype ≠ [] := by
  rw [Dict.contains_iff, formed.get?_node]
  by_cases empty : z.slot name rtype = [] <;> simp [empty]

theorem get?_of_slot {z : Zone} {name : Name} {rtype : RRType} (filled : z.slot name rtype ≠ []) :
    z.records.get? name = some (z.node name) := by
  cases held : z.records.get? name with
  | none =>
      refine absurd ?_ filled
      rw [slot, node, held]
      rfl
  | some node => rw [Zone.node, held, Option.getD_some]

/-- An owner is a name with a record. -/
theorem Formed.owner_iff {z : Zone} (formed : z.Formed) (name : Name) :
    z.records.get? name ≠ none ↔ ∃ rtype, z.slot name rtype ≠ [] := by
  constructor
  · intro present
    obtain ⟨node, held⟩ := Option.ne_none_iff_exists'.mp present
    obtain ⟨rtype, owned⟩ := formed.owning name node held
    obtain ⟨rds, found⟩ := Option.isSome_iff_exists.mp (Dict.contains_iff.mp owned)
    exact ⟨rtype, formed.slot_ne_nil held found⟩
  · intro ⟨rtype, filled⟩
    rw [get?_of_slot filled]
    exact Option.some_ne_none _

def salt (z : Zone) : Octets := (z.signParams.map SignParams.nsec3Salt).getD []

def iterations (z : Zone) : Nat := (z.signParams.map SignParams.nsec3Iterations).getD 0

/-- The records answer the hashed denial. -/
def Hashed (z : Zone) : Prop :=
  z.signed = true ∧ z.slot z.origin RRType.nsec3param ≠ [] ∧ ∃ name, z.slot name RRType.nsec3 ≠ []

/-- Two zones with the same records, and whatever else a lookup reads of them. -/
structure Agree (z w : Zone) : Prop where
  left : z.Formed
  right : w.Formed
  origin : w.origin = z.origin
  slots : ∀ name rtype, w.slot name rtype = z.slot name rtype
  ttls : ∀ name rtype, z.slot name rtype ≠ [] → w.ttlOf name rtype = z.ttlOf name rtype
  sigs : z.signed = true → ∀ name rtype, z.slot name rtype ≠ [] →
    w.rrsigs.get? (name, rtype) = z.rrsigs.get? (name, rtype)
  signed : w.signed = z.signed
  apex : z.slot z.origin RRType.soa ≠ []
  hashing : z.Hashed → w.salt = z.salt ∧ w.iterations = z.iterations

namespace Agree

variable {z w : Zone} (agree : z.Agree w)

include agree

theorem symm : w.Agree z where
  left := agree.right
  right := agree.left
  origin := agree.origin.symm
  slots name rtype := (agree.slots name rtype).symm
  ttls name rtype filled := (agree.ttls name rtype (agree.slots name rtype ▸ filled)).symm
  sigs signed name rtype filled :=
    (agree.sigs (agree.signed ▸ signed) name rtype (agree.slots name rtype ▸ filled)).symm
  signed := agree.signed.symm
  apex := by
    rw [agree.origin, agree.slots]
    exact agree.apex
  hashing hashed := by
    obtain ⟨signed, param, name, filled⟩ := hashed
    rw [agree.origin, agree.slots] at param
    rw [agree.slots] at filled
    obtain ⟨salt, iterations⟩ := agree.hashing ⟨agree.signed ▸ signed, param, name, filled⟩
    exact ⟨salt.symm, iterations.symm⟩

theorem get?_node (name : Name) (rtype : RRType) :
    (w.node name).get? rtype = (z.node name).get? rtype := by
  rw [agree.left.get?_node, agree.right.get?_node, agree.slots]

theorem contains_node (name : Name) (rtype : RRType) :
    (w.node name).contains rtype = (z.node name).contains rtype := by
  rw [Bool.eq_iff_iff, Dict.contains_iff, Dict.contains_iff, agree.get?_node]

/-- What one zone holds at a name the other holds too. -/
theorem held {name : Name} {node : Node} (found : z.records.get? name = some node) :
    ∃ other, w.records.get? name = some other ∧ ∀ rtype, other.get? rtype = node.get? rtype := by
  have same : z.node name = node := by rw [Zone.node, found, Option.getD_some]
  have present : z.records.get? name ≠ none := by
    rw [found]
    exact Option.some_ne_none _
  obtain ⟨rtype, filled⟩ := (agree.left.owner_iff name).mp present
  rw [← agree.slots] at filled
  refine ⟨w.node name, get?_of_slot filled, ?_⟩
  intro rtype
  rw [agree.get?_node, same]

theorem absent {name : Name} (missing : z.records.get? name = none) :
    w.records.get? name = none := by
  by_contra present
  obtain ⟨node, found⟩ := Option.ne_none_iff_exists'.mp present
  obtain ⟨other, there, _⟩ := agree.symm.held found
  rw [missing] at there
  cases there

theorem rrset (name shown : Name) (rtype : RRType) :
    rrset shown rtype (w.ttlOf name rtype) (w.slot name rtype) =
      rrset shown rtype (z.ttlOf name rtype) (z.slot name rtype) := by
  rw [agree.slots]
  by_cases empty : z.slot name rtype = []
  · rw [empty]
    rfl
  · rw [agree.ttls name rtype empty]

/-! ### Delegations -/

theorem isCut (n : Name) : w.isCut n = z.isCut n := by
  rw [Zone.isCut, Zone.isCut, agree.contains_node, agree.contains_node]

theorem cutFrom (qname : Name) (qtype : RRType) (labels : List Label) :
    w.cutFrom qname qtype labels = z.cutFrom qname qtype labels := by
  induction labels with
  | nil => rfl
  | cons label rest ih => rw [cutFrom_cons, cutFrom_cons, agree.origin, agree.isCut, ih]

theorem glue (n : Name) (rd : Rdata) : w.glue n rd = z.glue n rd := by
  rw [Zone.glue, Zone.glue]
  simp only [agree.rrset]

theorem glues (n : Name) (rds : List Rdata) : w.glues n rds = z.glues n rds := by
  induction rds with
  | nil => rfl
  | cons rd rest ih => rw [Zone.glues, Zone.glues, agree.glue, ih]

theorem referral (n : Name) : w.referral n = z.referral n := by
  rw [Zone.referral, Zone.referral, agree.slots n RRType.ns, agree.glues]
  have servers := agree.rrset n n RRType.ns
  rw [agree.slots n RRType.ns] at servers
  rw [servers, agree.rrset]

theorem delegation (qname : Name) (qtype : RRType) :
    w.delegation qname qtype = z.delegation qname qtype := by
  rw [Zone.delegation, Zone.delegation, agree.cutFrom]
  split
  · rfl
  · rw [agree.referral]

/-! ### Signatures -/

theorem attachSig {name : Name} {rtype : RRType} (filled : z.slot name rtype ≠ []) (rrs : List RR)
    (dnssecOk : Bool) (shown : Name) (ttl : Int) :
    w.attachSig rrs name rtype dnssecOk shown ttl = z.attachSig rrs name rtype dnssecOk shown ttl := by
  rw [Zone.attachSig, Zone.attachSig, agree.signed]
  by_cases proving : (dnssecOk && z.signed) = true
  · rw [if_pos proving, if_pos proving]
    rw [Bool.and_eq_true] at proving
    rw [agree.sigs proving.2 name rtype filled]
  · rw [if_neg proving, if_neg proving]

theorem soa : w.soa = z.soa := by
  rw [Zone.soa, Zone.soa, agree.origin, agree.slots]

theorem negativeTtl : w.negativeTtl = z.negativeTtl := by
  rw [Zone.negativeTtl, Zone.negativeTtl, agree.soa, agree.origin, agree.ttls _ _ agree.apex]

theorem soaRr (dnssecOk : Bool) : w.soaRr dnssecOk = z.soaRr dnssecOk := by
  rw [Zone.soaRr, Zone.soaRr, agree.soa, agree.origin, agree.negativeTtl]
  cases z.soa with
  | none => rfl
  | some soa => exact agree.attachSig agree.apex _ _ _ _

end Agree

/-! ### Names that exist -/

theorem nsec3Only_iff {node : Node} : nsec3Only node = true ↔
    node.contains RRType.nsec3 = true ∧
      ∀ t, node.contains t = true → t = RRType.nsec3 ∨ t = RRType.rrsig := by
  rw [nsec3Only, Bool.and_eq_true, List.all_eq_true]
  apply and_congr_right
  intro _
  constructor
  · intro each t held
    obtain ⟨entry, inside, same⟩ := List.any_eq_true.mp held
    have one := each entry inside
    rw [beq_iff_eq.mp same, Bool.or_eq_true, beq_iff_eq, beq_iff_eq] at one
    exact one
  · intro only entry inside
    rw [Bool.or_eq_true, beq_iff_eq, beq_iff_eq]
    exact only entry.1 (List.any_eq_true.mpr ⟨entry, inside, BEq.rfl⟩)

theorem nsec3Only_congr {a b : Node} (same : ∀ t, a.get? t = b.get? t) :
    nsec3Only a = nsec3Only b := by
  rw [Bool.eq_iff_iff, nsec3Only_iff, nsec3Only_iff]
  simp only [Dict.contains_iff, same]

namespace Agree

variable {z w : Zone} (agree : z.Agree w)

include agree

theorem entry {entry : Name × Node} (inside : entry ∈ z.records.entries) :
    ∃ other ∈ w.records.entries, (other.1 == entry.1) = true ∧
      ∀ t, other.2.get? t = entry.2.get? t := by
  have found : z.records.get? entry.1 = some entry.2 :=
    Dict.get?_eq_some.mpr ⟨entry, inside, BEq.rfl, rfl⟩
  obtain ⟨node, there, same⟩ := agree.held found
  obtain ⟨other, held, equal, rfl⟩ := Dict.get?_eq_some.mp there
  exact ⟨other, held, equal, same⟩

theorem reach_le (qname : Name) : z.reach qname ≤ w.reach qname := by
  rcases (le_foldl_max _ _ _ _).mp (Nat.le_refl (z.reach qname)) with base | ⟨entry, kept, shared⟩
  · rw [← agree.origin] at base
    exact base.trans (w.base_le_reach qname)
  · obtain ⟨inside, real⟩ := List.mem_filter.mp kept
    obtain ⟨other, held, equal, same⟩ := agree.entry inside
    refine (le_foldl_max _ _ _ _).mpr (.inr ⟨other, List.mem_filter.mpr ⟨held, ?_⟩, ?_⟩)
    · rw [nsec3Only_congr same]
      exact real
    · have far : w.sharedLabels qname other.1 = z.sharedLabels qname entry.1 := by
        rw [sharedLabels, sharedLabels, agree.origin, Name.beq_iff_canonKey.mp equal]
      rw [far]
      exact shared

theorem closestEncloser (qname : Name) : w.closestEncloser qname = z.closestEncloser qname := by
  rw [closestEncloser_eq, closestEncloser_eq,
    Nat.le_antisymm (agree.symm.reach_le qname) (agree.reach_le qname)]

theorem realNode {name : Name} {node : Node} (found : z.realNode name = some node) :
    ∃ other, w.realNode name = some other ∧ w.records.get? name = some other ∧
      z.records.get? name = some node ∧ ∀ t, other.get? t = node.get? t := by
  obtain ⟨there, shown⟩ := Option.filter_eq_some_iff.mp found
  obtain ⟨other, held, same⟩ := agree.held there
  refine ⟨other, Option.filter_eq_some_iff.mpr ⟨held, ?_⟩, held, there, same⟩
  rw [nsec3Only_congr same]
  exact shown

theorem realNode_none {name : Name} (missing : z.realNode name = none) :
    w.realNode name = none := by
  by_contra present
  obtain ⟨node, found⟩ := Option.ne_none_iff_exists'.mp present
  obtain ⟨other, real, _⟩ := agree.symm.realNode found
  rw [missing] at real
  cases real

/-! ### CNAME chains -/

theorem inBailiwick (name : Name) : w.inBailiwick name = z.inBailiwick name := by
  rw [Zone.inBailiwick, Zone.inBailiwick, agree.origin]

theorem chase (qtype : RRType) (dnssecOk : Bool) (fuel : Nat) (ans : List RR) (seen : List Name)
    (cur shown : Name) (node other : Node) (held : z.records.get? cur = some node)
    (same : ∀ t, other.get? t = node.get? t) :
    w.chase qtype dnssecOk fuel ans seen cur other shown =
      z.chase qtype dnssecOk fuel ans seen cur node shown := by
  induction fuel generalizing ans seen cur shown node other with
  | zero => rfl
  | succ fuel ih =>
      rw [Zone.chase, Zone.chase, same]
      cases found : node.get? RRType.cname with
      | none => rfl
      | some rds =>
          have filled := agree.left.slot_ne_nil held found
          simp only [agree.ttls cur _ filled, agree.attachSig filled, agree.inBailiwick]
          split
          · rfl
          · apply bind_congr
            intro rd
            apply bind_congr
            intro target
            by_cases stop : ((cur :: seen).any (· == target) || !z.inBailiwick target) = true
            · rw [if_pos stop, if_pos stop]
            · rw [if_neg stop, if_neg stop]
              cases there : z.records.get? target with
              | none => rw [agree.absent there]
              | some nxt =>
                  obtain ⟨next, onward, equal⟩ := agree.held there
                  simp only [onward, equal]
                  cases data : nxt.get? qtype with
                  | none =>
                      simp only
                      exact ih _ _ target target nxt next there equal
                  | some rds =>
                      have more := agree.left.slot_ne_nil there data
                      simp only [agree.ttls target qtype more, agree.attachSig more]

end Agree

/-! ### Denial -/

abbrev NamesAlike (a b : Name) : Prop := (a == b) = true

theorem slot_congr (z : Zone) {a b : Name} (same : NamesAlike a b) (rtype : RRType) :
    z.slot a rtype = z.slot b rtype := by
  rw [slot, slot, node, node, Dict.get?_congr z.records same]

/-- The last owner with an NSEC record in canonical order before a name. -/
theorem foldl_latest (good : Name × Node → Bool) (l : List (Name × Node)) (start : Name) :
    let last := l.foldl (fun best entry =>
      if good entry && nameLt best entry.1 then entry.1 else best) start
    (last = start ∨ ∃ entry ∈ l, good entry = true ∧ entry.1 = last) ∧
      start.canonKey ≤ last.canonKey ∧
      ∀ entry ∈ l, good entry = true → entry.1.canonKey ≤ last.canonKey := by
  induction l generalizing start with
  | nil => exact ⟨.inl rfl, le_refl _, fun entry held => by cases held⟩
  | cons first rest ih =>
      simp only [List.foldl_cons]
      by_cases later : (good first && nameLt start first.1) = true
      · rw [if_pos later]
        rw [Bool.and_eq_true, nameLt_iff] at later
        obtain ⟨found, lower, upper⟩ := ih first.1
        refine ⟨.inr ?_, later.2.le.trans lower, ?_⟩
        · rcases found with same | ⟨entry, held, isGood, same⟩
          · exact ⟨first, List.mem_cons_self, later.1, same.symm⟩
          · exact ⟨entry, List.mem_cons_of_mem first held, isGood, same⟩
        · intro entry held isGood
          rcases List.mem_cons.mp held with same | held
          · rw [same]
            exact lower
          · exact upper entry held isGood
      · rw [if_neg later]
        obtain ⟨found, lower, upper⟩ := ih start
        refine ⟨?_, lower, ?_⟩
        · rcases found with same | ⟨entry, held, isGood, same⟩
          · exact .inl same
          · exact .inr ⟨entry, List.mem_cons_of_mem first held, isGood, same⟩
        · intro entry held isGood
          rcases List.mem_cons.mp held with same | held
          · subst same
            rw [isGood, Bool.true_and, nameLt_iff, not_lt] at later
            exact later.trans lower
          · exact upper entry held isGood

/-- The entries `_nsec_predecessor` chooses among. -/
def nsecBefore (name : Name) (entry : Name × Node) : Bool :=
  entry.2.contains RRType.nsec && nameLt entry.1 name

theorem nsecPredecessor_eq (z : Zone) (name : Name) :
    z.nsecPredecessor name = z.records.entries.foldl (fun best entry =>
      if nsecBefore name entry && nameLt best entry.1 then entry.1 else best) z.origin := rfl

namespace Agree

variable {z w : Zone} (agree : z.Agree w)

include agree

theorem nsecPredecessor_le (name : Name) :
    (z.nsecPredecessor name).canonKey ≤ (w.nsecPredecessor name).canonKey := by
  obtain ⟨found, -, -⟩ := foldl_latest (nsecBefore name) z.records.entries z.origin
  obtain ⟨-, lower, upper⟩ := foldl_latest (nsecBefore name) w.records.entries w.origin
  rw [← nsecPredecessor_eq] at found lower upper
  rcases found with same | ⟨entry, held, good, same⟩
  · rw [same, ← agree.origin]
    exact lower
  · obtain ⟨other, there, equal, nodes⟩ := agree.entry held
    have key := Name.beq_iff_canonKey.mp equal
    have again : nsecBefore name other = true := by
      rw [nsecBefore, Bool.and_eq_true, Dict.contains_iff, nameLt_iff] at good ⊢
      rw [nodes, key]
      exact good
    rw [← same, ← key]
    exact upper other there again

theorem nsecPredecessor (name : Name) :
    NamesAlike (w.nsecPredecessor name) (z.nsecPredecessor name) :=
  Name.beq_iff_canonKey.mpr
    (le_antisymm (agree.symm.nsecPredecessor_le name) (agree.nsecPredecessor_le name))

/-- One owner's denial records. -/
theorem denialRecord {a b : Name} (same : NamesAlike a b) {rtype : RRType} {rd : Rdata}
    {rest : List Rdata} (filled : z.slot b rtype = rd :: rest) :
    RRsAlike
      (w.attachSig [⟨a, rtype, RRClass.in, w.negativeTtl, rd⟩] a rtype true a w.negativeTtl)
      (z.attachSig [⟨b, rtype, RRClass.in, z.negativeTtl, rd⟩] b rtype true b z.negativeTtl) := by
  have held : z.slot a rtype ≠ [] := by
    rw [slot_congr z same, filled]
    exact List.cons_ne_nil _ _
  have key : ((a, rtype) == (b, rtype)) = true := setKey_beq_iff.mpr ⟨same, rfl⟩
  rw [agree.attachSig held, agree.negativeTtl, Zone.attachSig, Zone.attachSig]
  by_cases proving : (true && z.signed) = true
  · rw [if_pos proving, if_pos proving, Dict.get?_congr z.rrsigs key]
    cases z.rrsigs.get? (b, rtype) with
    | none => exact .cons ⟨same, rfl, rfl, rfl, rfl⟩ .nil
    | some sig => exact .cons ⟨same, rfl, rfl, rfl, rfl⟩ (.cons ⟨same, rfl, rfl, rfl, rfl⟩ .nil)
  · rw [if_neg proving, if_neg proving]
    exact .cons ⟨same, rfl, rfl, rfl, rfl⟩ .nil

theorem denialRrsFrom (rtype : RRType) {owners others seen past : List Name}
    (names : List.Forall₂ NamesAlike others owners) (known : List.Forall₂ NamesAlike past seen) :
    RRsAlike (w.denialRrsFrom rtype others past) (z.denialRrsFrom rtype owners seen) := by
  induction names generalizing seen past with
  | nil => exact .nil
  | @cons a b others owners same _ ih =>
      have again : past.any (· == a) = seen.any (· == b) := by
        clear ih
        induction known with
        | nil => rfl
        | @cons c d _ _ equal _ inner =>
            have here : (c == a) = (d == b) := by
              rw [Bool.eq_iff_iff]
              constructor
              · intro hit
                exact BEq.trans (BEq.symm equal) (BEq.trans hit same)
              · intro hit
                exact BEq.trans equal (BEq.trans hit (BEq.symm same))
            rw [List.any_cons, List.any_cons, here, inner]
      rw [Zone.denialRrsFrom, Zone.denialRrsFrom, again]
      by_cases repeated : seen.any (· == b) = true
      · rw [if_pos repeated, if_pos repeated]
        exact ih known
      · rw [if_neg repeated, if_neg repeated, agree.slots, slot_congr z same]
        have grown := ih (List.Forall₂.cons same known)
        cases filled : z.slot b rtype with
        | nil => exact grown
        | cons rd rest => exact List.rel_append (agree.denialRecord same filled) grown

theorem denialRrs (rtype : RRType) {owners others : List Name}
    (names : List.Forall₂ NamesAlike others owners) :
    RRsAlike (w.denialRrs others rtype) (z.denialRrs owners rtype) :=
  agree.denialRrsFrom rtype names .nil

end Agree

/-! ### Hashed denial -/

/-- Entries of a chain: one hash, and owners that are the same name. -/
structure LinksAlike (a b : Text × Name) : Prop where
  hash : a.1 = b.1
  owner : NamesAlike a.2 b.2

theorem mem_nsec3Owners {z : Zone} {owner : Name} : owner ∈ z.nsec3Owners ↔
    (∃ entry ∈ z.records.entries, entry.2.contains RRType.nsec3 = true ∧ entry.1 = owner) ∧
      owner.labels.isEmpty = false := by
  rw [nsec3Owners, List.mem_filter, List.mem_map]
  simp only [List.mem_filter, Bool.not_eq_true', and_assoc]

theorem nsec3Owners_distinct (z : Zone) :
    z.nsec3Owners.Pairwise fun a b => (a == b) = false :=
  ((z.records.distinct.filter _).map Prod.fst fun _ _ apart => apart).filter _

/-- The first label of a name, lowercased. -/
theorem ownerHash_eq (owner : Name) :
    ownerHash owner = (owner.lower.head?.map fun label =>
      label.octets.map fun c => Char.ofNat c.toNat).getD [] := by
  obtain ⟨labels⟩ := owner
  cases labels with
  | nil => rfl
  | cons label rest =>
      simp only [ownerHash, Name.lower, List.map_cons, List.head?_cons, Option.map_some,
        Option.getD_some, Label.lower, List.map_map]
      rfl

theorem lowerOctet_ascii (c : UInt8) : (lowerOctet c < 0x80) ↔ c < 0x80 := by
  rw [lowerOctet]
  split
  · next upper =>
      simp only [UInt8.le_iff_toNat_le, UInt8.lt_iff_toNat_lt, UInt8.toNat_add, UInt8.reduceToNat] at *
      omega
  · rfl

theorem asciiOwner_eq (owner : Name) :
    asciiOwner owner = (owner.lower.head?.map fun label =>
      label.octets.all fun c => decide (c < 0x80)).getD true := by
  obtain ⟨labels⟩ := owner
  cases labels with
  | nil => rfl
  | cons label rest =>
      simp only [asciiOwner, Name.lower, List.map_cons, List.head?_cons, Option.map_some,
        Option.getD_some, Label.lower, List.all_map, Function.comp_def, lowerOctet_ascii]

theorem ownerHash_congr {a b : Name} (same : NamesAlike a b) : ownerHash a = ownerHash b := by
  rw [ownerHash_eq, ownerHash_eq, Name.beq_iff.mp same]

theorem asciiOwner_congr {a b : Name} (same : NamesAlike a b) : asciiOwner a = asciiOwner b := by
  rw [asciiOwner_eq, asciiOwner_eq, Name.beq_iff.mp same]

theorem nodup_hashes_iff (z : Zone) : (z.nsec3Owners.map ownerHash).Nodup ↔
    ∀ a ∈ z.nsec3Owners, ∀ b ∈ z.nsec3Owners, ownerHash a = ownerHash b → NamesAlike a b := by
  constructor
  · intro distinct a left b right same
    rw [List.inj_on_of_nodup_map distinct left right same]
    exact BEq.rfl
  · intro only
    rw [List.Nodup, List.pairwise_map]
    refine z.nsec3Owners_distinct.imp_of_mem ?_
    intro a b left right apart same
    rw [only a left b right same] at apart
    cases apart

/-- The chain of some owners. -/
def chainOf (owners : List Name) : List (Text × Name) :=
  (owners.map fun owner => (ownerHash owner, owner)).insertionSort fun a b => a.1 ≤ b.1

theorem mem_chainOf {owners : List Name} {link : Text × Name} :
    link ∈ chainOf owners ↔ link.2 ∈ owners ∧ link.1 = ownerHash link.2 := by
  rw [chainOf, List.mem_insertionSort, List.mem_map]
  constructor
  · intro ⟨owner, held, same⟩
    subst same
    exact ⟨held, rfl⟩
  · intro ⟨held, same⟩
    exact ⟨link.2, held, by rw [← same]⟩

/-- The hashes of a chain ascend. -/
theorem chainOf_ascends {owners : List Name} (distinct : (owners.map ownerHash).Nodup) :
    ((chainOf owners).map Prod.fst).Pairwise (· < ·) := by
  have total : Std.Total fun a b : Text × Name => a.1 ≤ b.1 := ⟨fun a b => le_total _ _⟩
  have trans : IsTrans (Text × Name) fun a b => a.1 ≤ b.1 := ⟨fun a b c => le_trans⟩
  have sorted : (chainOf owners).Pairwise fun a b => a.1 ≤ b.1 := List.pairwise_insertionSort _ _
  have hashes : ((chainOf owners).map Prod.fst).Nodup := by
    have perm := (List.perm_insertionSort (fun a b : Text × Name => a.1 ≤ b.1)
      (owners.map fun owner => (ownerHash owner, owner))).map Prod.fst
    refine perm.nodup_iff.mpr ?_
    rw [List.map_map]
    exact distinct
  rw [List.Nodup, List.pairwise_map] at hashes
  rw [List.pairwise_map]
  refine (hashes.and sorted).imp ?_
  intro a b ⟨apart, upto⟩
  exact lt_of_le_of_ne upto apart

theorem forall₂_of_map_eq {α β γ : Type} {f : α → γ} {g : β → γ} {related : α → β → Prop}
    {left : List α} {right : List β} (same : left.map f = right.map g)
    (each : ∀ a ∈ left, ∀ b ∈ right, f a = g b → related a b) : List.Forall₂ related left right := by
  induction left generalizing right with
  | nil =>
      rw [List.map_nil, eq_comm, List.map_eq_nil_iff] at same
      rw [same]
      exact .nil
  | cons a left ih =>
      cases right with
      | nil => cases same
      | cons b right =>
          rw [List.map_cons, List.map_cons, List.cons.injEq] at same
          refine .cons (each a List.mem_cons_self b List.mem_cons_self same.1) (ih same.2 ?_)
          intro c inside d within
          exact each c (List.mem_cons_of_mem a inside) d (List.mem_cons_of_mem b within)

namespace Agree

variable {z w : Zone} (agree : z.Agree w)

include agree

theorem owner {owner : Name} (held : owner ∈ z.nsec3Owners) :
    ∃ other ∈ w.nsec3Owners, NamesAlike other owner := by
  obtain ⟨⟨entry, inside, hashed, rfl⟩, labelled⟩ := mem_nsec3Owners.mp held
  obtain ⟨other, there, same, nodes⟩ := agree.entry inside
  refine ⟨other.1, mem_nsec3Owners.mpr ⟨⟨other, there, ?_, rfl⟩, ?_⟩, same⟩
  · rw [Dict.contains_iff, nodes, ← Dict.contains_iff]
    exact hashed
  · have lengths := congrArg List.length (Name.beq_iff.mp same)
    rw [Name.lower, Name.lower, List.length_map, List.length_map] at lengths
    rw [List.isEmpty_eq_false_iff_exists_mem] at labelled ⊢
    rw [← List.length_pos_iff_exists_mem] at labelled ⊢
    omega

theorem allAscii (ascii : w.nsec3Owners.all asciiOwner = true) :
    z.nsec3Owners.all asciiOwner = true := by
  rw [List.all_eq_true] at ascii ⊢
  intro owner held
  obtain ⟨other, there, same⟩ := agree.owner held
  rw [← asciiOwner_congr same]
  exact ascii other there

theorem nodupHashes (distinct : (w.nsec3Owners.map ownerHash).Nodup) :
    (z.nsec3Owners.map ownerHash).Nodup := by
  rw [nodup_hashes_iff] at distinct ⊢
  intro a left b right hashes
  obtain ⟨c, inner, first⟩ := agree.owner left
  obtain ⟨d, within, second⟩ := agree.owner right
  have same := distinct c inner d within (by rw [ownerHash_congr first, ownerHash_congr second, hashes])
  exact BEq.trans (BEq.symm first) (BEq.trans same second)

theorem chainOf (distinct : (z.nsec3Owners.map ownerHash).Nodup) :
    List.Forall₂ LinksAlike (Zone.chainOf w.nsec3Owners) (Zone.chainOf z.nsec3Owners) := by
  have hashes {z w : Zone} (agree : z.Agree w) (hash : Text) :
      hash ∈ (Zone.chainOf z.nsec3Owners).map Prod.fst →
        hash ∈ (Zone.chainOf w.nsec3Owners).map Prod.fst := by
    intro held
    obtain ⟨link, inside, same⟩ := List.mem_map.mp held
    obtain ⟨owned, hashed⟩ := mem_chainOf.mp inside
    obtain ⟨other, there, equal⟩ := agree.owner owned
    refine List.mem_map.mpr ⟨(ownerHash other, other), mem_chainOf.mpr ⟨there, rfl⟩, ?_⟩
    rw [ownerHash_congr equal, ← hashed, same]
  have texts := (chainOf_ascends (agree.symm.nodupHashes distinct)).eq_of_mem_iff
    (chainOf_ascends distinct) fun hash => ⟨hashes agree.symm hash, hashes agree hash⟩
  apply forall₂_of_map_eq texts
  intro a left b right same
  obtain ⟨inner, first⟩ := mem_chainOf.mp left
  obtain ⟨within, second⟩ := mem_chainOf.mp right
  refine ⟨same, ?_⟩
  obtain ⟨c, held, equal⟩ := agree.symm.owner inner
  have one := (nodup_hashes_iff z).mp distinct c held b.2 within
    (by rw [ownerHash_congr equal, ← first, ← second, same])
  exact BEq.trans (BEq.symm equal) one

theorem nsec3Chain : ResultsAlike (List.Forall₂ LinksAlike) w.nsec3Chain z.nsec3Chain := by
  rw [Zone.nsec3Chain, Zone.nsec3Chain]
  by_cases ascii : z.nsec3Owners.all asciiOwner = true
  · simp only [ascii, agree.symm.allAscii ascii, ↓reduceIte]
    by_cases distinct : (z.nsec3Owners.map ownerHash).Nodup
    · rw [if_pos distinct, if_pos (agree.symm.nodupHashes distinct)]
      exact .inr ⟨_, _, rfl, rfl, agree.chainOf distinct⟩
    · rw [if_neg distinct, if_neg fun other => distinct (agree.nodupHashes other)]
      exact .inl ⟨_, rfl, rfl⟩
  · have other : ¬ w.nsec3Owners.all asciiOwner = true := fun all => ascii (agree.allAscii all)
    simp only [if_neg ascii, if_neg other]
    exact .inl ⟨_, rfl, rfl⟩

end Agree

theorem scanChain_alike (h : Text) (matching : Bool) {chain other : List (Text × Name)} {prev past : Name}
    (links : List.Forall₂ LinksAlike other chain) (before : NamesAlike past prev) :
    Option.Rel NamesAlike (scanChain h matching past other) (scanChain h matching prev chain) := by
  have missed {prev past : Name} (before : NamesAlike past prev) :
      Option.Rel NamesAlike (if matching = true then none else some past)
        (if matching = true then none else some prev) := by
    cases matching with
    | true => exact .none
    | false => exact .some before
  induction links generalizing prev past with
  | nil => exact missed before
  | @cons a b other chain link _ ih =>
      obtain ⟨hash, owner⟩ := a
      obtain ⟨text, name⟩ := b
      obtain ⟨rfl, same⟩ := link
      rw [scanChain, scanChain]
      by_cases hit : hash = h
      · rw [if_pos hit, if_pos hit]
        exact .some same
      · rw [if_neg hit, if_neg hit]
        by_cases past : h < hash
        · rw [if_pos past, if_pos past]
          exact missed before
        · rw [if_neg past, if_neg past]
          exact ih same

theorem forall₂_filterMap_id {left right : List (Option Name)}
    (both : List.Forall₂ (Option.Rel NamesAlike) left right) :
    List.Forall₂ NamesAlike (left.filterMap id) (right.filterMap id) := by
  induction both with
  | nil => exact .nil
  | cons first _ ih =>
      cases first with
      | none => exact ih
      | some same => exact .cons same ih

/-- A chain has an owner of hashed records. -/
theorem Formed.nsec3_of_chain {z : Zone} (formed : z.Formed) {link : Text × Name}
    {more : List (Text × Name)} (found : z.nsec3Chain = .ok (link :: more)) :
    ∃ name, z.slot name RRType.nsec3 ≠ [] := by
  rw [nsec3Chain] at found
  split at found
  · split at found
    · have held : link ∈ chainOf z.nsec3Owners := by
        rw [chainOf, Except.ok.inj found]
        exact List.mem_cons_self
      obtain ⟨⟨entry, inside, hashed, _⟩, _⟩ := mem_nsec3Owners.mp (mem_chainOf.mp held).1
      obtain ⟨rds, there⟩ := Option.isSome_iff_exists.mp (Dict.contains_iff.mp hashed)
      have home : z.records.get? entry.1 = some entry.2 :=
        Dict.get?_eq_some.mpr ⟨entry, inside, BEq.rfl, rfl⟩
      exact ⟨entry.1, formed.slot_ne_nil home there⟩
    · cases found
  · cases found

section

variable (sha1 : Octets → Octets)

namespace Agree

variable {z w : Zone} (agree : z.Agree w)

include agree

omit agree in
theorem nsec3Owner (salt : w.salt = z.salt) (iterations : w.iterations = z.iterations)
    {chain other : List (Text × Name)} (links : List.Forall₂ LinksAlike other chain) (name : Name)
    (matching : Bool) :
    Option.Rel NamesAlike (w.nsec3Owner sha1 other name matching)
      (z.nsec3Owner sha1 chain name matching) := by
  have lasts : Option.Rel LinksAlike other.getLast? chain.getLast? := by
    rw [← List.head?_reverse, ← List.head?_reverse]
    have turned := List.rel_reverse links
    generalize other.reverse = back at turned
    generalize chain.reverse = front at turned
    cases turned with
    | nil => exact .none
    | cons first _ => exact .some first
  rw [Zone.nsec3Owner, Zone.nsec3Owner]
  rw [Zone.salt, Zone.salt] at salt
  rw [Zone.iterations, Zone.iterations] at iterations
  rw [salt, iterations]
  cases first : other.getLast? with
  | none =>
      rw [first] at lasts
      cases second : chain.getLast? with
      | none => exact .none
      | some last =>
          rw [second] at lasts
          cases lasts
  | some last =>
      rw [first] at lasts
      cases second : chain.getLast? with
      | none =>
          rw [second] at lasts
          cases lasts
      | some end_ =>
          rw [second] at lasts
          cases lasts with
          | some link => exact scanChain_alike _ matching links link.owner

theorem nsec3Denial (signed : z.signed = true) (param : z.slot z.origin RRType.nsec3param ≠ [])
    (qname encloser : Name) (kind : DenialKind) (wildcard : Option Name) :
    ResultsAlike RRsAlike (w.nsec3Denial sha1 qname encloser kind wildcard)
      (z.nsec3Denial sha1 qname encloser kind wildcard) := by
  rw [Zone.nsec3Denial, Zone.nsec3Denial]
  rcases agree.nsec3Chain with ⟨e, left, right⟩ | ⟨other, chain, left, right, links⟩
  · rw [left, right]
    exact .inl ⟨e, rfl, rfl⟩
  · rw [left, right]
    cases links with
    | nil => exact .inr ⟨[], [], rfl, rfl, .nil⟩
    | @cons a b other chain link more =>
        have hashed : z.Hashed := ⟨signed, param, agree.left.nsec3_of_chain right⟩
        obtain ⟨salt, iterations⟩ := agree.hashing hashed
        have found (name : Name) (matching : Bool) :=
          nsec3Owner sha1 salt iterations (List.Forall₂.cons link more) name matching
        have nothing : List.Forall₂ (Option.Rel NamesAlike) [] [] := .nil
        refine .inr ⟨_, _, rfl, rfl, agree.denialRrs _ (forall₂_filterMap_id ?_)⟩
        cases kind with
        | nodata => exact .cons (found _ _) nothing
        | wildcard => exact .cons (found _ _) nothing
        | nxdomain => exact .cons (found _ _) (.cons (found _ _) (.cons (found _ _) nothing))
        | wildcardNodata =>
            refine .cons (found _ _) (.cons (found _ _) (.cons ?_ nothing))
            cases wildcard with
            | none => exact .none
            | some wild => exact found wild true

theorem denial (signed : z.signed = true) (qname encloser : Name) (kind : DenialKind)
    (wildcard : Option Name) :
    ResultsAlike RRsAlike (w.denial sha1 qname encloser kind wildcard)
      (z.denial sha1 qname encloser kind wildcard) := by
  unfold Zone.denial
  rw [agree.origin, agree.contains_node]
  by_cases param : (z.node z.origin).contains RRType.nsec3param = true
  · rw [if_pos param, if_pos param]
    exact agree.nsec3Denial sha1 signed (agree.left.contains_node_iff.mp param) qname encloser kind
      wildcard
  · rw [if_neg param, if_neg param]
    refine .inr ⟨_, _, rfl, rfl, agree.denialRrs _ ?_⟩
    have before := agree.nsecPredecessor
    cases kind with
    | nodata =>
        simp only [agree.contains_node]
        by_cases own : (z.node qname).contains RRType.nsec = true
        · rw [if_pos own, if_pos own]
          exact .cons BEq.rfl .nil
        · rw [if_neg own, if_neg own]
          exact .cons (before qname) .nil
    | wildcard => exact .cons (before qname) .nil
    | nxdomain => exact .cons (before qname) (.cons (before _) .nil)
    | wildcardNodata =>
        refine .cons (before qname) ?_
        cases wildcard with
        | none => exact .nil
        | some wild => exact .cons BEq.rfl .nil

/-! ### Answers -/

theorem proving (dnssecOk : Bool) : w.proving dnssecOk = z.proving dnssecOk := by
  rw [Zone.proving, Zone.proving, agree.signed]

theorem proof (dnssecOk : Bool) (qname encloser : Name) (kind : DenialKind)
    (wildcard : Option Name) :
    ResultsAlike RRsAlike (w.proof sha1 dnssecOk qname encloser kind wildcard)
      (z.proof sha1 dnssecOk qname encloser kind wildcard) := by
  unfold Zone.proof
  rw [agree.proving]
  by_cases needed : z.proving dnssecOk = true
  · rw [if_pos needed, if_pos needed]
    rw [Zone.proving, Bool.and_eq_true] at needed
    exact agree.denial sha1 needed.2 qname encloser kind wildcard
  · rw [if_neg needed, if_neg needed]
    exact .inr ⟨[], [], rfl, rfl, .nil⟩

theorem nodata (dnssecOk : Bool) (qname : Name) (wildcard encloser : Option Name) :
    ResultsAlike Answer.Alike (w.nodata sha1 dnssecOk qname wildcard encloser)
      (z.nodata sha1 dnssecOk qname wildcard encloser) := by
  unfold Zone.nodata
  rw [agree.soaRr]
  have answer (a b : List RR) (both : RRsAlike a b) : Answer.Alike
      { rcode := noError, authority := z.soaRr dnssecOk ++ a }
      { rcode := noError, authority := z.soaRr dnssecOk ++ b } :=
    ⟨rfl, rfl, .nil, List.rel_append (rrsAlike_refl _) both, .nil⟩
  cases wildcard with
  | none =>
      refine (agree.proof sha1 dnssecOk qname _ .nodata none).bind ?_
      intro a b both
      exact .inr ⟨_, _, rfl, rfl, answer a b both⟩
  | some wild =>
      refine (agree.proof sha1 dnssecOk qname _ .wildcardNodata (some wild)).bind ?_
      intro a b both
      exact .inr ⟨_, _, rfl, rfl, answer a b both⟩

theorem nxdomain (dnssecOk : Bool) (qname encloser : Name) :
    ResultsAlike Answer.Alike (w.nxdomain sha1 dnssecOk qname encloser)
      (z.nxdomain sha1 dnssecOk qname encloser) := by
  unfold Zone.nxdomain
  rw [agree.soaRr]
  refine (agree.proof sha1 dnssecOk qname encloser .nxdomain none).bind ?_
  intro a b both
  refine .inr ⟨_, _, rfl, rfl, rfl, rfl, .nil, ?_, .nil⟩
  exact List.rel_append (rrsAlike_refl _) both

theorem withExpansion (dnssecOk : Bool) (owner : Name) (synth encloser : Option Name) (out : Answer) :
    ResultsAlike Answer.Alike (w.withExpansion sha1 dnssecOk owner synth encloser out)
      (z.withExpansion sha1 dnssecOk owner synth encloser out) := by
  cases synth with
  | none => exact .inr ⟨_, _, rfl, rfl, .refl out⟩
  | some qname =>
      refine (agree.proof sha1 dnssecOk qname (encloser.getD owner.parent) .wildcard none).bind ?_
      intro a b both
      refine .inr ⟨_, _, rfl, rfl, rfl, rfl, rrsAlike_refl _, ?_, rrsAlike_refl _⟩
      exact List.rel_append (rrsAlike_refl _) both

theorem answerAt {owner : Name} {node other : Node} (held : z.records.get? owner = some node)
    (same : ∀ t, other.get? t = node.get? t) (qtype : RRType) (dnssecOk : Bool)
    (synth encloser : Option Name) :
    ResultsAlike Answer.Alike (w.answerAt sha1 owner other qtype dnssecOk synth encloser)
      (z.answerAt sha1 owner node qtype dnssecOk synth encloser) := by
  rw [Zone.answerAt, Zone.answerAt]
  have chained : other.contains RRType.cname = node.contains RRType.cname := by
    rw [Bool.eq_iff_iff, Dict.contains_iff, Dict.contains_iff, same]
  rw [chained, agree.chase qtype dnssecOk maxCnameChain [] [] owner _ node other held same]
  simp only
  by_cases follows : qtype ≠ RRType.cname ∧ node.contains RRType.cname = true
  · rw [if_pos follows, if_pos follows]
    have equal : ResultsAlike (fun a b : List RR => a = b)
        (z.chase qtype dnssecOk maxCnameChain [] [] owner node (synth.getD owner))
        (z.chase qtype dnssecOk maxCnameChain [] [] owner node (synth.getD owner)) :=
      .of_eq (fun _ => rfl) rfl
    refine equal.bind fun a b both => ?_
    rw [both]
    exact agree.withExpansion sha1 dnssecOk owner synth encloser _
  · rw [if_neg follows, if_neg follows, same]
    cases found : node.get? qtype with
    | none => exact agree.nodata sha1 dnssecOk _ _ _
    | some rds =>
        have filled := agree.left.slot_ne_nil held found
        simp only [agree.ttls owner qtype filled, agree.attachSig filled]
        exact agree.withExpansion sha1 dnssecOk owner synth encloser _

/-- Zones that hold the same records answer every question alike. -/
theorem lookup (qname : Name) (qtype : RRType) (dnssecOk : Bool) :
    ResultsAlike Answer.Alike (w.lookup sha1 qname qtype dnssecOk)
      (z.lookup sha1 qname qtype dnssecOk) := by
  rw [Zone.lookup, Zone.lookup, agree.delegation]
  have equal : ResultsAlike (fun a b : Option Answer => a = b) (z.delegation qname qtype)
      (z.delegation qname qtype) := .of_eq (fun _ => rfl) rfl
  refine equal.bind fun a b both => ?_
  subst both
  cases a with
  | some cut => exact .inr ⟨_, _, rfl, rfl, .refl cut⟩
  | none =>
      simp only [agree.closestEncloser]
      cases real : z.realNode qname with
      | some node =>
          obtain ⟨other, there, _, held, same⟩ := agree.realNode real
          simp only [there]
          exact agree.answerAt sha1 held same qtype dnssecOk none none
      | none =>
          simp only [agree.realNode_none real]
          by_cases here : (z.closestEncloser qname == qname) = true
          · rw [if_pos here, if_pos here]
            exact agree.nodata sha1 dnssecOk qname none _
          · rw [if_neg here, if_neg here]
            cases held : z.records.get? (wildcardOf (z.closestEncloser qname)) with
            | none =>
                simp only [agree.absent held]
                exact agree.nxdomain sha1 dnssecOk qname _
            | some node =>
                obtain ⟨other, there, same⟩ := agree.held held
                simp only [there]
                exact agree.answerAt sha1 held same qtype dnssecOk (some qname) _

end Agree

end

end Zone

end Trench.AuthZone
