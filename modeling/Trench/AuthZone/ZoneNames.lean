import Mathlib
import Trench.AuthZone.Zone
import Trench.Wire.MessageStable

set_option autoImplicit false

/- The names of a zone: which records may stand where, the delegations on the way down
to a name, and the names that exist. -/
namespace Trench.AuthZone

open Wire
open Dnssec (wildcardOf lastLabels)
open PathOrder (commonPrefix)

/-- Keys of the tables of record sets: the name up to letter case, and the type. -/
theorem setKey_beq_iff {a b : Name × RRType} :
    (a == b) = true ↔ (a.1 == b.1) = true ∧ a.2 = b.2 := by
  change (a.1 == b.1 && a.2 == b.2) = true ↔ _
  rw [Bool.and_eq_true, beq_iff_eq (a := a.2)]

instance : EquivBEq (Name × RRType) where
  rfl := setKey_beq_iff.mpr ⟨BEq.rfl, rfl⟩
  symm same := setKey_beq_iff.mpr
    ⟨BEq.symm (setKey_beq_iff.mp same).1, (setKey_beq_iff.mp same).2.symm⟩
  trans first second := setKey_beq_iff.mpr
    ⟨BEq.trans (setKey_beq_iff.mp first).1 (setKey_beq_iff.mp second).1,
      (setKey_beq_iff.mp first).2.trans (setKey_beq_iff.mp second).2⟩

/-! ### Zones as the program builds them -/

/-- Data that may stand under a type: the types that a lookup follows have names or
an SOA in them, and no parser gives them any other class. -/
def Suits (rtype : RRType) (rd : Rdata) : Prop :=
  rtype ∈ [RRType.ns, RRType.cname, RRType.soa] → rd.Typed ∧ rd.rdataType = rtype

instance (rtype : RRType) (rd : Rdata) : Decidable (Suits rtype rd) := by
  unfold Suits
  infer_instance

theorem ensures_suits (rtype : RRType) (n : Nat) :
    Cursor.Ensures (Rdata.parseRdata rtype n) (Suits rtype) := by
  intro c rd next read followed
  rcases ensures_parseRdata rtype n c rd next read with ⟨typed, _, same⟩ | ⟨octets, _, _, inert⟩
  · exact ⟨typed, same⟩
  · simp only [List.mem_cons, List.not_mem_nil, or_false] at followed
    rcases followed with rfl | rfl | rfl
    · exact absurd inert (by decide +kernel)
    · exact absurd inert (by decide +kernel)
    · exact absurd inert (by decide +kernel)

theorem Suits.cname {rd : Rdata} (suits : Suits RRType.cname rd) : ∃ target, rd = .cname target := by
  obtain ⟨typed, same⟩ := suits (by decide)
  cases rd with
  | cname target => exact ⟨target, rfl⟩
  | unknown rtype data => exact typed.elim
  | _ => exact absurd same (by rw [Rdata.rdataType]; decide)

theorem Suits.ns {rd : Rdata} (suits : Suits RRType.ns rd) : ∃ target, rd = .ns target := by
  obtain ⟨typed, same⟩ := suits (by decide)
  cases rd with
  | ns target => exact ⟨target, rfl⟩
  | unknown rtype data => exact typed.elim
  | _ => exact absurd same (by rw [Rdata.rdataType]; decide)

namespace Zone

/-- Every owner has records, no record set is empty, and what a lookup follows has its
own class. -/
structure Formed (z : Zone) : Prop where
  owning : ∀ name node, z.records.get? name = some node → ∃ rtype, node.contains rtype = true
  filled : ∀ name node rtype rds, z.records.get? name = some node →
    node.get? rtype = some rds → rds ≠ []
  suits : ∀ name node rtype rds, z.records.get? name = some node →
    node.get? rtype = some rds → ∀ rd ∈ rds, Suits rtype rd

theorem Formed.make (origin : Name) : (Zone.make origin).Formed := by
  constructor
  · intro name node held
    cases held
  · intro name node rtype rds held
    cases held
  · intro name node rtype rds held
    cases held

theorem mem_slot {z : Zone} {name : Name} {rtype : RRType} {rd : Rdata}
    (held : rd ∈ z.slot name rtype) :
    ∃ node rds, z.records.get? name = some node ∧ node.get? rtype = some rds ∧ rd ∈ rds := by
  rw [slot, node] at held
  cases found : z.records.get? name with
  | none =>
      rw [found] at held
      cases held
  | some node =>
      rw [found, Option.getD_some] at held
      cases inner : node.get? rtype with
      | none =>
          rw [inner] at held
          cases held
      | some rds =>
          rw [inner] at held
          exact ⟨node, rds, rfl, inner, held⟩

/-- A record set after `add`. -/
theorem get?_add {z : Zone} {name other : Name} {rtype : RRType} {rd : Rdata} {ttl : Int}
    {node : Node} (held : (z.add name rtype rd ttl).records.get? other = some node) :
    z.records.get? other = some node ∨
      node = (z.node name).set rtype (z.slot name rtype ++ [rd]) := by
  rw [add] at held
  simp only [Dict.get?_set] at held
  split at held
  · exact .inr (Option.some.inj held).symm
  · exact .inl held

theorem Formed.add {z : Zone} (formed : z.Formed) {name : Name} {rtype : RRType} {rd : Rdata}
    {ttl : Int} (suits : Suits rtype rd) : (z.add name rtype rd ttl).Formed := by
  have slots {other : Name} {node : Node} {t : RRType} {rds : List Rdata}
      (held : (z.add name rtype rd ttl).records.get? other = some node)
      (found : node.get? t = some rds) :
      (∃ home old, z.records.get? home = some old ∧ old.get? t = some rds) ∨
        (t = rtype ∧ rds = z.slot name rtype ++ [rd]) := by
    rcases get?_add held with old | rfl
    · exact .inl ⟨other, node, old, found⟩
    · rw [Dict.get?_set] at found
      split at found
      · next same => exact .inr ⟨(beq_iff_eq.mp same).symm, (Option.some.inj found).symm⟩
      · rw [Zone.node] at found
        cases home : z.records.get? name with
        | none =>
            rw [home] at found
            cases found
        | some old =>
            rw [home] at found
            exact .inl ⟨name, old, home, found⟩
  constructor
  · intro other node held
    rcases get?_add held with old | rfl
    · exact formed.owning other node old
    · refine ⟨rtype, Dict.contains_iff.mpr ?_⟩
      rw [Dict.get?_set, if_pos BEq.rfl]
      rfl
  · intro other node t rds held found
    rcases slots held found with ⟨home, old, there, kept⟩ | ⟨-, rfl⟩
    · exact formed.filled home old t rds there kept
    · exact List.append_ne_nil_of_right_ne_nil _ (List.cons_ne_nil _ _)
  · intro other node t rds held found one member
    rcases slots held found with ⟨home, old, there, kept⟩ | ⟨rfl, rfl⟩
    · exact formed.suits home old t rds there kept one member
    · rcases List.mem_append.mp member with before | last
      · obtain ⟨old, rds, there, kept, inside⟩ := mem_slot before
        exact formed.suits name old t rds there kept one inside
      · rw [List.mem_singleton.mp last]
        exact suits

/-! ### Delegations -/

/-- The first `count` names on the way from the apex down to a name, the apex left out. -/
def wayTo (z : Zone) (qname : Name) (count : Nat) : List Name :=
  (List.range' (z.origin.labels.length + 1) (count - z.origin.labels.length)).map (lastLabels qname)

/-- The names at which a question may leave the zone; one for DS is the parent's at
the cut itself. -/
def way (z : Zone) (qname : Name) (qtype : RRType) : List Name :=
  z.wayTo qname (if qtype = RRType.ds then qname.labels.length - 1 else qname.labels.length)

/-- The topmost delegation on the way. -/
def topCut (z : Zone) (qname : Name) (qtype : RRType) : Option Name :=
  (z.way qname qtype).find? z.isCut

theorem lastLabels_length {qname : Name} {count : Nat} (short : count ≤ qname.labels.length) :
    (lastLabels qname count).labels.length = count := by
  simp only [lastLabels, List.length_drop]
  omega

theorem lastLabels_of_suffix {qname : Name} {labels : List Label} (onWay : labels <:+ qname.labels) :
    lastLabels qname labels.length = ⟨labels⟩ := by
  obtain ⟨front, whole⟩ := onWay
  rw [lastLabels, ← whole, List.length_append, Nat.add_sub_cancel, List.drop_left]

theorem wayTo_succ {z : Zone} {qname : Name} {count : Nat}
    (below : z.origin.labels.length ≤ count) :
    z.wayTo qname (count + 1) = z.wayTo qname count ++ [lastLabels qname (count + 1)] := by
  have more : count + 1 - z.origin.labels.length = count - z.origin.labels.length + 1 := by omega
  have last : z.origin.labels.length + 1 + (count - z.origin.labels.length) = count + 1 := by omega
  rw [wayTo, wayTo, more, List.range'_concat, List.map_append, List.map_singleton, Nat.one_mul, last]

theorem mem_wayTo {z : Zone} {qname : Name} {count : Nat} {n : Name} :
    n ∈ z.wayTo qname count ↔
      ∃ k, z.origin.labels.length < k ∧ k ≤ count ∧ lastLabels qname k = n := by
  rw [wayTo, List.mem_map]
  constructor
  · intro ⟨k, inside, same⟩
    rw [List.mem_range'_1] at inside
    exact ⟨k, by omega, by omega, same⟩
  · intro ⟨k, lower, upper, same⟩
    refine ⟨k, ?_, same⟩
    rw [List.mem_range'_1]
    omega

/-- The names on the way differ in their lengths. -/
theorem wayTo_nodup {z : Zone} {qname : Name} {count : Nat} (short : count ≤ qname.labels.length) :
    (z.wayTo qname count).Nodup := by
  refine List.Nodup.map_on ?_ (List.nodup_range' 1)
  intro a left b right same
  rw [List.mem_range'_1] at left right
  have lengths := congrArg (fun n : Name => n.labels.length) same
  rwa [lastLabels_length (by omega), lastLabels_length (by omega)] at lengths

theorem cutFrom_cons (z : Zone) (qname : Name) (qtype : RRType) (label : Label) (rest : List Label) :
    z.cutFrom qname qtype (label :: rest) =
      if z.origin.labels.length < rest.length + 1 then
        if qtype = RRType.ds ∧ ((⟨label :: rest⟩ : Name) == qname) = true then
          z.cutFrom qname qtype rest
        else if z.isCut ⟨label :: rest⟩ then some ⟨label :: rest⟩
        else z.cutFrom qname qtype rest
      else none := rfl

theorem wayTo_above {z : Zone} {qname : Name} {count : Nat} (above : count ≤ z.origin.labels.length) :
    z.wayTo qname count = [] := by
  rw [wayTo, Nat.sub_eq_zero_of_le above]
  rfl

/-- The walk up finds the last delegation of the way down. -/
theorem cutFrom_eq (z : Zone) (qname : Name) (qtype : RRType) (labels : List Label)
    (onWay : labels <:+ qname.labels)
    (past : qtype = RRType.ds → labels.length < qname.labels.length) :
    z.cutFrom qname qtype labels = (z.wayTo qname labels.length).reverse.find? z.isCut := by
  induction labels with
  | nil =>
      rw [cutFrom, List.length_nil, wayTo_above (Nat.zero_le _)]
      rfl
  | cons label rest ih =>
      have inner : rest <:+ qname.labels := (List.suffix_cons label rest).trans onWay
      rw [cutFrom_cons, List.length_cons]
      by_cases deep : z.origin.labels.length < rest.length + 1
      · have other : ¬ (qtype = RRType.ds ∧ ((⟨label :: rest⟩ : Name) == qname) = true) := by
          intro ⟨isDs, same⟩
          have lengths := congrArg List.length (Name.beq_iff.mp same)
          simp only [Name.lower, List.length_map] at lengths
          have shorter := past isDs
          rw [List.length_cons] at lengths shorter
          omega
        rw [if_pos deep, if_neg other, wayTo_succ (by omega), List.reverse_append,
          List.reverse_singleton, List.singleton_append, List.find?_cons]
        have here := lastLabels_of_suffix onWay
        rw [List.length_cons] at here
        rw [here]
        cases cut : z.isCut ⟨label :: rest⟩ with
        | true => rfl
        | false =>
            apply ih inner
            intro isDs
            have shorter := past isDs
            rw [List.length_cons] at shorter
            omega
      · rw [if_neg deep, wayTo_above (by omega)]
        rfl

theorem cutFrom_way (z : Zone) (qname : Name) (qtype : RRType) :
    z.cutFrom qname qtype qname.labels = (z.way qname qtype).reverse.find? z.isCut := by
  rw [way]
  by_cases isDs : qtype = RRType.ds
  · rw [if_pos isDs]
    cases labels : qname.labels with
    | nil =>
        rw [cutFrom, wayTo_above (show ([] : List Label).length - 1 ≤ _ from Nat.zero_le _)]
        rfl
    | cons label rest =>
        have inner : rest <:+ qname.labels := labels ▸ List.suffix_cons label rest
        have walked := z.cutFrom_eq qname qtype rest inner
          (fun _ => by rw [labels, List.length_cons]; omega)
        have self : ((⟨label :: rest⟩ : Name) == qname) = true := by
          apply Name.beq_iff.mpr
          rw [Name.lower, Name.lower, labels]
        rw [cutFrom_cons, List.length_cons, Nat.add_sub_cancel, walked]
        by_cases deep : z.origin.labels.length < rest.length + 1
        · rw [if_pos deep, if_pos ⟨isDs, self⟩]
        · rw [if_neg deep, wayTo_above (by omega)]
          rfl
  · rw [if_neg isDs]
    exact z.cutFrom_eq qname qtype qname.labels (List.suffix_refl _) (fun h => absurd h isDs)

theorem way_nodup (z : Zone) (qname : Name) (qtype : RRType) : (z.way qname qtype).Nodup := by
  apply wayTo_nodup
  split <;> omega

/-- The first and the last of the members with a property are one exactly when there
are no two. -/
theorem find?_reverse_eq_iff {α : Type} {p : α → Bool} {l : List α} (distinct : l.Nodup) :
    l.reverse.find? p = l.find? p ↔ ∀ a ∈ l, ∀ b ∈ l, p a = true → p b = true → a = b := by
  constructor
  · intro same
    cases found : l.find? p with
    | none =>
        intro a inside b _ hit _
        exact absurd hit (List.find?_eq_none.mp found a inside)
    | some first =>
        rw [found] at same
        obtain ⟨_, before, after, split, early⟩ := List.find?_eq_some_iff_append.mp found
        obtain ⟨_, back, front, turned, late⟩ := List.find?_eq_some_iff_append.mp same
        have again : l = front.reverse ++ first :: back.reverse := by
          have whole := congrArg List.reverse turned
          rw [List.reverse_reverse] at whole
          rw [whole]
          simp
        have apart := distinct
        rw [split, List.nodup_append, List.nodup_cons] at apart
        obtain ⟨-, ⟨behind, -⟩, cross⟩ := apart
        have ahead : first ∉ before := fun held => cross first held first List.mem_cons_self rfl
        have tails := ((List.append_cons_inj_of_notMem ahead behind).mp (split.symm.trans again)).2.2
        have only : ∀ a ∈ l, p a = true → a = first := by
          intro a inside hit
          rw [split, List.mem_append, List.mem_cons] at inside
          rcases inside with held | same | held
          · exact absurd hit (by simpa using early a held)
          · exact same
          · rw [tails, List.mem_reverse] at held
            exact absurd hit (by simpa using late a held)
        intro a inside b within hit other
        rw [only a inside hit, only b within other]
  · intro single
    cases found : l.find? p with
    | none =>
        apply List.find?_eq_none.mpr
        intro a inside
        exact List.find?_eq_none.mp found a (List.mem_reverse.mp inside)
    | some first =>
        have hit := List.find?_some found
        have held := List.mem_of_find?_eq_some found
        cases back : l.reverse.find? p with
        | none => exact absurd hit (List.find?_eq_none.mp back first (List.mem_reverse.mpr held))
        | some last =>
            have within := List.mem_reverse.mp (List.mem_of_find?_eq_some back)
            rw [single last within first held (List.find?_some back) hit]

theorem glue_ns (z : Zone) (n target : Name) :
    z.glue n (.ns target) = .ok (if target.isSubdomainOf n then
      [RRType.a, RRType.aaaa].flatMap fun gt => rrset target gt (z.ttlOf target gt) (z.slot target gt)
      else []) := by
  change (if (!target.isSubdomainOf n) = true then _ else _) = _
  cases target.isSubdomainOf n with
  | false => rfl
  | true => rfl

theorem Formed.glues {z : Zone} {n : Name} {rds : List Rdata}
    (suits : ∀ rd ∈ rds, Suits RRType.ns rd) : ∃ extra, z.glues n rds = .ok extra := by
  induction rds with
  | nil => exact ⟨[], rfl⟩
  | cons rd rest ih =>
      obtain ⟨target, rfl⟩ := (suits rd List.mem_cons_self).ns
      obtain ⟨more, later⟩ := ih fun other held => suits other (List.mem_cons_of_mem _ held)
      rw [Zone.glues, glue_ns, later]
      exact ⟨_, rfl⟩

theorem referral_of_glues {z : Zone} {n : Name} {extra : List RR}
    (found : z.glues n (z.slot n RRType.ns) = .ok extra) :
    z.referral n = .ok {
      rcode := noError
      aa := false
      authority := rrset n RRType.ns (z.ttlOf n RRType.ns) (z.slot n RRType.ns) ++
        rrset n RRType.ds (z.ttlOf n RRType.ds) (z.slot n RRType.ds)
      additional := extra } := by
  rw [referral, found]
  rfl

theorem Formed.servers {z : Zone} (formed : z.Formed) {n : Name} (cut : z.isCut n = true) :
    z.slot n RRType.ns ≠ [] := by
  rw [isCut, Bool.and_eq_true, Dict.contains_iff, Option.isSome_iff_exists] at cut
  obtain ⟨⟨rds, held⟩, -⟩ := cut
  rw [slot, held, Option.getD_some]
  rw [node] at held
  cases there : z.records.get? n with
  | none =>
      rw [there] at held
      cases held
  | some inner =>
      rw [there] at held
      exact formed.filled n inner RRType.ns rds there held

/-- A delegation has a referral, owned by the cut. -/
theorem Formed.referral {z : Zone} (formed : z.Formed) {n : Name} (cut : z.isCut n = true) :
    ∃ ans first rest, z.referral n = .ok ans ∧ ans.authority = first :: rest ∧ first.name = n := by
  have suits : ∀ rd ∈ z.slot n RRType.ns, Suits RRType.ns rd := by
    intro rd held
    obtain ⟨node, rds, there, kept, inside⟩ := mem_slot held
    exact formed.suits n node RRType.ns rds there kept rd inside
  obtain ⟨extra, found⟩ := Formed.glues (z := z) (n := n) suits
  have some := formed.servers cut
  obtain ⟨rd, others, split⟩ := List.exists_cons_of_ne_nil some
  rw [referral_of_glues found, split]
  exact ⟨_, ⟨n, RRType.ns, RRClass.in, z.ttlOf n RRType.ns, rd⟩, _, rfl, rfl, rfl⟩

theorem Formed.referral_inj {z : Zone} (formed : z.Formed) {m n : Name} (left : z.isCut m = true)
    (right : z.isCut n = true) (same : z.referral m = z.referral n) : m = n := by
  obtain ⟨ans, first, rest, found, split, rfl⟩ := formed.referral left
  obtain ⟨other, head, tail, again, whole, rfl⟩ := formed.referral right
  rw [found, again, Except.ok.injEq] at same
  rw [same, whole, List.cons.injEq] at split
  rw [split.1]

/-! ### Existence -/

/-- A name exists when it owns records or has a name below it that does; the apex
always does. Hashed owners are no names of the zone. -/
def Exists (z : Zone) (n : Name) : Prop :=
  (n == z.origin) = true ∨
    ∃ entry ∈ z.records.entries, nsec3Only entry.2 = false ∧ entry.1.isSubdomainOf n = true

instance (z : Zone) (n : Name) : Decidable (z.Exists n) := by
  unfold Exists
  infer_instance

/-- The number of labels of the closest encloser. -/
def reach (z : Zone) (qname : Name) : Nat :=
  (z.records.entries.filter fun entry => !nsec3Only entry.2).foldl
    (fun best entry => max best (z.sharedLabels qname entry.1)) z.origin.labels.length

theorem closestEncloser_eq (z : Zone) (qname : Name) :
    z.closestEncloser qname = lastLabels qname (z.reach qname) := rfl

theorem le_foldl_max {α : Type} (f : α → Nat) (l : List α) (start k : Nat) :
    k ≤ l.foldl (fun best a => max best (f a)) start ↔ k ≤ start ∨ ∃ a ∈ l, k ≤ f a := by
  induction l generalizing start with
  | nil => simp
  | cons a rest ih =>
      rw [List.foldl_cons, ih, le_max_iff, List.exists_mem_cons_iff, or_assoc]

theorem canonKey_lastLabels {qname : Name} {count : Nat} (short : count ≤ qname.labels.length) :
    (lastLabels qname count).canonKey = qname.canonKey.take count := by
  rw [lastLabels, Name.canonKey_drop]
  congr 1
  omega

/-- Sharing `k` labels with an owner is having it at or below the last `k`. -/
theorem le_sharedLabels_iff {z : Zone} {qname owner : Name} {k : Nat}
    (inside : qname.isSubdomainOf z.origin = true) (held : owner.isSubdomainOf z.origin = true)
    (lower : z.origin.labels.length ≤ k) (upper : k ≤ qname.labels.length) :
    k ≤ z.sharedLabels qname owner ↔ owner.isSubdomainOf (lastLabels qname k) = true := by
  have left := List.prefix_iff_eq_take.mp (Name.isSubdomainOf_iff_canonKey.mp inside)
  have right := List.prefix_iff_eq_take.mp (Name.isSubdomainOf_iff_canonKey.mp held)
  rw [Name.canonKey_length] at left right
  have room : k - z.origin.labels.length ≤ (qname.canonKey.drop z.origin.labels.length).length := by
    rw [List.length_drop, Name.canonKey_length]
    omega
  have shared : k ≤ z.sharedLabels qname owner ↔ k - z.origin.labels.length ≤
      (commonPrefix (owner.canonKey.drop z.origin.labels.length)
        (qname.canonKey.drop z.origin.labels.length)).length := by
    rw [sharedLabels]
    omega
  have divided : qname.canonKey.take k = z.origin.canonKey ++
      (qname.canonKey.drop z.origin.labels.length).take (k - z.origin.labels.length) := by
    have split : k = z.origin.labels.length + (k - z.origin.labels.length) := by omega
    rw [left, split, List.take_add]
    simp
  have whole : owner.canonKey =
      z.origin.canonKey ++ owner.canonKey.drop z.origin.labels.length := by
    rw [right, List.take_append_drop]
  rw [shared, PathOrder.le_length_commonPrefix room, Name.isSubdomainOf_iff_canonKey,
    canonKey_lastLabels upper, divided]
  constructor
  · intro leads
    rw [whole]
    exact (List.prefix_append_right_inj _).mpr leads
  · intro leads
    rw [whole] at leads
    exact (List.prefix_append_right_inj _).mp leads

theorem base_le_reach (z : Zone) (qname : Name) : z.origin.labels.length ≤ z.reach qname :=
  (le_foldl_max _ _ _ _).mpr (.inl (Nat.le_refl _))

theorem reach_le {z : Zone} {qname : Name} (inside : qname.isSubdomainOf z.origin = true) :
    z.reach qname ≤ qname.labels.length := by
  have room : z.origin.labels.length ≤ qname.labels.length := by
    have shorter := (Name.isSubdomainOf_iff_canonKey.mp inside).length_le
    rwa [Name.canonKey_length, Name.canonKey_length] at shorter
  rcases (le_foldl_max _ _ _ _).mp (Nat.le_refl (z.reach qname)) with first | ⟨entry, _, shared⟩
  · exact first.trans room
  · refine shared.trans ?_
    have bound := (PathOrder.commonPrefix_right (entry.1.canonKey.drop z.origin.labels.length)
      (qname.canonKey.drop z.origin.labels.length)).length_le
    rw [List.length_drop, Name.canonKey_length] at bound
    rw [sharedLabels]
    omega

/-- Every owner lies at or below the apex. -/
def Below (z : Zone) : Prop := ∀ entry ∈ z.records.entries, entry.1.isSubdomainOf z.origin = true

/-- The scan over all owners measures how far down the way the names exist. -/
theorem exists_lastLabels_iff {z : Zone} (below : z.Below) {qname : Name} {k : Nat}
    (inside : qname.isSubdomainOf z.origin = true) (lower : z.origin.labels.length ≤ k)
    (upper : k ≤ qname.labels.length) :
    z.Exists (lastLabels qname k) ↔ k ≤ z.reach qname := by
  rcases Nat.eq_or_lt_of_le lower with same | deeper
  · subst same
    refine iff_of_true (.inl ?_) (z.base_le_reach qname)
    have onWay := List.prefix_iff_eq_take.mp (Name.isSubdomainOf_iff_canonKey.mp inside)
    rw [Name.beq_iff_canonKey, canonKey_lastLabels upper]
    rw [Name.canonKey_length] at onWay
    exact onWay.symm
  · have differ : ¬ (lastLabels qname k == z.origin) = true := by
      intro same
      have lengths := congrArg List.length (Name.beq_iff.mp same)
      simp only [Name.lower, List.length_map, lastLabels_length upper] at lengths
      omega
    have shallow : ¬ k ≤ z.origin.labels.length := by omega
    rw [reach, le_foldl_max, Exists, or_iff_right differ, or_iff_right shallow]
    constructor
    · rintro ⟨entry, held, real, under⟩
      refine ⟨entry, List.mem_filter.mpr ⟨held, by rw [real]; rfl⟩, ?_⟩
      exact (le_sharedLabels_iff inside (below entry held) lower upper).mpr under
    · rintro ⟨entry, held, shared⟩
      obtain ⟨held, real⟩ := List.mem_filter.mp held
      refine ⟨entry, held, by simpa using real, ?_⟩
      exact (le_sharedLabels_iff inside (below entry held) lower upper).mp shared

/-- The deepest name on the way to `qname` that exists. -/
structure Closest (z : Zone) (qname e : Name) : Prop where
  onWay : ∃ k ≤ qname.labels.length, lastLabels qname k = e
  held : z.Exists e
  deepest : ∀ k ≤ qname.labels.length, z.Exists (lastLabels qname k) → k ≤ e.labels.length

theorem closest_iff {z : Zone} (below : z.Below) {qname e : Name}
    (inside : qname.isSubdomainOf z.origin = true) :
    z.Closest qname e ↔ e = z.closestEncloser qname := by
  have bound := reach_le inside
  have base := z.base_le_reach qname
  have held : z.Exists (lastLabels qname (z.reach qname)) :=
    (exists_lastLabels_iff below inside base bound).mpr (Nat.le_refl _)
  rw [closestEncloser_eq]
  constructor
  · intro ⟨⟨k, short, same⟩, found, deepest⟩
    subst same
    have upper := deepest _ bound held
    rw [lastLabels_length short] at upper
    have lower := (exists_lastLabels_iff below inside (base.trans upper) short).mp found
    rw [Nat.le_antisymm lower upper]
  · intro same
    subst same
    refine ⟨⟨_, bound, rfl⟩, held, ?_⟩
    intro k short found
    rw [lastLabels_length bound]
    by_cases shallow : k ≤ z.origin.labels.length
    · exact shallow.trans base
    · exact (exists_lastLabels_iff below inside (by omega) short).mp found

theorem lastLabels_self (qname : Name) : lastLabels qname qname.labels.length = qname := by
  rw [lastLabels, Nat.sub_self, List.drop_zero]

/-- The closest encloser is the name itself when the name exists. -/
theorem closestEncloser_beq_iff {z : Zone} (below : z.Below) {qname : Name}
    (inside : qname.isSubdomainOf z.origin = true) :
    (z.closestEncloser qname == qname) = true ↔ z.Exists qname := by
  have bound := reach_le inside
  have base := z.base_le_reach qname
  have whole := exists_lastLabels_iff below inside (base.trans bound) (Nat.le_refl _)
  rw [lastLabels_self] at whole
  rw [whole, closestEncloser_eq]
  constructor
  · intro same
    have lengths := congrArg List.length (Name.beq_iff.mp same)
    simp only [Name.lower, List.length_map, lastLabels_length bound] at lengths
    omega
  · intro full
    rw [Nat.le_antisymm bound full, lastLabels_self]
    exact BEq.rfl

end Zone

end Trench.AuthZone
