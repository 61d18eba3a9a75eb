import Mathlib
import Trench.AuthZone.ZoneNames

set_option autoImplicit false

/- CNAME chains inside a zone. The loop looks targets up among all records; a chain of
the zone's own records stops at a cut. -/
namespace Trench.AuthZone

open Wire

namespace Zone

/-! ### CNAME chains -/

/-- The CNAME at a node and the name it leads to. -/
def linkAt (node : Node) : Option (Rdata × Name) :=
  match node.get? RRType.cname with
  | some (rd :: _) => (nameOf rd).toOption.map fun target => (rd, target)
  | _ => none

section

variable (z : Zone) (look : Name → Option Node) (qtype : RRType)

/-- The node a chain arrives at, unless it was there before or leaves the zone. -/
def arrives (visited : List Name) (target : Name) : Option Node :=
  if visited.any (· == target) || !z.inBailiwick target then none else look target

/-- The next CNAME, where there is no data of the type. -/
def hop (visited : List Name) (target : Name) : Option (Rdata × Name) :=
  match z.arrives look visited target with
  | none => none
  | some node => if node.contains qtype then none else linkAt node

/-- The data at the end of a chain. -/
def landing (visited : List Name) (target : Name) : List RR :=
  match z.arrives look visited target with
  | none => []
  | some node =>
      match node.get? qtype with
      | none => []
      | some rds => rrset target qtype (z.ttlOf target qtype) rds

/-- What a chain adds behind a CNAME to `target`: at most `room` CNAMEs, and the data
they lead to. -/
def follow : Nat → List Name → Name → List RR
  | 0, visited, target => z.landing look qtype visited target
  | room + 1, visited, target =>
      match z.hop look qtype visited target with
      | none => z.landing look qtype visited target
      | some (rd, next) =>
          ⟨target, RRType.cname, RRClass.in, z.ttlOf target RRType.cname, rd⟩ ::
            follow room (target :: visited) next

/-- Where a chain comes to when it is followed. -/
inductive Reached : Nat → List Name → Name → Nat → List Name → Name → Prop
  | start (room : Nat) (visited : List Name) (target : Name) :
      Reached room visited target room visited target
  | step {room : Nat} {visited : List Name} {target next : Name} {rd : Rdata} {left : Nat}
      {seen : List Name} {last : Name} (found : z.hop look qtype visited target = some (rd, next))
      (more : Reached room (target :: visited) next left seen last) :
      Reached (room + 1) visited target left seen last

end

/-- The records at a name that are the zone's own: its name is not hashed, and no cut
stands between the apex and it. -/
def ownNode (z : Zone) (qtype : RRType) (name : Name) : Option Node :=
  if (z.topCut name qtype).isSome then none else z.realNode name

/-- The chain is at records that are not the zone's own, and would use them. -/
def Strays (z : Zone) (qtype : RRType) (room : Nat) (visited : List Name) (target : Name) : Prop :=
  ∃ node, z.arrives z.records.get? visited target = some node ∧ z.ownNode qtype target = none ∧
    (node.contains qtype = true ∨ 0 < room ∧ node.contains RRType.cname = true)

theorem ownNode_eq {z : Zone} {qtype : RRType} {name : Name} {node : Node}
    (own : z.ownNode qtype name = some node) : z.records.get? name = some node := by
  rw [ownNode] at own
  split at own
  · cases own
  · exact (Option.filter_eq_some_iff.mp own).1

theorem arrives_own {z : Zone} {qtype : RRType} {visited : List Name} {target : Name} {node : Node}
    (arrived : z.arrives (z.ownNode qtype) visited target = some node) :
    z.arrives z.records.get? visited target = some node := by
  rw [arrives] at arrived ⊢
  split at arrived
  · cases arrived
  · next open_ =>
      rw [if_neg open_]
      exact ownNode_eq arrived

/-- Every record that a chain uses may be looked up among all records, when the own
records are there as well. -/
theorem arrives_eq {z : Zone} {qtype : RRType} {visited : List Name} {target : Name} {node : Node}
    (arrived : z.arrives z.records.get? visited target = some node)
    (own : z.ownNode qtype target ≠ none) :
    z.arrives (z.ownNode qtype) visited target = some node := by
  obtain ⟨other, held⟩ := Option.ne_none_iff_exists'.mp own
  rw [arrives] at arrived ⊢
  split at arrived
  · cases arrived
  · next open_ =>
      have same := ownNode_eq held
      rw [arrived] at same
      rw [if_neg open_, held, same]

theorem Formed.linkAt {z : Zone} (formed : z.Formed) {name : Name} {node : Node}
    (held : z.records.get? name = some node) (chained : node.contains RRType.cname = true) :
    ∃ rd rest target, node.get? RRType.cname = some (rd :: rest) ∧ nameOf rd = .ok target ∧
      Zone.linkAt node = some (rd, target) := by
  obtain ⟨rds, there⟩ := Option.isSome_iff_exists.mp (Dict.contains_iff.mp chained)
  obtain ⟨rd, rest, split⟩ := List.exists_cons_of_ne_nil
    (formed.filled name node RRType.cname rds held there)
  subst split
  obtain ⟨target, rfl⟩ :=
    (formed.suits name node RRType.cname _ held there rd List.mem_cons_self).cname
  refine ⟨_, rest, target, there, rfl, ?_⟩
  rw [Zone.linkAt, there]
  rfl

theorem get?_eq_none_of_contains {node : Node} {t : RRType} (absent : node.contains t = false) :
    node.get? t = none := by
  rw [← Option.not_isSome_iff_eq_none, ← Dict.contains_iff, absent]
  decide

theorem linkAt_of_lacks {node : Node} (absent : node.contains RRType.cname = false) :
    linkAt node = none := by
  rw [linkAt, get?_eq_none_of_contains absent]

theorem follow_of_no_hop {z : Zone} {look : Name → Option Node} {qtype : RRType}
    {visited : List Name} {target : Name} (stuck : z.hop look qtype visited target = none)
    (room : Nat) : z.follow look qtype room visited target = z.landing look qtype visited target := by
  cases room with
  | zero => rfl
  | succ room => rw [follow, stuck]

/-- One round of the loop. -/
theorem chase_step (z : Zone) (qtype : RRType) (fuel : Nat) (ans : List RR) (seen : List Name)
    (cur shown target : Name) (node : Node) (rd : Rdata) (rest : List Rdata)
    (chained : node.get? RRType.cname = some (rd :: rest)) (leads : nameOf rd = .ok target)
    (fresh : seen.any (· == cur) = false) (room : ans.length < maxCnameChain) :
    z.chase qtype false (fuel + 1) ans seen cur node shown =
      let longer := ans ++ [⟨shown, RRType.cname, RRClass.in, z.ttlOf cur RRType.cname, rd⟩]
      match z.arrives z.records.get? (cur :: seen) target with
      | none => .ok longer
      | some nxt =>
          match nxt.get? qtype with
          | some rds => .ok (longer ++ rrset target qtype (z.ttlOf target qtype) rds)
          | none => z.chase qtype false fuel longer (cur :: seen) target nxt target := by
  have go : ¬ (¬ ans.length < maxCnameChain ∨ seen.any (· == cur) = true) := by
    rw [fresh]
    simpa using room
  rw [chase, chained]
  simp only [if_neg go, firstOf]
  change (nameOf rd >>= _) = _
  rw [leads]
  change (if ((cur :: seen).any (· == target) || !z.inBailiwick target) = true then _ else _) = _
  rw [arrives]
  split
  · rfl
  · cases z.records.get? target with
    | none => rfl
    | some nxt => cases nxt.get? qtype <;> rfl

/-- The loop is the chain over all records of the zone. -/
theorem Formed.chase {z : Zone} (formed : z.Formed) (qtype : RRType) (fuel : Nat) (ans : List RR)
    (seen : List Name) (cur shown target : Name) (node : Node) (rd : Rdata) (rest : List Rdata)
    (chained : node.get? RRType.cname = some (rd :: rest)) (leads : nameOf rd = .ok target)
    (fresh : seen.any (· == cur) = false) (room : fuel + 1 + ans.length = maxCnameChain) :
    z.chase qtype false (fuel + 1) ans seen cur node shown = .ok (ans ++
      ⟨shown, RRType.cname, RRClass.in, z.ttlOf cur RRType.cname, rd⟩ ::
        z.follow z.records.get? qtype fuel (cur :: seen) target) := by
  induction fuel generalizing ans seen cur shown target node rd rest with
  | zero =>
      rw [z.chase_step qtype 0 ans seen cur shown target node rd rest chained leads fresh (by omega),
        follow, landing]
      cases z.arrives z.records.get? (cur :: seen) target with
      | none => rfl
      | some nxt =>
          cases found : nxt.get? qtype with
          | none => simp [found, Zone.chase]
          | some rds => simp [found]
  | succ fuel ih =>
      rw [z.chase_step qtype (fuel + 1) ans seen cur shown target node rd rest chained leads fresh
        (by omega)]
      cases arrived : z.arrives z.records.get? (cur :: seen) target with
      | none =>
          have stuck : z.hop z.records.get? qtype (cur :: seen) target = none := by rw [hop, arrived]
          rw [follow_of_no_hop stuck, landing, arrived]
      | some nxt =>
          have there : (cur :: seen).any (· == target) = false ∧ z.records.get? target = some nxt := by
            rw [arrives] at arrived
            split at arrived
            · cases arrived
            · next go =>
                rw [Bool.or_eq_true, not_or, Bool.not_eq_true] at go
                exact ⟨go.1, arrived⟩
          cases found : nxt.get? qtype with
          | some rds =>
              have holds : nxt.contains qtype = true := Dict.contains_iff.mpr (by rw [found]; rfl)
              have stuck : z.hop z.records.get? qtype (cur :: seen) target = none := by
                simp only [hop, arrived, holds, ↓reduceIte]
              rw [follow_of_no_hop stuck, landing, arrived]
              simp [found]
          | none =>
              have lacks : nxt.contains qtype = false := by
                rw [← Bool.not_eq_true, Dict.contains_iff, found]
                decide
              simp only [found]
              by_cases more : nxt.contains RRType.cname = true
              · obtain ⟨rd', rest', next, held, onward, link⟩ := formed.linkAt there.2 more
                have hopped : z.hop z.records.get? qtype (cur :: seen) target = some (rd', next) := by
                  simp only [hop, arrived, lacks, Bool.false_eq_true, ↓reduceIte, link]
                rw [ih _ (cur :: seen) target target next nxt rd' rest' held onward there.1
                  (by rw [List.length_append, List.length_singleton]; omega), follow, hopped]
                simp
              · rw [Bool.not_eq_true] at more
                have stuck : z.hop z.records.get? qtype (cur :: seen) target = none := by
                  simp only [hop, arrived, lacks, Bool.false_eq_true, ↓reduceIte, linkAt_of_lacks more]
                rw [follow_of_no_hop stuck, landing, arrived, Zone.chase, get?_eq_none_of_contains more]
                simp [found]

theorem Reached.of_stuck {z : Zone} {look : Name → Option Node} {qtype : RRType} {room left : Nat}
    {visited seen : List Name} {target last : Name}
    (stuck : room = 0 ∨ z.hop look qtype visited target = none)
    (reached : Reached z look qtype room visited target left seen last) :
    left = room ∧ seen = visited ∧ last = target := by
  cases reached with
  | start => exact ⟨rfl, rfl, rfl⟩
  | step found more =>
      rcases stuck with none | none
      · cases none
      · rw [none] at found
        cases found

/-- Records that are not the zone's own add to an answer when they are of the type,
or a CNAME for which there is room. -/
theorem Formed.follow_eq_nil_iff {z : Zone} (formed : z.Formed) {qtype : RRType} {room : Nat}
    {visited : List Name} {target : Name} {node : Node}
    (arrived : z.arrives z.records.get? visited target = some node) :
    z.follow z.records.get? qtype room visited target = [] ↔
      ¬ (node.contains qtype = true ∨ 0 < room ∧ node.contains RRType.cname = true) := by
  have held : z.records.get? target = some node := by
    rw [arrives] at arrived
    split at arrived
    · cases arrived
    · exact arrived
  by_cases holds : node.contains qtype = true
  · obtain ⟨rds, there⟩ := Option.isSome_iff_exists.mp (Dict.contains_iff.mp holds)
    have stuck : z.hop z.records.get? qtype visited target = none := by
      simp only [hop, arrived, holds, ↓reduceIte]
    have some := formed.filled target node qtype rds held there
    rw [follow_of_no_hop stuck, landing, arrived]
    simpa [there, rrset, holds] using some
  · rw [Bool.not_eq_true] at holds
    have bare : z.landing z.records.get? qtype visited target = [] := by
      rw [landing, arrived]
      simp only [get?_eq_none_of_contains holds]
    cases room with
    | zero => simp [follow, bare, holds]
    | succ room =>
        by_cases chained : node.contains RRType.cname = true
        · obtain ⟨rd, rest, next, -, -, link⟩ := formed.linkAt held chained
          have hopped : z.hop z.records.get? qtype visited target = some (rd, next) := by
            simp only [hop, arrived, holds, Bool.false_eq_true, ↓reduceIte, link]
          rw [follow, hopped]
          simp [chained]
        · rw [Bool.not_eq_true] at chained
          have stuck : z.hop z.records.get? qtype visited target = none := by
            simp only [hop, arrived, holds, Bool.false_eq_true, ↓reduceIte, linkAt_of_lacks chained]
          rw [follow_of_no_hop stuck, bare]
          simp [holds, chained]

/-- The two chains at a name where the zone's own one ends. -/
theorem Formed.follow_eq_iff_of_end {z : Zone} (formed : z.Formed) {qtype : RRType} {room : Nat}
    {visited : List Name} {target : Name}
    (ends : z.arrives (z.ownNode qtype) visited target = none) :
    z.follow z.records.get? qtype room visited target =
        z.follow (z.ownNode qtype) qtype room visited target ↔
      ¬ z.Strays qtype room visited target := by
  have stuck : z.hop (z.ownNode qtype) qtype visited target = none := by rw [hop, ends]
  have bare : z.landing (z.ownNode qtype) qtype visited target = [] := by rw [landing, ends]
  rw [follow_of_no_hop stuck, bare]
  cases arrived : z.arrives z.records.get? visited target with
  | none =>
      have still : z.hop z.records.get? qtype visited target = none := by rw [hop, arrived]
      rw [follow_of_no_hop still, landing, arrived]
      refine iff_of_true rfl ?_
      intro ⟨node, there, _⟩
      rw [arrived] at there
      cases there
  | some node =>
      have foreign : z.ownNode qtype target = none := by
        by_contra own
        rw [arrives_eq arrived own] at ends
        cases ends
      rw [formed.follow_eq_nil_iff arrived]
      apply not_congr
      constructor
      · intro used
        exact ⟨node, arrived, foreign, used⟩
      · intro ⟨other, there, _, used⟩
        rw [arrived, Option.some.injEq] at there
        rwa [there]

/-- The chain over all records is the chain over the zone's own ones exactly when it
never strays. -/
theorem Formed.follow_eq_iff {z : Zone} (formed : z.Formed) (qtype : RRType) (room : Nat)
    (visited : List Name) (target : Name) :
    z.follow z.records.get? qtype room visited target =
        z.follow (z.ownNode qtype) qtype room visited target ↔
      ∀ left seen last, Reached z (z.ownNode qtype) qtype room visited target left seen last →
        ¬ z.Strays qtype left seen last := by
  -- where the chain stops, only its last place is left to look at
  have stops (room : Nat) (visited : List Name) (target : Name)
      (stuck : room = 0 ∨ z.hop (z.ownNode qtype) qtype visited target = none) :
      (∀ left seen last, Reached z (z.ownNode qtype) qtype room visited target left seen last →
        ¬ z.Strays qtype left seen last) ↔ ¬ z.Strays qtype room visited target := by
    constructor
    · intro clean
      exact clean room visited target (.start room visited target)
    · intro clean left seen last reached
      obtain ⟨rfl, rfl, rfl⟩ := reached.of_stuck stuck
      exact clean
  have owned {room : Nat} {visited : List Name} {target : Name} {node : Node}
      (arrived : z.arrives (z.ownNode qtype) visited target = some node) :
      ¬ z.Strays qtype room visited target := by
    intro ⟨_, _, foreign, _⟩
    rw [arrives] at arrived
    split at arrived
    · cases arrived
    · rw [foreign] at arrived
      cases arrived
  induction room generalizing visited target with
  | zero =>
      rw [stops 0 visited target (.inl rfl)]
      cases arrived : z.arrives (z.ownNode qtype) visited target with
      | none => exact formed.follow_eq_iff_of_end arrived
      | some node =>
          refine iff_of_true ?_ (owned arrived)
          rw [follow, follow, landing, landing, arrived, arrives_own arrived]
  | succ room ih =>
      cases arrived : z.arrives (z.ownNode qtype) visited target with
      | none =>
          rw [stops (room + 1) visited target (.inr (by rw [hop, arrived]))]
          exact formed.follow_eq_iff_of_end arrived
      | some node =>
          have same : z.hop z.records.get? qtype visited target =
              z.hop (z.ownNode qtype) qtype visited target := by
            rw [hop, hop, arrived, arrives_own arrived]
          have ends : z.landing z.records.get? qtype visited target =
              z.landing (z.ownNode qtype) qtype visited target := by
            rw [landing, landing, arrived, arrives_own arrived]
          rw [follow, follow, same]
          cases hopped : z.hop (z.ownNode qtype) qtype visited target with
          | none =>
              rw [stops (room + 1) visited target (.inr hopped)]
              exact iff_of_true ends (owned arrived)
          | some link =>
              obtain ⟨rd, next⟩ := link
              simp only [List.cons.injEq, true_and]
              refine (ih (target :: visited) next).trans ?_
              constructor
              · intro clean left seen last reached
                cases reached with
                | start => exact owned arrived
                | step found more =>
                    rw [hopped, Option.some.injEq, Prod.mk.injEq] at found
                    obtain ⟨-, rfl⟩ := found
                    exact clean left seen last more
              · intro clean left seen last reached
                exact clean left seen last (.step hopped reached)

end Zone

end Trench.AuthZone
