import Mathlib

set_option autoImplicit false

/- Following a partial function for so many steps, up to the first thing that was seen before.
What is seen is compared with `==`. -/
namespace Follow

variable {α : Type} [BEq α] (next : α → Option α)

def follow : Nat → α → List α → List α
  | 0, _, seen => seen
  | fuel + 1, cur, seen =>
      match next cur with
      | none => seen
      | some n => if seen.any fun link => link == n then seen else follow fuel n (seen ++ [n])

/-- What so many steps from a start lead to. -/
inductive Reached (start : α) : Nat → α → Prop where
  | here : Reached start 0 start
  | step {k : Nat} {a b : α} (reached : Reached start k a) (goes : next a = some b) : Reached start (k + 1) b

/-- Each link is the next of the one before. -/
def Linked : α → List α → Prop
  | _, [] => True
  | cur, n :: rest => next cur = some n ∧ Linked n rest

variable {next}

theorem linked_get {cur : α} {links : List α} (linked : Linked next cur links) {i : Nat} {a b : α}
    (this : (cur :: links)[i]? = some a) (that : (cur :: links)[i + 1]? = some b) : next a = some b := by
  induction links generalizing cur i with
  | nil => cases that
  | cons n rest ih =>
      obtain ⟨goes, more⟩ := linked
      cases i with
      | zero =>
          cases this
          cases that
          exact goes
      | succ i => exact ih more this that

/-- Where the walk ends there is no step left, or nothing comes next, or something seen does. -/
theorem follow_spec (next : α → Option α) (fuel : Nat) (cur : α) (seen : List α) : ∃ more, follow next fuel cur seen = seen ++ more ∧
    Linked next cur more ∧ more.length ≤ fuel ∧
    (more.length = fuel ∨ ∀ last, (cur :: more)[more.length]? = some last → ∀ n, next last = some n →
      ∃ link ∈ seen ++ more, (link == n) = true) := by
  induction fuel generalizing cur seen with
  | zero => exact ⟨[], (List.append_nil _).symm, trivial, le_rfl, .inl rfl⟩
  | succ fuel ih =>
      rw [follow]
      cases goes : next cur with
      | none =>
          refine ⟨[], (List.append_nil _).symm, trivial, Nat.zero_le _, .inr ?_⟩
          rintro last ⟨⟩ n found
          rw [goes] at found
          cases found
      | some n =>
          dsimp only
          by_cases met : (seen.any fun link => link == n) = true
          · rw [if_pos met]
            refine ⟨[], (List.append_nil _).symm, trivial, Nat.zero_le _, .inr ?_⟩
            rintro last ⟨⟩ m found
            rw [goes] at found
            cases found
            rw [List.append_nil]
            exact List.any_eq_true.mp met
          · rw [if_neg met]
            obtain ⟨more, same, linked, short, stops⟩ := ih n (seen ++ [n])
            refine ⟨n :: more, ?_, ⟨goes, linked⟩, Nat.succ_le_succ short, ?_⟩
            · rw [same, List.append_assoc, List.singleton_append]
            · refine stops.imp (congrArg Nat.succ) fun ends last found m leads => ?_
              obtain ⟨link, held, here⟩ := ends last found m leads
              rw [List.append_assoc, List.singleton_append] at held
              exact ⟨link, held, here⟩

theorem reached_of_linked {start cur : α} {k : Nat} (reached : Reached next start k cur) {links : List α}
    (linked : Linked next cur links) : ∀ n ∈ links, ∃ j ≤ k + links.length, Reached next start j n := by
  induction links generalizing cur k with
  | nil => exact fun n held => absurd held List.not_mem_nil
  | cons n rest ih =>
      obtain ⟨goes, more⟩ := linked
      have one := reached.step goes
      rw [List.forall_mem_cons, List.length_cons]
      refine ⟨⟨k + 1, by omega, one⟩, fun m held => ?_⟩
      obtain ⟨j, bound, there⟩ := ih one more m held
      exact ⟨j, by omega, there⟩

/-- What the walk meets is what as many steps lead to. -/
theorem mem_follow [EquivBEq α] (alike : ∀ {a b : α}, (a == b) = true → next a = next b) (fuel : Nat) (start n : α) :
    (∃ link ∈ follow next fuel start [start], (link == n) = true) ↔
      ∃ k ≤ fuel, ∃ m, Reached next start k m ∧ (m == n) = true := by
  obtain ⟨more, same, linked, short, stops⟩ := follow_spec next fuel start [start]
  rw [same, List.singleton_append]
  constructor
  · rintro ⟨link, held, here⟩
    rcases List.mem_cons.mp held with rfl | later
    · exact ⟨0, Nat.zero_le _, link, .here, here⟩
    · obtain ⟨k, bound, there⟩ := reached_of_linked .here linked link later
      exact ⟨k, by omega, link, there, here⟩
  · -- no step leads past the links, and the one that was met last leads back to them
    have met : ∀ k m, Reached next start k m → k ≤ fuel →
        ∃ i ≤ k, ∃ link, (start :: more)[i]? = some link ∧ (link == m) = true := by
      intro k m reached
      induction reached with
      | here => exact fun _ => ⟨0, le_rfl, start, rfl, BEq.rfl⟩
      | @step k a b reached goes ih =>
          intro bound
          obtain ⟨i, less, link, found, equal⟩ := ih (Nat.le_of_succ_le bound)
          have leads : next link = some b := (alike equal).trans goes
          cases follows : (start :: more)[i + 1]? with
          | some other =>
              rw [linked_get linked found follows] at leads
              cases leads
              exact ⟨i + 1, Nat.succ_le_succ less, b, follows, BEq.rfl⟩
          | none =>
              have inside := List.getElem?_eq_some_iff.mp found |>.1
              have outside := List.getElem?_eq_none_iff.mp follows
              rw [List.length_cons] at inside outside
              have last : i = more.length := by omega
              subst last
              rcases stops with full | ends
              · omega
              · obtain ⟨other, held, same⟩ := ends link found b leads
                obtain ⟨j, here⟩ := List.mem_iff_getElem?.mp held
                have within := List.getElem?_eq_some_iff.mp here |>.1
                rw [List.singleton_append, List.length_cons] at within
                exact ⟨j, by omega, other, here, same⟩
    rintro ⟨k, bound, m, reached, equal⟩
    obtain ⟨i, -, link, found, here⟩ := met k m reached bound
    exact ⟨link, List.mem_of_getElem? found, BEq.trans here equal⟩

theorem mem_follow_of_mem (fuel : Nat) (cur : α) {seen : List α} {n : α} (held : n ∈ seen) :
    n ∈ follow next fuel cur seen := by
  obtain ⟨more, same, -⟩ := follow_spec next fuel cur seen
  rw [same]
  exact List.mem_append_left more held

/-- A walk sees nothing but what comes next for what it meets. -/
theorem follow_congr {next' : α → Option α} (fuel : Nat) {cur : α} {seen : List α} (held : cur ∈ seen)
    (agree : ∀ n ∈ follow next fuel cur seen, next' n = next n) :
    follow next' fuel cur seen = follow next fuel cur seen := by
  induction fuel generalizing cur seen with
  | zero => rfl
  | succ fuel ih =>
      have here := agree cur (mem_follow_of_mem _ cur held)
      rw [follow] at agree ⊢
      rw [follow, here]
      cases goes : next cur with
      | none => rfl
      | some n =>
          rw [goes] at agree
          dsimp only at agree ⊢
          split
          · rfl
          · next fresh =>
              rw [if_neg fresh] at agree
              exact ih (List.mem_append_right seen (List.mem_singleton.mpr rfl)) agree

end Follow
