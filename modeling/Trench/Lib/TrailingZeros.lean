import Mathlib

set_option autoImplicit false

/- Numbers written as lists, the most significant first, where zeros at the end do not count. -/
namespace TrailingZeros

def core : List Nat → List Nat
  | [] => []
  | x :: xs => if x = 0 ∧ core xs = [] then [] else x :: core xs

/-- The list filled up with zeros to so many entries. -/
def pad (n : Nat) (l : List Nat) : List Nat :=
  if l.length < n then l ++ List.replicate (n - l.length) 0 else l

theorem length_pad (n : Nat) (l : List Nat) : (pad n l).length = max n l.length := by
  unfold pad
  split
  · rw [List.length_append, List.length_replicate]
    omega
  · omega

theorem core_replicate (n : Nat) : core (List.replicate n 0) = [] := by
  induction n with
  | zero => rfl
  | succ n ih => rw [List.replicate_succ, core, if_pos ⟨rfl, ih⟩]

theorem core_append_zeros (l : List Nat) (n : Nat) : core (l ++ List.replicate n 0) = core l := by
  induction l with
  | nil => exact core_replicate n
  | cons x l ih => rw [List.cons_append, core, core, ih]

theorem core_pad (n : Nat) (l : List Nat) : core (pad n l) = core l := by
  unfold pad
  split
  · exact core_append_zeros l _
  · rfl

/-- Lists compare by what they are without the zeros at the end, then by length. -/
theorem lt_iff (a b : List Nat) : a < b ↔ core a < core b ∨ core a = core b ∧ a.length < b.length := by
  induction a generalizing b with
  | nil =>
      cases b with
      | nil => simp
      | cons y ys =>
          rw [core, core]
          split
          · simp
          · simp
  | cons x xs ih =>
      cases b with
      | nil => simp [core]
      | cons y ys =>
          rw [List.cons_lt_cons_iff, ih ys, core, core]
          split <;> split
          · next none none' => simp [none, none']
          · next none some =>
              obtain ⟨rfl, none⟩ := none
              rw [none]
              rcases Nat.eq_zero_or_pos y with rfl | positive
              · have tail : core ys ≠ [] := fun nil => some ⟨rfl, nil⟩
                obtain ⟨z, zs, cut⟩ := List.exists_cons_of_ne_nil tail
                simp [cut]
              · simp [positive]
          · next some none =>
              obtain ⟨rfl, none⟩ := none
              rw [none]
              rcases Nat.eq_zero_or_pos x with rfl | positive
              · have tail : core xs ≠ [] := fun nil => some ⟨rfl, nil⟩
                simp [tail]
              · simp
                omega
          · next some some' =>
              rw [List.cons_lt_cons_iff, List.length_cons, List.length_cons]
              simp only [List.cons.injEq, Nat.add_lt_add_iff_right]
              tauto

theorem eq_iff (a b : List Nat) : a = b ↔ core a = core b ∧ a.length = b.length := by
  constructor
  · rintro rfl
    exact ⟨rfl, rfl⟩
  · rintro ⟨same, level⟩
    apply le_antisymm <;> rw [← not_lt, lt_iff, same, level] <;> simp

end TrailingZeros
