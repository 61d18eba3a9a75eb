import Mathlib

set_option autoImplicit false

/- The first of the elements of a list that have the greatest value. -/
namespace FirstMax

variable {α β : Type} [LinearOrder β] {f : α → β}

/-- The higher of two, the first of them where they are level. -/
def higher (f : α → β) : Option α → Option α → Option α
  | none, b => b
  | some a, none => some a
  | some a, some b => if f a < f b then some b else some a

/-- Nothing is higher, and among those that are level it comes first. -/
theorem argmax_eq_some_iff {l : List α} {m : α} :
    l.argmax f = some m ↔ (∀ a ∈ l, f a ≤ f m) ∧ l.find? (fun a => decide (f a = f m)) = some m := by
  induction l generalizing m with
  | nil => exact iff_of_false (fun found => nomatch found) fun both => nomatch both.2
  | cons a l ih =>
      rw [List.argmax_cons, List.forall_mem_cons, List.find?_cons]
      cases rest : l.argmax f with
      | none =>
          rw [List.argmax_eq_none] at rest
          subst rest
          rw [Option.some.injEq]
          constructor
          · rintro rfl
            rw [decide_eq_true rfl]
            exact ⟨⟨le_rfl, fun b listed => absurd listed List.not_mem_nil⟩, rfl⟩
          · rintro ⟨-, found⟩
            split at found
            · exact Option.some.inj found
            · cases found
      | some c =>
          obtain ⟨highest, first⟩ := ih.mp rest
          dsimp only
          by_cases lower : f a < f c
          · rw [if_pos lower, Option.some.injEq]
            constructor
            · rintro rfl
              rw [decide_eq_false (ne_of_lt lower)]
              exact ⟨⟨lower.le, highest⟩, first⟩
            · rintro ⟨⟨under, most⟩, found⟩
              have level : f a ≠ f m := by
                have above := most c (List.mem_of_find?_eq_some first)
                exact ne_of_lt (lower.trans_le above)
              rw [decide_eq_false level] at found
              exact Option.some.inj (rest.symm.trans (ih.mpr ⟨most, found⟩))
          · rw [if_neg lower, Option.some.injEq]
            constructor
            · rintro rfl
              rw [decide_eq_true rfl]
              exact ⟨⟨le_rfl, fun b listed => (highest b listed).trans (not_lt.mp lower)⟩, rfl⟩
            · rintro ⟨⟨under, most⟩, found⟩
              by_cases level : f a = f m
              · rw [decide_eq_true level] at found
                exact Option.some.inj found
              · rw [decide_eq_false level] at found
                have listed := List.mem_of_find?_eq_some found
                exact absurd (le_antisymm under ((highest m listed).trans (not_lt.mp lower))) level

theorem argmax_append (l m : List α) : (l ++ m).argmax f = higher f (l.argmax f) (m.argmax f) := by
  induction l with
  | nil => rfl
  | cons a l ih =>
      rw [List.cons_append, List.argmax_cons, ih, List.argmax_cons]
      cases l.argmax f with
      | none => cases m.argmax f <;> rfl
      | some b =>
          cases m.argmax f with
          | none => dsimp only [higher]; split <;> rfl
          | some c =>
              dsimp only [higher]
              by_cases first : f b < f c
              · rw [if_pos first]
                dsimp only
                by_cases second : f a < f b
                · rw [if_pos second, if_pos (second.trans first)]
                  dsimp only
                  rw [if_pos first]
                · rw [if_neg second]
              · rw [if_neg first]
                dsimp only
                by_cases second : f a < f b
                · rw [if_pos second]
                  dsimp only
                  rw [if_neg first]
                · rw [if_neg second]
                  dsimp only
                  rw [if_neg (not_lt.mpr ((not_lt.mp first).trans (not_lt.mp second)))]

/-- Only what the values say of an element can tell. -/
theorem argmax_map {γ : Type} {g : α → γ} {f' : γ → β} (same : ∀ a, f' (g a) = f a) (l : List α) :
    (l.map g).argmax f' = (l.argmax f).map g := by
  induction l with
  | nil => rfl
  | cons a l ih =>
      rw [List.map_cons, List.argmax_cons, ih, List.argmax_cons]
      cases l.argmax f with
      | none => rfl
      | some b =>
          dsimp only [Option.map_some]
          rw [same, same]
          split <;> rfl

end FirstMax
