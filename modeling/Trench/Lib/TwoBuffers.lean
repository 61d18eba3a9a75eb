import Mathlib
import Trench.Lib.Cursor

set_option autoImplicit false

/- One parser on two buffers. `Agree` is the relational view: from the same place it
fails on both, or returns related values and stops at the same place. -/

namespace Cursor

variable {σ ε α α' β β' : Type}

/-- Two buffers of one length that are the same from `floor` on. -/
structure Shares (d d' : List σ) (floor : Nat) : Prop where
  length : d.length = d'.length
  tail : d.drop floor = d'.drop floor

theorem Shares.drop_eq {d d' : List σ} {floor pos : Nat} (shares : Shares d d' floor)
    (inside : floor ≤ pos) : d.drop pos = d'.drop pos := by
  have offset : pos = floor + (pos - floor) := by omega
  rw [offset, ← List.drop_drop, ← List.drop_drop, shares.tail]

theorem Shares.rest_eq {d d' : List σ} {floor pos : Nat} (shares : Shares d d' floor)
    (inside : floor ≤ pos) : (⟨d, pos⟩ : Cursor σ).rest = (⟨d', pos⟩ : Cursor σ).rest :=
  shares.drop_eq inside

/-- Both fail, or both return, related values, at one place from `floor` on. -/
def Agree (d d' : List σ) (floor : Nat) (R : α → α' → Prop) (p : Parser ε σ α)
    (p' : Parser ε σ α') (pos : Nat) : Prop :=
  match p ⟨d, pos⟩, p' ⟨d', pos⟩ with
  | .ok (v, c), .ok (v', c') => R v v' ∧ ∃ next, floor ≤ next ∧ c = ⟨d, next⟩ ∧ c' = ⟨d', next⟩
  | .error _, .error _ => True
  | _, _ => False

section

variable {d d' : List σ} {floor pos : Nat} {R : α → α' → Prop} {S : β → β' → Prop}

theorem Agree.pure {v : α} {v' : α'} (related : R v v') (inside : floor ≤ pos) :
    Agree d d' floor R (Pure.pure v : Parser ε σ α) (Pure.pure v') pos :=
  ⟨related, pos, inside, rfl, rfl⟩

theorem Agree.throw (e e' : ε) :
    Agree d d' floor R (MonadExcept.throw e : Parser ε σ α) (MonadExcept.throw e') pos := True.intro

/-- What two agreeing parsers return. -/
theorem Agree.cases {p : Parser ε σ α} {p' : Parser ε σ α'} (agree : Agree d d' floor R p p' pos) :
    (∃ e e', p ⟨d, pos⟩ = .error e ∧ p' ⟨d', pos⟩ = .error e') ∨
      ∃ v v' next, R v v' ∧ floor ≤ next ∧ p ⟨d, pos⟩ = .ok (v, ⟨d, next⟩) ∧
        p' ⟨d', pos⟩ = .ok (v', ⟨d', next⟩) := by
  unfold Agree at agree
  split at agree
  · next v c v' c' first second =>
    obtain ⟨related, next, inside, rfl, rfl⟩ := agree
    exact .inr ⟨v, v', next, related, inside, first, second⟩
  · next e e' first second => exact .inl ⟨e, e', first, second⟩
  · exact agree.elim

theorem Agree.of_ok {p : Parser ε σ α} {p' : Parser ε σ α'} {v : α} {v' : α'} {next : Nat}
    (first : p ⟨d, pos⟩ = .ok (v, ⟨d, next⟩)) (second : p' ⟨d', pos⟩ = .ok (v', ⟨d', next⟩))
    (related : R v v') (inside : floor ≤ next) : Agree d d' floor R p p' pos := by
  unfold Agree
  rw [first, second]
  exact ⟨related, next, inside, rfl, rfl⟩

theorem Agree.of_error {p : Parser ε σ α} {p' : Parser ε σ α'} {e e' : ε}
    (first : p ⟨d, pos⟩ = .error e) (second : p' ⟨d', pos⟩ = .error e') :
    Agree d d' floor R p p' pos := by
  unfold Agree
  rw [first, second]
  trivial

theorem Agree.mono {S' : α → α' → Prop} {p : Parser ε σ α} {p' : Parser ε σ α'}
    (agree : Agree d d' floor R p p' pos) (weaker : ∀ v v', R v v' → S' v v') :
    Agree d d' floor S' p p' pos := by
  rcases agree.cases with ⟨e, e', one, two⟩ | ⟨v, v', next, related, inside, one, two⟩
  · exact .of_error one two
  · exact .of_ok one two (weaker v v' related) inside

/-- A step that succeeds on both, wherever it stops. -/
theorem Agree.step {p : Parser ε σ α} {p' : Parser ε σ α'} {f : α → Parser ε σ β}
    {f' : α' → Parser ε σ β'} {v : α} {v' : α'} {next : Nat}
    (first : p ⟨d, pos⟩ = .ok (v, ⟨d, next⟩)) (second : p' ⟨d', pos⟩ = .ok (v', ⟨d', next⟩))
    (later : Agree d d' floor S (f v) (f' v') next) :
    Agree d d' floor S (p >>= f) (p' >>= f') pos := by
  unfold Agree at later ⊢
  rw [bind_ok first, bind_ok second]
  exact later

/-- A step that fails on both. -/
theorem Agree.stop {p : Parser ε σ α} {p' : Parser ε σ α'} {f : α → Parser ε σ β}
    {f' : α' → Parser ε σ β'} {e e' : ε} (first : p ⟨d, pos⟩ = .error e)
    (second : p' ⟨d', pos⟩ = .error e') : Agree d d' floor S (p >>= f) (p' >>= f') pos :=
  .of_error (bind_error first) (bind_error second)

/-- A test with one outcome on both. -/
theorem Agree.test_iff {condition condition' : Prop} [Decidable condition] [Decidable condition']
    {e e' : ε} {f : Unit → Parser ε σ β} {f' : Unit → Parser ε σ β'} (same : condition ↔ condition')
    (later : ¬ condition → Agree d d' floor S (f ()) (f' ()) pos) :
    Agree d d' floor S (Cursor.raiseIf condition e >>= f) (Cursor.raiseIf condition' e' >>= f') pos := by
  have fails {condition : Prop} [Decidable condition] {e : ε} (raised : condition) (c : Cursor σ) :
      (Cursor.raiseIf condition e : Parser ε σ Unit) c = .error e := by
    rw [Cursor.raiseIf, if_pos raised, throw_apply]
  by_cases raised : condition
  · exact .stop (fails raised _) (fails (same.mp raised) _)
  · have fine : ¬ condition' := fun raised' => raised (same.mpr raised')
    exact .step (raiseIf_apply e _ raised) (raiseIf_apply e' _ fine) (later raised)

theorem Agree.test {condition : Prop} [Decidable condition] {e : ε} {f : Unit → Parser ε σ β}
    {f' : Unit → Parser ε σ β'} (later : ¬ condition → Agree d d' floor S (f ()) (f' ()) pos) :
    Agree d d' floor S (Cursor.raiseIf condition e >>= f) (Cursor.raiseIf condition e >>= f') pos :=
  Agree.test_iff Iff.rfl later

/-- The rest of a sequence may use where the first step stopped, and that it did. -/
theorem Agree.bind {p : Parser ε σ α} {p' : Parser ε σ α'} {f : α → Parser ε σ β}
    {f' : α' → Parser ε σ β'} (first : Agree d d' floor R p p' pos)
    (later : ∀ v v' next, R v v' → floor ≤ next → p ⟨d, pos⟩ = .ok (v, ⟨d, next⟩) →
      Agree d d' floor S (f v) (f' v') next) :
    Agree d d' floor S (p >>= f) (p' >>= f') pos := by
  rcases first.cases with ⟨e, e', one, two⟩ | ⟨v, v', next, related, inside, one, two⟩
  · exact .of_error (bind_error one) (bind_error two)
  · have rest := later v v' next related inside one
    unfold Agree at rest ⊢
    rw [bind_ok one, bind_ok two]
    exact rest

/-- After a step that gives the same value on both. -/
theorem Agree.then {p : Parser ε σ α} {f : α → Parser ε σ β} {f' : α → Parser ε σ β'}
    (first : Agree d d' floor Eq p p pos)
    (later : ∀ v next, floor ≤ next → p ⟨d, pos⟩ = .ok (v, ⟨d, next⟩) →
      Agree d d' floor S (f v) (f' v) next) :
    Agree d d' floor S (p >>= f) (p >>= f') pos :=
  first.bind fun v _ next same inside one => by
    cases same
    exact later v next inside one

end

end Cursor
