import Trench.Lib.Cursor

set_option autoImplicit false

/- Parsers on a buffer and on one that goes on. `Stands` is about what stays when symbols are added,
`Within` about what stays when those behind the cursor are dropped, `Completes` about what some more
symbols let come to an end. -/
namespace Cursor

variable {σ ε α β : Type}

/-- The same place in a longer buffer. -/
def append (c : Cursor σ) (tail : List σ) : Cursor σ := { c with buf := c.buf ++ tail }

/-- The same place in a buffer cut short. -/
def cut (c : Cursor σ) (n : Nat) : Cursor σ := { c with buf := c.buf.take n }

@[simp] theorem append_pos (c : Cursor σ) (tail : List σ) : (c.append tail).pos = c.pos := rfl
@[simp] theorem append_buf (c : Cursor σ) (tail : List σ) : (c.append tail).buf = c.buf ++ tail := rfl
@[simp] theorem cut_pos (c : Cursor σ) (n : Nat) : (c.cut n).pos = c.pos := rfl
@[simp] theorem cut_buf (c : Cursor σ) (n : Nat) : (c.cut n).buf = c.buf.take n := rfl

theorem append_append (c : Cursor σ) (first second : List σ) :
    (c.append first).append second = c.append (first ++ second) := by
  simp only [append, List.append_assoc]

theorem append_nil (c : Cursor σ) : c.append [] = c := by
  simp only [append, List.append_nil]

theorem rest_append {c : Cursor σ} (tail : List σ) (inside : c.pos ≤ c.buf.length) :
    (c.append tail).rest = c.rest ++ tail := by
  rw [rest, append, List.drop_append_of_le_length inside, rest]

theorem rest_cut (c : Cursor σ) (n : Nat) : (c.cut n).rest = c.rest.take (n - c.pos) := by
  rw [rest, cut, List.drop_take, rest]

/-! ### More symbols -/

/-- What the parser gives stays when symbols are added, and only a failure for lack of symbols may mend. -/
structure Stands (lacks : ε → Prop) (p : Parser ε σ α) : Prop where
  ok : ∀ (c : Cursor σ) (v : α) (next : Cursor σ) (tail : List σ), p c = .ok (v, next) →
    p (c.append tail) = .ok (v, next.append tail)
  error : ∀ (c : Cursor σ) (e : ε) (tail : List σ), p c = .error e → ¬lacks e → ∃ e', p (c.append tail) = .error e'

namespace Stands

variable {lacks : ε → Prop}

theorem pure (v : α) : Stands lacks (Pure.pure v : Parser ε σ α) where
  ok c w next tail same := by
    cases same
    rfl
  error c e tail failed := by cases failed

theorem throw (e : ε) : Stands lacks (MonadExcept.throw e : Parser ε σ α) where
  ok c w next tail same := by cases same
  error c e tail _ _ := ⟨_, rfl⟩

theorem bind {p : Parser ε σ α} {f : α → Parser ε σ β} (head : Stands lacks p)
    (next : ∀ v, Stands lacks (f v)) : Stands lacks (p >>= f) where
  ok c w last tail done := by
    obtain ⟨v, middle, first, second⟩ := bind_eq_ok.mp done
    rw [bind_ok (head.ok c v middle tail first)]
    exact (next v).ok middle w last tail second
  error c e tail failed fatal := by
    cases first : p c with
    | error e' =>
        rw [bind_error first] at failed
        cases failed
        obtain ⟨e', still⟩ := head.error c e tail first fatal
        exact ⟨e', bind_error still⟩
    | ok both =>
        obtain ⟨v, middle⟩ := both
        rw [bind_ok first] at failed
        rw [bind_ok (head.ok c v middle tail first)]
        exact (next v).error middle e tail failed fatal

theorem raiseIf {condition : Prop} [Decidable condition] (e : ε) :
    Stands lacks (Cursor.raiseIf condition e : Parser ε σ Unit) := by
  by_cases fine : condition
  · rw [Cursor.raiseIf, if_pos fine]
    exact throw e
  · rw [Cursor.raiseIf, if_neg fine]
    exact pure ()

end Stands

/-! ### Fewer symbols -/

/-- The parser goes onwards, and needs no symbol behind the place where it ends. -/
def Within (p : Parser ε σ α) : Prop :=
  ∀ (c : Cursor σ) (v : α) (next : Cursor σ), p c = .ok (v, next) → next.buf = c.buf ∧ c.pos ≤ next.pos ∧
    ∀ n, next.pos ≤ n → p (c.cut n) = .ok (v, next.cut n)

namespace Within

theorem pure (v : α) : Within (Pure.pure v : Parser ε σ α) := by
  intro c w next same
  cases same
  exact ⟨rfl, Nat.le_refl _, fun n _ => rfl⟩

theorem bind {p : Parser ε σ α} {f : α → Parser ε σ β} (head : Within p) (next : ∀ v, Within (f v)) :
    Within (p >>= f) := by
  intro c w last done
  obtain ⟨v, middle, first, second⟩ := bind_eq_ok.mp done
  obtain ⟨same, onwards, short⟩ := head c v middle first
  obtain ⟨same', onwards', short'⟩ := next v middle w last second
  refine ⟨same'.trans same, onwards.trans onwards', fun n behind => ?_⟩
  rw [bind_ok (short n (onwards'.trans behind))]
  exact short' n behind

end Within

/-! ### Enough symbols -/

/-- With enough of one symbol added, the parser comes to an end. -/
def Completes (fill : σ) (p : Parser ε σ α) : Prop :=
  ∀ c : Cursor σ, ∃ n v next, p (c.append (List.replicate n fill)) = .ok (v, next)

namespace Completes

variable {fill : σ}

theorem pure (v : α) : Completes fill (Pure.pure v : Parser ε σ α) := fun _ => ⟨0, v, _, rfl⟩

theorem bind {lacks : ε → Prop} {p : Parser ε σ α} {f : α → Parser ε σ β} (head : Completes fill p)
    (stands : Stands lacks p) (next : ∀ v, Completes fill (f v)) : Completes fill (p >>= f) := by
  intro c
  obtain ⟨first, v, middle, begun⟩ := head c
  obtain ⟨second, w, last, ended⟩ := next v middle
  refine ⟨first + second, w, last, ?_⟩
  rw [List.replicate_add, ← append_append, bind_ok (stands.ok _ _ _ _ begun)]
  exact ended

end Completes

/-! ### The place where it ends -/

/-- Set at `pos`, the parser ends at `stop` if it ends. -/
def EndsAt (p : Parser ε σ α) (pos stop : Nat) : Prop :=
  ∀ (c : Cursor σ) (v : α) (next : Cursor σ), c.pos = pos → p c = .ok (v, next) → next.pos = stop

namespace EndsAt

theorem pure (v : α) (pos : Nat) : EndsAt (Pure.pure v : Parser ε σ α) pos pos := by
  intro c w next here same
  cases same
  exact here

theorem bind {p : Parser ε σ α} {f : α → Parser ε σ β} {pos mid stop : Nat} (head : EndsAt p pos mid)
    (next : ∀ v, EndsAt (f v) mid stop) : EndsAt (p >>= f) pos stop := by
  intro c w last here done
  obtain ⟨v, middle, first, second⟩ := bind_eq_ok.mp done
  exact next v middle w last (head c v middle here first) second

/-- Wherever the first part ends, the rest ends at one place. -/
theorem bind_any {p : Parser ε σ α} {f : α → Parser ε σ β} {pos stop : Nat}
    (next : ∀ v mid, EndsAt (f v) mid stop) : EndsAt (p >>= f) pos stop := by
  intro c w last here done
  obtain ⟨v, middle, first, second⟩ := bind_eq_ok.mp done
  exact next v middle.pos middle w last rfl second

end EndsAt

end Cursor
