import Mathlib

set_option autoImplicit false

/- Parsers that read a buffer through a cursor which may move both ways. `Parses`
is the forward view: such a parser, set before given symbols, consumes exactly
these and returns a given value. `Ensures` is the backward view: what is known of
every value it can return. -/

structure Cursor (σ : Type) where
  buf : List σ
  pos : Nat
  deriving DecidableEq

namespace Cursor

variable {σ ε α β : Type}

/-- The symbols not read yet. -/
def rest (c : Cursor σ) : List σ := c.buf.drop c.pos

def advance (c : Cursor σ) (n : Nat) : Cursor σ := { c with pos := c.pos + n }

@[simp] theorem advance_pos (c : Cursor σ) (n : Nat) : (c.advance n).pos = c.pos + n := rfl
@[simp] theorem advance_buf (c : Cursor σ) (n : Nat) : (c.advance n).buf = c.buf := rfl

@[simp] theorem advance_zero (c : Cursor σ) : c.advance 0 = c := rfl

theorem advance_advance (c : Cursor σ) (m n : Nat) :
    (c.advance m).advance n = c.advance (m + n) := by
  simp only [advance, Nat.add_assoc]

theorem rest_advance (c : Cursor σ) (n : Nat) : (c.advance n).rest = c.rest.drop n := by
  simp only [rest, advance, List.drop_drop]

theorem rest_advance_append (c : Cursor σ) {first tail : List σ}
    (here : c.rest = first ++ tail) : (c.advance first.length).rest = tail := by
  rw [rest_advance, here, List.drop_left]

/-- Something is left to read only inside the buffer. -/
theorem pos_lt_of_rest_cons {c : Cursor σ} {head : σ} {tail : List σ}
    (here : c.rest = head :: tail) : c.pos < c.buf.length := by
  by_contra outside
  rw [rest, List.drop_eq_nil_of_le (not_lt.mp outside)] at here
  cases here

theorem length_rest (c : Cursor σ) : c.rest.length = c.buf.length - c.pos :=
  List.length_drop

abbrev Parser (ε σ α : Type) := StateT (Cursor σ) (Except ε) α

theorem bind_apply (p : Parser ε σ α) (f : α → Parser ε σ β) (c : Cursor σ) :
    (p >>= f) c = match p c with
      | .ok (v, next) => f v next
      | .error e => .error e := by
  change Except.bind (p c) _ = _
  cases p c <;> rfl

theorem bind_ok {p : Parser ε σ α} {f : α → Parser ε σ β} {c next : Cursor σ} {v : α}
    (first : p c = .ok (v, next)) : (p >>= f) c = f v next := by
  rw [bind_apply, first]

theorem bind_error {p : Parser ε σ α} {f : α → Parser ε σ β} {c : Cursor σ} {e : ε}
    (failed : p c = .error e) : (p >>= f) c = .error e := by
  rw [bind_apply, failed]

/-- A successful sequence splits at its intermediate value. -/
theorem bind_eq_ok {p : Parser ε σ α} {f : α → Parser ε σ β} {c last : Cursor σ} {w : β} :
    (p >>= f) c = .ok (w, last) ↔
      ∃ v next, p c = .ok (v, next) ∧ f v next = .ok (w, last) := by
  rw [bind_apply]
  cases p c with
  | error e => simp
  | ok pair =>
      obtain ⟨v, next⟩ := pair
      exact ⟨fun h => ⟨v, next, rfl, h⟩, by rintro ⟨_, _, same, h⟩; cases same; exact h⟩

theorem pure_apply (v : α) (c : Cursor σ) : (pure v : Parser ε σ α) c = .ok (v, c) := rfl

theorem throw_apply (e : ε) (c : Cursor σ) :
    (throw e : Parser ε σ α) c = .error e := rfl

/-- Stop with an error when a condition holds. -/
def raiseIf (condition : Prop) [Decidable condition] (e : ε) : Parser ε σ Unit :=
  if condition then throw e else pure ()

theorem raiseIf_apply {condition : Prop} [Decidable condition] (e : ε) (c : Cursor σ)
    (fine : ¬ condition) : (raiseIf condition e : Parser ε σ Unit) c = .ok ((), c) := by
  rw [raiseIf, if_neg fine, pure_apply]

theorem bind_congr {p : Parser ε σ α} {f g : α → Parser ε σ β} (same : ∀ v, f v = g v) :
    p >>= f = p >>= g := by
  rw [show f = g from funext same]

theorem raiseIf_bind_congr {condition : Prop} [Decidable condition] {e : ε}
    {f g : Unit → Parser ε σ α} (same : ¬ condition → f () = g ()) :
    raiseIf condition e >>= f = raiseIf condition e >>= g := by
  funext c
  by_cases fine : condition
  · have failed : (raiseIf condition e : Parser ε σ Unit) c = .error e := by
      rw [raiseIf, if_pos fine, throw_apply]
    rw [bind_error failed, bind_error failed]
  · rw [bind_ok (raiseIf_apply e c fine), bind_ok (raiseIf_apply e c fine), same fine]

/-! ### Forward: consuming given symbols -/

/-- The cursor stands inside the buffer or at its end, before the given symbols. -/
structure Before (c : Cursor σ) (pos : Nat) (symbols : List σ) : Prop where
  pos_eq : c.pos = pos
  inside : c.pos ≤ c.buf.length
  rest_eq : c.rest = symbols

theorem Before.advance {c : Cursor σ} {pos : Nat} {first tail : List σ}
    (here : Before c pos (first ++ tail)) :
    Before (c.advance first.length) (pos + first.length) tail := by
  have total := congrArg List.length here.rest_eq
  rw [length_rest, List.length_append] at total
  have inside := here.inside
  exact ⟨by rw [advance_pos, here.pos_eq], by simp only [advance_pos, advance_buf]; omega,
    rest_advance_append c here.rest_eq⟩

/-- Set at `pos` before `symbols`, the parser consumes them and returns `v`,
whatever follows. -/
def Parses (p : Parser ε σ α) (pos : Nat) (symbols : List σ) (v : α) : Prop :=
  ∀ (c : Cursor σ) (tail : List σ), Before c pos (symbols ++ tail) →
    p c = .ok (v, c.advance symbols.length)

theorem Parses.pure (pos : Nat) (v : α) : Parses (Pure.pure v : Parser ε σ α) pos [] v :=
  fun _ _ _ => rfl

theorem Parses.bind {p : Parser ε σ α} {f : α → Parser ε σ β} {pos : Nat}
    {first second : List σ} {v : α} {w : β} (head : Parses p pos first v)
    (next : Parses (f v) (pos + first.length) second w) :
    Parses (p >>= f) pos (first ++ second) w := by
  intro c tail here
  rw [List.append_assoc] at here
  rw [bind_ok (head c _ here), next _ tail here.advance, advance_advance, List.length_append]

theorem Parses.raiseIf {condition : Prop} [Decidable condition] {e : ε} (pos : Nat)
    (fine : ¬ condition) : Parses (Cursor.raiseIf condition e : Parser ε σ Unit) pos [] () :=
  fun c _ _ => raiseIf_apply e c fine

/-- The last step of a sequence consumes nothing. -/
theorem Parses.bind_pure {p : Parser ε σ α} {pos : Nat} {symbols : List σ} {v : α} {f : α → β}
    (head : Parses p pos symbols v) :
    Parses (p >>= fun x => Pure.pure (f x)) pos symbols (f v) := by
  have both := Parses.bind (f := fun x => (Pure.pure (f x) : Parser ε σ β)) head
    (Parses.pure _ (f v))
  rwa [List.append_nil] at both

theorem Parses.congr {p : Parser ε σ α} {pos : Nat} {symbols others : List σ} {v : α}
    (head : Parses p pos symbols v) (same : others = symbols) : Parses p pos others v :=
  same ▸ head

/-- Set at `pos` before `front`, a parser behaves like another one behind it. -/
def Leads (p q : Parser ε σ α) (pos : Nat) (front : List σ) : Prop :=
  ∀ (c : Cursor σ) (tail : List σ), Before c pos (front ++ tail) → p c = q (c.advance front.length)

theorem Leads.refl (p : Parser ε σ α) (pos : Nat) : Leads p p pos [] := fun _ _ _ => rfl

theorem Leads.congr {p q : Parser ε σ α} {pos : Nat} {front others : List σ}
    (leads : Leads p q pos front) (same : others = front) : Leads p q pos others :=
  same ▸ leads

theorem Parses.leads {p : Parser ε σ α} {f : α → Parser ε σ β} {q : Parser ε σ β} {pos : Nat}
    {first second : List σ} {v : α} (head : Parses p pos first v)
    (next : Leads (f v) q (pos + first.length) second) :
    Leads (p >>= f) q pos (first ++ second) := by
  intro c tail here
  rw [List.append_assoc] at here
  rw [bind_ok (head c _ here), next _ tail here.advance, advance_advance, List.length_append]

/-! ### Backward: facts about every result -/

/-- Every value the parser returns satisfies `good`. -/
def Ensures (p : Parser ε σ α) (good : α → Prop) : Prop :=
  ∀ (c : Cursor σ) (v : α) (next : Cursor σ), p c = .ok (v, next) → good v

theorem Ensures.pure {v : α} {good : α → Prop} (holds : good v) :
    Ensures (Pure.pure v : Parser ε σ α) good := by
  intro c w next h
  cases h
  exact holds

theorem Ensures.throw {e : ε} {good : α → Prop} :
    Ensures (MonadExcept.throw e : Parser ε σ α) good := by
  intro c w next h
  cases h

theorem Ensures.raiseIf {condition : Prop} [Decidable condition] {e : ε} :
    Ensures (Cursor.raiseIf condition e : Parser ε σ Unit) (fun _ => ¬ condition) := by
  intro c v next h
  by_cases fine : condition
  · rw [Cursor.raiseIf, if_pos fine] at h
    cases h
  · exact fine

theorem Ensures.bind {p : Parser ε σ α} {f : α → Parser ε σ β} {known : α → Prop}
    {good : β → Prop} (head : Ensures p known) (next : ∀ v, known v → Ensures (f v) good) :
    Ensures (p >>= f) good := by
  intro c w last h
  obtain ⟨v, middle, first, second⟩ := bind_eq_ok.mp h
  exact next v (head c v middle first) middle w last second

theorem Ensures.trivial {p : Parser ε σ α} : Ensures p (fun _ => True) :=
  fun _ _ _ _ => True.intro

theorem Ensures.mono {p : Parser ε σ α} {known good : α → Prop} (head : Ensures p known)
    (weaker : ∀ v, known v → good v) : Ensures p good :=
  fun c v next h => weaker v (head c v next h)

end Cursor
