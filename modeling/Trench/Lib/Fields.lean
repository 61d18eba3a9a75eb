import Mathlib

set_option autoImplicit false

/- Fields of one line: which lines can be cut at their separators again. -/
namespace Fields

variable {α : Type}

/-- What stands before the first separator of a line is known. -/
theorem first_inj {sep : α} {a b c d : List α} (left : sep ∉ a) (right : sep ∉ c)
    (same : a ++ sep :: b = c ++ sep :: d) : a = c ∧ b = d := by
  induction a generalizing c with
  | nil =>
      cases c with
      | nil => exact ⟨rfl, List.tail_eq_of_cons_eq same⟩
      | cons y ys =>
          have head := List.head_eq_of_cons_eq same
          exact absurd (head ▸ List.mem_cons_self) right
  | cons x xs ih =>
      cases c with
      | nil =>
          have head := List.head_eq_of_cons_eq same
          exact absurd (head ▸ List.mem_cons_self) left
      | cons y ys =>
          rw [List.cons_append, List.cons_append, List.cons.injEq] at same
          obtain ⟨front, rest⟩ := ih (fun held => left (List.mem_cons_of_mem _ held))
            (fun held => right (List.mem_cons_of_mem _ held)) same.2
          exact ⟨by rw [same.1, front], rest⟩

/-- And so is what stands behind the last one. -/
theorem last_inj {sep : α} {a b c d : List α} (left : sep ∉ b) (right : sep ∉ d)
    (same : a ++ sep :: b = c ++ sep :: d) : a = c ∧ b = d := by
  have mirrored : b.reverse ++ sep :: a.reverse = d.reverse ++ sep :: c.reverse := by
    have turned := congrArg List.reverse same
    simpa using turned
  obtain ⟨tail, front⟩ := first_inj (fun held => left (List.mem_reverse.mp held))
    (fun held => right (List.mem_reverse.mp held)) mirrored
  exact ⟨List.reverse_inj.mp front, List.reverse_inj.mp tail⟩

/-! ### A separator that may occur inside -/

/-- One line cut at two places: up to the later cut there is a piece more, which with
the separator behind it is the separator and what follows the earlier cut. -/
def Moved (sep a b c d : List α) : Prop :=
  ∃ piece, piece ≠ [] ∧ ((c = a ++ piece ∧ sep ++ b = piece ++ (sep ++ d)) ∨
    (a = c ++ piece ∧ sep ++ d = piece ++ (sep ++ b)))

theorem joined_eq_iff (sep a b c d : List α) :
    a ++ (sep ++ b) = c ++ (sep ++ d) ↔ (a = c ∧ b = d) ∨ Moved sep a b c d := by
  constructor
  · intro same
    rcases List.append_eq_append_iff.mp same with ⟨piece, first, rest⟩ | ⟨piece, first, rest⟩
    · by_cases none : piece = []
      · subst none
        rw [List.append_nil] at first
        exact .inl ⟨first.symm, List.append_cancel_left rest⟩
      · exact .inr ⟨piece, none, .inl ⟨first, rest⟩⟩
    · by_cases none : piece = []
      · subst none
        rw [List.append_nil] at first
        exact .inl ⟨first, (List.append_cancel_left rest).symm⟩
      · exact .inr ⟨piece, none, .inr ⟨first, rest⟩⟩
  · rintro (⟨rfl, rfl⟩ | ⟨piece, -, ⟨rfl, rest⟩ | ⟨rfl, rest⟩⟩)
    · rfl
    · rw [rest, List.append_assoc]
    · rw [rest, List.append_assoc]

theorem Moved.cut_ne {sep a b c d : List α} (moved : Moved sep a b c d) : a ≠ c := by
  obtain ⟨piece, some, ⟨longer, -⟩ | ⟨longer, -⟩⟩ := moved
  · rw [longer]
    exact fun same => some (List.self_eq_append_right.mp same)
  · rw [longer]
    exact fun same => some (List.self_eq_append_right.mp same.symm)

/-- Where the cuts are what tells two lines apart, they are one unless a cut moved. -/
theorem joined_inj_iff (sep a b c d : List α) :
    (a ++ (sep ++ b) = c ++ (sep ++ d) → a = c ∧ b = d) ↔ ¬ Moved sep a b c d := by
  constructor
  · intro inj moved
    exact moved.cut_ne (inj ((joined_eq_iff sep a b c d).mpr (.inr moved))).1
  · intro still same
    exact ((joined_eq_iff sep a b c d).mp same).resolve_right still

/-! ### Quoted strings -/

section Quoted

variable [DecidableEq α] (mark esc blank : α)

/-- Every quotation mark inside is escaped, and nothing else is. -/
def escaped (s : List α) : List α := s.flatMap fun c => if c = mark then [esc, mark] else [c]

/-- What follows a closing mark: for each further string a blank and the string in marks. -/
def further : List (List α) → List α
  | [] => []
  | s :: rest => blank :: mark :: (escaped mark esc s ++ mark :: further rest)

/-- Quoted strings with blanks between them. -/
def line : List (List α) → List α
  | [] => []
  | s :: rest => mark :: (escaped mark esc s ++ mark :: further mark esc blank rest)

variable {mark esc blank}

theorem escaped_mark (s : List α) :
    escaped mark esc (mark :: s) = esc :: mark :: escaped mark esc s := by
  simp [escaped]

theorem escaped_other {c : α} (other : c ≠ mark) (s : List α) :
    escaped mark esc (c :: s) = c :: escaped mark esc s := by
  simp [escaped, other]

/-- The inside of a string never starts with a mark: that mark is the closing one. -/
theorem escaped_of_closed (apart : esc ≠ mark) {s more rest : List α}
    (closed : escaped mark esc s ++ mark :: rest = mark :: more) : s = [] ∧ rest = more := by
  cases s with
  | nil => exact ⟨rfl, List.tail_eq_of_cons_eq closed⟩
  | cons c s =>
      by_cases same : c = mark
      · rw [same, escaped_mark] at closed
        exact absurd (List.head_eq_of_cons_eq closed) apart
      · rw [escaped_other same] at closed
        exact absurd (List.head_eq_of_cons_eq closed) same

/-- No place of a line is both inside a string and behind a closing mark. If it were, the
string would be one blank and its closing mark the opening mark of the next string, so
behind that mark the two readings have changed places, on a shorter line. -/
theorem inside_ne_behind (apart : esc ≠ mark) (blanks : blank ≠ mark) (other : esc ≠ blank)
    (s : List α) (rest strings : List (List α)) :
    escaped mark esc s ++ mark :: further mark esc blank rest ≠ further mark esc blank strings := by
  generalize size : rest.length + strings.length = n
  induction n using Nat.strong_induction_on generalizing s rest strings with
  | _ n ih =>
      intro same
      cases strings with
      | nil =>
          rw [further] at same
          cases (List.append_eq_nil_iff.mp same).2
      | cons t more =>
          rw [further] at same
          cases s with
          | nil => exact blanks (List.head_eq_of_cons_eq same).symm
          | cons c s =>
              by_cases quoted : c = mark
              · rw [quoted, escaped_mark] at same
                exact other (List.head_eq_of_cons_eq same)
              · rw [escaped_other quoted] at same
                obtain ⟨-, swapped⟩ := escaped_of_closed apart (List.tail_eq_of_cons_eq same)
                refine ih (more.length + rest.length) ?_ t more rest rfl swapped.symm
                rw [List.length_cons] at size
                omega

/-- A string ends where its closing mark is. -/
theorem string_inj (apart : esc ≠ mark) (blanks : blank ≠ mark) (other : esc ≠ blank)
    {s t : List α} {rest more : List (List α)}
    (same : escaped mark esc s ++ mark :: further mark esc blank rest =
      escaped mark esc t ++ mark :: further mark esc blank more) :
    s = t ∧ further mark esc blank rest = further mark esc blank more := by
  induction s generalizing t with
  | nil =>
      obtain ⟨rfl, tails⟩ := escaped_of_closed apart same.symm
      exact ⟨rfl, tails.symm⟩
  | cons c s ih =>
      cases t with
      | nil =>
          obtain ⟨bad, -⟩ := escaped_of_closed apart same
          cases bad
      | cons d t =>
          by_cases left : c = mark
          · subst left
            rw [escaped_mark] at same
            by_cases right : d = c
            · subst right
              rw [escaped_mark] at same
              obtain ⟨rfl, tails⟩ := ih (List.tail_eq_of_cons_eq (List.tail_eq_of_cons_eq same))
              exact ⟨rfl, tails⟩
            -- the escape is an octet of the other string, which the mark then closes
            · rw [escaped_other right] at same
              obtain ⟨rfl, tails⟩ :=
                escaped_of_closed apart (List.tail_eq_of_cons_eq same).symm
              exact absurd tails.symm (inside_ne_behind apart blanks other s rest more)
          · rw [escaped_other left] at same
            by_cases right : d = mark
            · subst right
              rw [escaped_mark] at same
              obtain ⟨rfl, tails⟩ := escaped_of_closed apart (List.tail_eq_of_cons_eq same)
              exact absurd tails.symm (inside_ne_behind apart blanks other t more rest)
            · rw [escaped_other right, List.cons_append, List.cons_append, List.cons.injEq] at same
              obtain ⟨rfl, tails⟩ := ih same.2
              exact ⟨by rw [same.1], tails⟩

theorem further_inj (apart : esc ≠ mark) (blanks : blank ≠ mark) (other : esc ≠ blank)
    {strings others : List (List α)}
    (same : further mark esc blank strings = further mark esc blank others) :
    strings = others := by
  induction strings generalizing others with
  | nil =>
      cases others with
      | nil => rfl
      | cons t more => cases same
  | cons s rest ih =>
      cases others with
      | nil => cases same
      | cons t more =>
          obtain ⟨rfl, tails⟩ := string_inj apart blanks other
            (List.tail_eq_of_cons_eq (List.tail_eq_of_cons_eq same))
          rw [ih tails]

/-- A line of quoted strings tells which strings they are, whatever the strings hold. -/
theorem line_inj (apart : esc ≠ mark) (blanks : blank ≠ mark) (other : esc ≠ blank)
    {strings others : List (List α)}
    (same : line mark esc blank strings = line mark esc blank others) : strings = others := by
  cases strings with
  | nil =>
      cases others with
      | nil => rfl
      | cons t more => cases same
  | cons s rest =>
      cases others with
      | nil => cases same
      | cons t more =>
          obtain ⟨rfl, tails⟩ := string_inj apart blanks other (List.tail_eq_of_cons_eq same)
          rw [further_inj apart blanks other tails]

end Quoted

end Fields
