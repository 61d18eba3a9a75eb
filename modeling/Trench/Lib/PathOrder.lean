import Mathlib

set_option autoImplicit false

/- Lists over a linear order, read as paths from the root of a tree and compared
lexicographically. The extensions of one path form an interval of that order,
so a gap between two neighbouring paths decides which paths have extensions. -/
namespace PathOrder

variable {α : Type*} [LinearOrder α]

theorem le_append (path rest : List α) : path ≤ path ++ rest := by
  induction path with
  | nil => exact not_lt.mp (List.not_lt_nil rest)
  | cons head tail ih => exact List.cons_le_cons head ih

theorem le_of_extends {path longer : List α} (ext : path <+: longer) : path ≤ longer := by
  obtain ⟨rest, rfl⟩ := ext
  exact le_append path rest

theorem lt_of_extends_ne {path longer : List α} (ext : path <+: longer)
    (differ : path ≠ longer) : path < longer :=
  lt_of_le_of_ne (le_of_extends ext) differ

/-- The extensions of one path form an interval: whatever lies between the path
and one of its extensions extends it as well. -/
theorem prefix_of_le_of_le {path middle longer : List α} (ext : path <+: longer)
    (lower : path ≤ middle) (upper : middle ≤ longer) : path <+: middle := by
  induction path generalizing middle longer with
  | nil => exact List.nil_prefix
  | cons head tail ih =>
      obtain ⟨rest, rfl⟩ := ext
      cases middle with
      | nil => exact absurd lower (not_le.mpr (List.nil_lt_cons head tail))
      | cons first others =>
          have above := not_lt.mpr lower
          have below := not_lt.mpr upper
          rw [List.cons_lt_cons_iff] at above
          rw [List.cons_append, List.cons_lt_cons_iff] at below
          push Not at above below
          have same : head = first := le_antisymm above.1 below.1
          subst same
          have inner := @ih others (tail ++ rest) (List.prefix_append tail rest)
            (above.2 rfl) (below.2 rfl)
          exact List.cons_prefix_cons.mpr ⟨rfl, inner⟩

/-- A path shared by two ends of an interval is shared by everything inside. -/
theorem prefix_of_between {path low middle high : List α} (left : path <+: low)
    (right : path <+: high) (lower : low ≤ middle) (upper : middle ≤ high) :
    path <+: middle :=
  prefix_of_le_of_le right (le_trans (le_of_extends left) lower) upper

/-- Everything above a path but not under it lies above all its extensions. -/
theorem extension_lt {path longer above : List α} (ext : path <+: longer)
    (bound : path < above) (apart : ¬ path <+: above) : longer < above := by
  by_contra reversed
  exact apart (prefix_of_le_of_le ext bound.le (not_lt.mp reversed))

/-- The longest path that both arguments extend. -/
def commonPrefix : List α → List α → List α
  | first :: left, second :: right =>
      if first = second then first :: commonPrefix left right else []
  | _, _ => []

theorem commonPrefix_left (left right : List α) : commonPrefix left right <+: left := by
  induction left generalizing right with
  | nil => simp [commonPrefix]
  | cons first left ih =>
      cases right with
      | nil => simp [commonPrefix]
      | cons second right =>
          simp only [commonPrefix]
          split
          · exact List.cons_prefix_cons.mpr ⟨rfl, ih right⟩
          · exact List.nil_prefix

theorem commonPrefix_right (left right : List α) : commonPrefix left right <+: right := by
  induction left generalizing right with
  | nil => simp [commonPrefix]
  | cons first left ih =>
      cases right with
      | nil => simp [commonPrefix]
      | cons second right =>
          simp only [commonPrefix]
          split
          · next same => exact List.cons_prefix_cons.mpr ⟨same, ih right⟩
          · exact List.nil_prefix

theorem prefix_commonPrefix {path left right : List α} (hl : path <+: left)
    (hr : path <+: right) : path <+: commonPrefix left right := by
  induction path generalizing left right with
  | nil => exact List.nil_prefix
  | cons head tail ih =>
      obtain ⟨restLeft, rfl⟩ := hl
      obtain ⟨restRight, rfl⟩ := hr
      simp only [List.cons_append, commonPrefix, ↓reduceIte]
      exact List.cons_prefix_cons.mpr
        ⟨rfl, ih (List.prefix_append _ _) (List.prefix_append _ _)⟩

/-- How far two paths run together. -/
theorem le_length_commonPrefix {left right : List α} {count : Nat} (short : count ≤ right.length) :
    count ≤ (commonPrefix left right).length ↔ right.take count <+: left := by
  constructor
  · intro long
    have upper := commonPrefix_right left right
    have same : right.take count = (commonPrefix left right).take count := by
      rw [List.prefix_iff_eq_take.mp upper, List.take_take, Nat.min_eq_left long]
    rw [same]
    exact (List.take_prefix count _).trans (commonPrefix_left left right)
  · intro leads
    have both := (prefix_commonPrefix leads (List.take_prefix count right)).length_le
    rwa [List.length_take, Nat.min_eq_left short] at both

end PathOrder
