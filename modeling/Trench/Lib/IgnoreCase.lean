import Mathlib

set_option autoImplicit false

/- Words of a pattern as `re.IGNORECASE` matches them: every letter in either case, and the
letters of Unicode that fold to one of ASCII. -/
namespace IgnoreCase

/-- A character under `re.IGNORECASE`, against a letter of the pattern in lower case. -/
def letter (p c : Char) : Bool :=
  c.toLower == p || (p == 's' && c == 'ſ') || (p == 'i' && (c == 'ı' || c == 'İ')) || (p == 'k' && c == '\u212A')

def spells : List Char → List Char → Bool
  | [], [] => true
  | p :: ps, c :: cs => letter p c && spells ps cs
  | _, _ => false

theorem toLower_of_letter {p c : Char} (same : letter p c = true) (ascii : c.toNat < 128) : c.toLower = p := by
  unfold letter at same
  simp only [Bool.or_eq_true, Bool.and_eq_true, beq_iff_eq] at same
  rcases same with ((same | ⟨-, rfl⟩) | ⟨-, rfl | rfl⟩) | ⟨-, rfl⟩
  · exact same
  all_goals exact absurd ascii (by decide)

theorem lt_of_toLower_lt {c : Char} (small : c.toLower.toNat < 128) : c.toNat < 128 := by
  unfold Char.toLower at small
  split at small
  · next upper =>
      have last : c.val.toNat ≤ 'Z'.val.toNat := UInt32.le_iff_toNat_le.mp upper.2
      have z : 'Z'.val.toNat = 90 := rfl
      rw [Char.toNat]
      omega
  · exact small

/-- Letters that are none of `s`, `i` and `k` are spelled in ASCII only. -/
theorem ascii_of_spells {p t : List Char} (spelled : spells p t = true)
    (letters : ∀ c ∈ p, c.toNat < 128 ∧ c ≠ 's' ∧ c ≠ 'i' ∧ c ≠ 'k') : ∀ c ∈ t, c.toNat < 128 := by
  induction p generalizing t with
  | nil =>
      cases t with
      | nil => simp
      | cons c t => simp [spells] at spelled
  | cons p ps ih =>
      cases t with
      | nil => simp
      | cons c t =>
          rw [spells, Bool.and_eq_true] at spelled
          obtain ⟨small, s, i, k⟩ := letters p List.mem_cons_self
          have head := spelled.1
          unfold letter at head
          simp only [Bool.or_eq_true, Bool.and_eq_true, beq_iff_eq, s, i, k, false_and, or_false] at head
          rw [List.forall_mem_cons]
          refine ⟨?_, ih spelled.2 fun d held => letters d (List.mem_cons_of_mem p held)⟩
          exact lt_of_toLower_lt (head ▸ small)

theorem length_of_spells {p t : List Char} (spelled : spells p t = true) : t.length = p.length := by
  induction p generalizing t with
  | nil =>
      cases t with
      | nil => rfl
      | cons c t => simp [spells] at spelled
  | cons p ps ih =>
      cases t with
      | nil => simp [spells] at spelled
      | cons c t =>
          rw [spells, Bool.and_eq_true] at spelled
          rw [List.length_cons, List.length_cons, ih spelled.2]

theorem exists_spells_append {p q t : List Char} (spelled : spells (p ++ q) t = true) :
    ∃ l r, t = l ++ r ∧ spells p l = true ∧ spells q r = true := by
  induction p generalizing t with
  | nil => exact ⟨[], t, rfl, rfl, spelled⟩
  | cons p ps ih =>
      cases t with
      | nil => simp [spells] at spelled
      | cons c t =>
          rw [List.cons_append, spells, Bool.and_eq_true] at spelled
          obtain ⟨l, r, rfl, left, right⟩ := ih spelled.2
          refine ⟨c :: l, r, rfl, ?_, right⟩
          rw [spells, spelled.1, left]
          rfl

end IgnoreCase
