import Mathlib

set_option autoImplicit false

/- Fixed-length digit strings, the most significant digit first: between strings of
one length the lexicographic order is the order of the numbers they spell. -/
namespace Digits

def value (b : Nat) : List Nat → Nat
  | [] => 0
  | d :: ds => d * b ^ ds.length + value b ds

/-- A number in so many digits. -/
def spell (b : Nat) : Nat → Nat → List Nat
  | 0, _ => []
  | n + 1, v => v / b ^ n :: spell b n (v % b ^ n)

@[simp] theorem length_spell (b n v : Nat) : (spell b n v).length = n := by
  induction n generalizing v with
  | zero => rfl
  | succ n ih => rw [spell, List.length_cons, ih]

theorem value_lt (b : Nat) (ds : List Nat) (small : ∀ d ∈ ds, d < b) :
    value b ds < b ^ ds.length := by
  induction ds with
  | nil => exact Nat.one_pos
  | cons d ds ih =>
      have head := small d List.mem_cons_self
      have tail := ih fun e held => small e (List.mem_cons_of_mem _ held)
      rw [value, List.length_cons, Nat.pow_succ']
      calc d * b ^ ds.length + value b ds < d * b ^ ds.length + b ^ ds.length := by omega
        _ = (d + 1) * b ^ ds.length := by rw [Nat.add_mul, Nat.one_mul]
        _ ≤ b * b ^ ds.length := Nat.mul_le_mul_right _ head

theorem spell_lt (b n v : Nat) (bound : v < b ^ n) : ∀ d ∈ spell b n v, d < b := by
  induction n generalizing v with
  | zero =>
      intro d held
      cases held
  | succ n ih =>
      intro d held
      rcases List.mem_cons.mp held with rfl | held
      · rw [Nat.pow_succ'] at bound
        exact Nat.div_lt_of_lt_mul (Nat.mul_comm b _ ▸ bound)
      · have positive : 0 < b ^ n := by
          rcases Nat.eq_zero_or_pos (b ^ n) with none | some
          · rw [Nat.pow_succ, none, Nat.zero_mul] at bound
            exact absurd bound (Nat.not_lt_zero v)
          · exact some
        exact ih _ (Nat.mod_lt _ positive) d held

theorem value_spell (b n v : Nat) (bound : v < b ^ n) : value b (spell b n v) = v := by
  induction n generalizing v with
  | zero =>
      rw [Nat.pow_zero] at bound
      rw [spell, value]
      omega
  | succ n ih =>
      have positive : 0 < b ^ n := by
        rcases Nat.eq_zero_or_pos (b ^ n) with none | some
        · rw [Nat.pow_succ, none, Nat.zero_mul] at bound
          exact absurd bound (Nat.not_lt_zero v)
        · exact some
      rw [spell, value, length_spell, ih _ (Nat.mod_lt _ positive)]
      exact Nat.div_add_mod' v (b ^ n)

/-- The first differing digit decides, whatever follows it. -/
theorem lt_iff_value (b : Nat) (xs ys : List Nat) (same : xs.length = ys.length)
    (left : ∀ d ∈ xs, d < b) (right : ∀ d ∈ ys, d < b) : xs < ys ↔ value b xs < value b ys := by
  induction xs generalizing ys with
  | nil =>
      cases ys with
      | nil => simp
      | cons y ys => cases same
  | cons x xs ih =>
      cases ys with
      | nil => cases same
      | cons y ys =>
          have lengths : xs.length = ys.length := Nat.succ.inj same
          have leftTail : ∀ d ∈ xs, d < b := fun d held => left d (List.mem_cons_of_mem _ held)
          have rightTail : ∀ d ∈ ys, d < b := fun d held => right d (List.mem_cons_of_mem _ held)
          have low := value_lt b xs leftTail
          have high := value_lt b ys rightTail
          rw [List.cons_lt_cons_iff, ih ys lengths leftTail rightTail, value, value]
          rw [lengths] at low ⊢
          rcases lt_trichotomy x y with below | equal | above
          · have step : (x + 1) * b ^ ys.length ≤ y * b ^ ys.length :=
              Nat.mul_le_mul_right _ below
            rw [Nat.add_mul, Nat.one_mul] at step
            simp only [below, true_or, true_iff]
            omega
          · simp only [equal, lt_self_iff_false, true_and, false_or, Nat.add_lt_add_iff_left]
          · have step : (y + 1) * b ^ ys.length ≤ x * b ^ ys.length :=
              Nat.mul_le_mul_right _ above
            rw [Nat.add_mul, Nat.one_mul] at step
            simp only [not_lt.mpr above.le, above.ne', false_and, or_self, false_iff]
            omega

theorem spell_lt_spell (b n v w : Nat) (left : v < b ^ n) (right : w < b ^ n) :
    spell b n v < spell b n w ↔ v < w := by
  rw [lt_iff_value b _ _ (by simp) (spell_lt b n v left) (spell_lt b n w right),
    value_spell b n v left, value_spell b n w right]

theorem value_inj (b : Nat) (xs ys : List Nat) (same : xs.length = ys.length)
    (left : ∀ d ∈ xs, d < b) (right : ∀ d ∈ ys, d < b) (equal : value b xs = value b ys) :
    xs = ys := by
  rcases lt_trichotomy xs ys with below | done | above
  · have smaller := (lt_iff_value b xs ys same left right).mp below
    omega
  · exact done
  · have greater := (lt_iff_value b ys xs same.symm right left).mp above
    omega

/-- The digits of `m` bits in digits of `k` bits, zero bits filling up the last one. -/
def regroup (m k : Nat) (ds : List Nat) : List Nat :=
  let count := (m * ds.length + (k - 1)) / k
  spell (2 ^ k) count (value (2 ^ m) ds * 2 ^ (k * count - m * ds.length))

section Regroup

variable {m k : Nat}

theorem regroup_room (n : Nat) (some : 0 < k) : n ≤ k * ((n + (k - 1)) / k) := by
  have parts := Nat.div_add_mod (n + (k - 1)) k
  have rest := Nat.mod_lt (n + (k - 1)) some
  omega

/-- Shifted to whole digits, the number still fits them. -/
theorem shifted_lt (some : 0 < k) (ds : List Nat) (small : ∀ d ∈ ds, d < 2 ^ m) :
    value (2 ^ m) ds * 2 ^ (k * ((m * ds.length + (k - 1)) / k) - m * ds.length) <
      (2 ^ k) ^ ((m * ds.length + (k - 1)) / k) := by
  have bound := value_lt (2 ^ m) ds small
  have room := regroup_room (m * ds.length) some
  have power : (2 ^ k) ^ ((m * ds.length + (k - 1)) / k) =
      (2 ^ m) ^ ds.length * 2 ^ (k * ((m * ds.length + (k - 1)) / k) - m * ds.length) := by
    rw [← pow_mul, ← pow_mul, ← pow_add]
    congr 1
    omega
  rw [power]
  exact Nat.mul_lt_mul_of_pos_right bound (Nat.two_pow_pos _)

theorem regroup_lt (some : 0 < k) (ds : List Nat) (small : ∀ d ∈ ds, d < 2 ^ m) :
    ∀ d ∈ regroup m k ds, d < 2 ^ k :=
  spell_lt _ _ _ (shifted_lt some ds small)

/-- Larger digits than the new ones are never lost in the count of these. -/
theorem regroup_inj (some : 0 < k) (smaller : k ≤ m) {xs ys : List Nat}
    (left : ∀ d ∈ xs, d < 2 ^ m) (right : ∀ d ∈ ys, d < 2 ^ m)
    (same : regroup m k xs = regroup m k ys) : xs = ys := by
  have counts := congrArg List.length same
  simp only [regroup, length_spell] at counts
  have step (a b : Nat) (below : a < b) :
      (m * a + (k - 1)) / k < (m * b + (k - 1)) / k := by
    have longer : m * a + m ≤ m * b := by
      calc m * a + m = m * (a + 1) := by rw [Nat.mul_add, Nat.mul_one]
        _ ≤ m * b := Nat.mul_le_mul_left m below
    calc (m * a + (k - 1)) / k < (m * a + (k - 1)) / k + 1 := Nat.lt_succ_self _
      _ = (m * a + (k - 1) + k) / k := (Nat.add_div_right _ some).symm
      _ ≤ (m * b + (k - 1)) / k := Nat.div_le_div_right (by omega)
  have lengths : xs.length = ys.length := by
    rcases lt_trichotomy xs.length ys.length with below | done | above
    · have := step _ _ below
      omega
    · exact done
    · have := step _ _ above
      omega
  have low := shifted_lt some xs left
  have high := shifted_lt some ys right
  simp only [regroup] at same
  have numbers := congrArg (value (2 ^ k)) same
  rw [value_spell _ _ _ low, value_spell _ _ _ high, lengths] at numbers
  exact value_inj _ xs ys lengths left right
    (Nat.eq_of_mul_eq_mul_right (Nat.two_pow_pos _) numbers)

end Regroup

/-- Renaming the digits in their order keeps the order of the strings. -/
theorem map_lt_map {α β : Type} [LinearOrder α] [LinearOrder β] {f : α → β} {range : Set α}
    (mono : StrictMonoOn f range) (xs ys : List α) (left : ∀ x ∈ xs, x ∈ range)
    (right : ∀ y ∈ ys, y ∈ range) : xs.map f < ys.map f ↔ xs < ys := by
  induction xs generalizing ys with
  | nil => cases ys <;> simp
  | cons x xs ih =>
      cases ys with
      | nil => simp
      | cons y ys =>
          have hx := left x List.mem_cons_self
          have hy := right y List.mem_cons_self
          rw [List.map_cons, List.map_cons, List.cons_lt_cons_iff, List.cons_lt_cons_iff,
            mono.lt_iff_lt hx hy, mono.eq_iff_eq hx hy,
            ih ys (fun z held => left z (List.mem_cons_of_mem _ held))
              fun z held => right z (List.mem_cons_of_mem _ held)]

end Digits
