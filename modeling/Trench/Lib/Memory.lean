import Mathlib

set_option autoImplicit false

/- Memory as a function of addresses: what is written at one place, and what is read at another. -/

abbrev Memory := Nat → UInt8

namespace Memory

def blank : Memory := fun _ => 0

def write (mem : Memory) (place : Nat) (octets : List UInt8) : Memory := fun i =>
  if place ≤ i ∧ i < place + octets.length then octets.getD (i - place) 0 else mem i

def read (mem : Memory) (place count : Nat) : List UInt8 := (List.range count).map fun i => mem (place + i)

@[simp] theorem length_read (mem : Memory) (place count : Nat) : (mem.read place count).length = count := by
  rw [read, List.length_map, List.length_range]

theorem write_apart {mem : Memory} {place i : Nat} {octets : List UInt8}
    (apart : i < place ∨ place + octets.length ≤ i) : mem.write place octets i = mem i := by
  rw [write]
  exact if_neg (by omega)

/-- What is written is read back. -/
theorem read_write_self (mem : Memory) (place : Nat) (octets : List UInt8) :
    (mem.write place octets).read place octets.length = octets := by
  apply List.ext_getElem
  · rw [length_read]
  · intro i first second
    rw [length_read] at first
    have inside : place ≤ place + i ∧ place + i < place + octets.length := by omega
    simp only [read, List.getElem_map, List.getElem_range, write]
    rw [if_pos inside, Nat.add_sub_cancel_left, List.getD_eq_getElem _ _ second]

/-- What is written elsewhere is not read. -/
theorem read_write_apart {mem : Memory} {place other count : Nat} {octets : List UInt8}
    (apart : other + count ≤ place ∨ place + octets.length ≤ other) :
    (mem.write place octets).read other count = mem.read other count := by
  apply List.map_congr_left
  intro i held
  have small := List.mem_range.mp held
  exact write_apart (by omega)

theorem read_congr {mem mem' : Memory} {place count : Nat}
    (same : ∀ i, place ≤ i → i < place + count → mem' i = mem i) : mem'.read place count = mem.read place count := by
  apply List.map_congr_left
  intro i held
  have small := List.mem_range.mp held
  exact same _ (Nat.le_add_right _ _) (Nat.add_lt_add_left small _)

theorem write_append (mem : Memory) (place : Nat) (first second : List UInt8) :
    mem.write place (first ++ second) = (mem.write place first).write (place + first.length) second := by
  funext i
  simp only [write, List.length_append]
  by_cases inFirst : place ≤ i ∧ i < place + first.length
  · rw [if_pos (by omega), if_neg (by omega), if_pos inFirst, List.getD_append _ _ _ _ (by omega)]
  · by_cases inSecond : place + first.length ≤ i ∧ i < place + first.length + second.length
    · rw [if_pos (by omega), if_pos inSecond, List.getD_append_right _ _ _ _ (by omega), Nat.sub_sub]
    · rw [if_neg (by omega), if_neg inSecond, if_neg inFirst]

/-! ### Numbers, the least octet first -/

def octetsOf : Nat → Nat → List UInt8
  | 0, _ => []
  | k + 1, n => UInt8.ofNat n :: octetsOf k (n / 256)

def valueOf : List UInt8 → Nat
  | [] => 0
  | o :: rest => o.toNat + 256 * valueOf rest

@[simp] theorem length_octetsOf (k n : Nat) : (octetsOf k n).length = k := by
  induction k generalizing n with
  | zero => rfl
  | succ k ih => rw [octetsOf, List.length_cons, ih]

theorem valueOf_octetsOf {k n : Nat} (small : n < 256 ^ k) : valueOf (octetsOf k n) = n := by
  induction k generalizing n with
  | zero =>
      rw [Nat.lt_one_iff.mp small]
      rfl
  | succ k ih =>
      rw [octetsOf, valueOf, ih (Nat.div_lt_of_lt_mul (by rwa [← Nat.pow_succ'])), UInt8.toNat_ofNat']
      exact Nat.mod_add_div n 256

theorem valueOf_lt (octets : List UInt8) : valueOf octets < 256 ^ octets.length := by
  induction octets with
  | nil => exact Nat.one_pos
  | cons o rest ih =>
      have small := o.toNat_lt
      rw [valueOf, List.length_cons, Nat.pow_succ]
      omega

end Memory
