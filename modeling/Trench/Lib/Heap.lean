import Mathlib

set_option autoImplicit false

/- A heap of mutable cells of several kinds, numbered in the order they are made. What
a part of a program can reach is a set of numbers, and writes elsewhere leave what it reads
alone. -/

structure Heap (κ : Type) (V : κ → Type) where
  next : Nat
  cell : (k : κ) → Nat → V k

namespace Heap

variable {κ : Type} {V : κ → Type} [DecidableEq κ]

def set (h : Heap κ V) (k : κ) (c : Nat) (v : V k) : Heap κ V :=
  { h with cell := fun k' c' => if same : k = k' ∧ c' = c then same.1 ▸ v else h.cell k' c' }

/-- A new cell, and its number. -/
def alloc (h : Heap κ V) (k : κ) (v : V k) : Heap κ V × Nat :=
  ({ h.set k h.next v with next := h.next + 1 }, h.next)

@[simp] theorem cell_set_self (h : Heap κ V) (k : κ) (c : Nat) (v : V k) : (h.set k c v).cell k c = v :=
  dif_pos ⟨rfl, rfl⟩

theorem cell_set_other (h : Heap κ V) {k k' : κ} {c c' : Nat} (v : V k) (other : c' ≠ c) :
    (h.set k c v).cell k' c' = h.cell k' c' := dif_neg fun same => other same.2

@[simp] theorem next_alloc (h : Heap κ V) (k : κ) (v : V k) : (h.alloc k v).1.next = h.next + 1 := rfl

@[simp] theorem snd_alloc (h : Heap κ V) (k : κ) (v : V k) : (h.alloc k v).2 = h.next := rfl

@[simp] theorem cell_alloc_self (h : Heap κ V) (k : κ) (v : V k) :
    (h.alloc k v).1.cell k h.next = v := h.cell_set_self k h.next v

theorem cell_alloc_other (h : Heap κ V) {k k' : κ} {c : Nat} (v : V k) (other : c ≠ h.next) :
    (h.alloc k v).1.cell k' c = h.cell k' c := h.cell_set_other v other

/-- All cells of before are as before. -/
structure Grows (h h' : Heap κ V) : Prop where
  next : h.next ≤ h'.next
  same : ∀ k c, c < h.next → h'.cell k c = h.cell k c

omit [DecidableEq κ] in
theorem Grows.refl (h : Heap κ V) : h.Grows h := ⟨Nat.le_refl _, fun _ _ _ => rfl⟩

omit [DecidableEq κ] in
theorem Grows.trans {h h' h'' : Heap κ V} (first : h.Grows h') (second : h'.Grows h'') : h.Grows h'' :=
  ⟨first.next.trans second.next, fun k c old =>
    (second.same k c (old.trans_le first.next)).trans (first.same k c old)⟩

theorem grows_alloc (h : Heap κ V) (k : κ) (v : V k) : h.Grows (h.alloc k v).1 :=
  ⟨Nat.le_succ _, fun _ _ old => h.cell_alloc_other v old.ne⟩

end Heap
