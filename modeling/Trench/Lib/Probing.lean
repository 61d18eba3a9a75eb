import Mathlib

set_option autoImplicit false

/- Linear probing in a table whose size is a power of two. A cell is empty or
holds a key and its value; a key lies on the walk from its home cell, behind
cells that hold other keys. -/

namespace Probing

variable {α κ ν : Type}

/-- The cell at which the walk from `i` first stops; `none` when the fuel is
spent before it does. -/
def seek (stop : α → Bool) (cells : List α) (mask : Nat) : Nat → Nat → Option Nat
  | 0, _ => none
  | fuel + 1, i =>
    match cells[i]? with
    | none => none
    | some c => if stop c then some i else seek stop cells mask fuel ((i + 1) &&& mask)

theorem seek_map {β : Type} (f : β → α) (stop : α → Bool) (cells : List β) (mask : Nat) :
    ∀ fuel i, seek stop (cells.map f) mask fuel i = seek (fun b => stop (f b)) cells mask fuel i
  | 0, _ => rfl
  | fuel + 1, i => by
      unfold seek
      rw [List.getElem?_map]
      cases cells[i]? with
      | none => rfl
      | some b => simp only [Option.map_some, seek_map f stop cells mask fuel]

/-- The cell `d` steps from `i`. -/
def walk (cells : List α) (i d : Nat) : Nat := (i + d) % cells.length

/-- The step of the walk wraps with a mask, which is the remainder for a size
that is a power of two. -/
theorem walk_one {cells : List α} {p : Nat} (size : cells.length = 2 ^ p) (i : Nat) :
    (i + 1) &&& (cells.length - 1) = walk cells i 1 := by
  rw [walk, size, Nat.and_two_pow_sub_one_eq_mod]

theorem walk_walk (cells : List α) (i d e : Nat) :
    walk cells (walk cells i d) e = walk cells i (d + e) := by
  unfold walk
  rw [Nat.mod_add_mod, Nat.add_assoc]

theorem walk_zero {cells : List α} {i : Nat} (inside : i < cells.length) : walk cells i 0 = i := by
  unfold walk
  exact Nat.mod_eq_of_lt inside

theorem walk_lt {cells : List α} {i : Nat} (inside : i < cells.length) (d : Nat) :
    walk cells i d < cells.length := by
  unfold walk
  exact Nat.mod_lt _ (by omega)

/-- The walk reaches every cell within one round. -/
theorem exists_walk {cells : List α} {i j : Nat} (start : i < cells.length)
    (target : j < cells.length) : ∃ d < cells.length, walk cells i d = j := by
  unfold walk
  by_cases ahead : i ≤ j
  · refine ⟨j - i, by omega, ?_⟩
    rw [Nat.add_sub_cancel' ahead, Nat.mod_eq_of_lt target]
  · refine ⟨cells.length - i + j, by omega, ?_⟩
    rw [show i + (cells.length - i + j) = j + cells.length by omega, Nat.add_mod_right,
      Nat.mod_eq_of_lt target]

/-- The walk to a cell, `d` steps long, passes only cells at which it does not stop. -/
def Passes (stop : α → Bool) (cells : List α) (i d : Nat) : Prop :=
  ∀ e < d, ∃ c, cells[walk cells i e]? = some c ∧ stop c = false

theorem seek_of_passes {stop : α → Bool} {cells : List α} {p : Nat}
    (size : cells.length = 2 ^ p) {c : α} (stopped : stop c = true) :
    ∀ (d fuel i : Nat), i < cells.length → d < fuel → cells[walk cells i d]? = some c →
      Passes stop cells i d → seek stop cells (cells.length - 1) fuel i = some (walk cells i d)
  | 0, fuel + 1, i, inside, _, here, _ => by
      rw [walk_zero inside] at here ⊢
      simp only [seek, here, stopped, ↓reduceIte]
  | d + 1, fuel + 1, i, inside, short, there, passes => by
      obtain ⟨first, here, onward⟩ := passes 0 (by omega)
      rw [walk_zero inside] at here
      have next : seek stop cells (cells.length - 1) fuel (walk cells i 1) =
          some (walk cells (walk cells i 1) d) := by
        apply seek_of_passes size stopped d fuel _ (walk_lt inside 1) (by omega)
        · rw [walk_walk, Nat.add_comm 1 d]
          exact there
        · intro e early
          rw [walk_walk, Nat.add_comm 1 e]
          exact passes (e + 1) (by omega)
      rw [walk_walk, Nat.add_comm 1 d] at next
      simp only [seek, here, onward, Bool.false_eq_true, ↓reduceIte]
      rw [walk_one size]
      exact next

/-- A walk with a stopping cell anywhere in the table finds the first of them
within one round. -/
theorem exists_seek {stop : α → Bool} {cells : List α} {p : Nat} (size : cells.length = 2 ^ p)
    {i j : Nat} {c : α} (inside : i < cells.length) (held : cells[j]? = some c)
    (stopped : stop c = true) :
    ∃ d c', seek stop cells (cells.length - 1) cells.length i = some (walk cells i d) ∧
      cells[walk cells i d]? = some c' ∧ stop c' = true ∧ Passes stop cells i d := by
  have target : j < cells.length := (List.getElem?_eq_some_iff.mp held).1
  obtain ⟨far, inRound, arrives⟩ := exists_walk inside target
  classical
  have some_stop : ∃ d, ∃ c', cells[walk cells i d]? = some c' ∧ stop c' = true :=
    ⟨far, c, by rw [arrives]; exact held, stopped⟩
  obtain ⟨c', there, ends⟩ := Nat.find_spec some_stop
  have first : Passes stop cells i (Nat.find some_stop) := by
    intro e early
    have bound : walk cells i e < cells.length := walk_lt inside e
    have cell : cells[walk cells i e]? = some cells[walk cells i e] :=
      List.getElem?_eq_getElem bound
    refine ⟨_, cell, ?_⟩
    apply Bool.eq_false_iff.mpr
    intro ends'
    exact Nat.find_min some_stop early ⟨_, cell, ends'⟩
  have near : Nat.find some_stop < cells.length := by
    apply Nat.lt_of_le_of_lt _ inRound
    apply Nat.find_min'
    exact ⟨c, by rw [arrives]; exact held, stopped⟩
  exact ⟨_, c', seek_of_passes size ends _ _ _ inside near there first, there, ends, first⟩

/-- Two cells that both stop a probe, with nothing before either, are one cell. -/
theorem passes_unique {stop : α → Bool} {cells : List α} {i d d' : Nat} {c c' : α}
    (there : cells[walk cells i d]? = some c) (ends : stop c = true)
    (passes : Passes stop cells i d) (there' : cells[walk cells i d']? = some c')
    (ends' : stop c' = true) (passes' : Passes stop cells i d') : d = d' := by
  apply Nat.le_antisymm
  · by_contra later
    obtain ⟨b, cell, onward⟩ := passes d' (by omega)
    rw [there', Option.some.injEq] at cell
    rw [← cell, ends'] at onward
    cases onward
  · by_contra later
    obtain ⟨b, cell, onward⟩ := passes' d (by omega)
    rw [there, Option.some.injEq] at cell
    rw [← cell, ends] at onward
    cases onward

section Keyed

variable {home : κ → Nat} {cells : List (Option (κ × ν))} {k : κ} {v : ν}

/-- The table has `v` for `k` in one of its cells. -/
def Holds (cells : List (Option (κ × ν))) (k : κ) (v : ν) : Prop :=
  ∃ i : Nat, cells[i]? = some (some (k, v))

theorem holds_set {i : Nat} (blank : cells[i]? = some none) {key : κ} {w : ν} :
    Holds (cells.set i (some (k, v))) key w ↔ Holds cells key w ∨ (key = k ∧ w = v) := by
  have filled : i < cells.length := (List.getElem?_eq_some_iff.mp blank).1
  constructor
  · intro held
    obtain ⟨j, cell⟩ := held
    by_cases same : i = j
    · subst same
      rw [List.getElem?_set_self filled] at cell
      simp only [Option.some.injEq, Prod.mk.injEq] at cell
      exact .inr ⟨cell.1.symm, cell.2.symm⟩
    · rw [List.getElem?_set_ne same] at cell
      exact .inl ⟨j, cell⟩
  · intro held
    rcases held with ⟨j, cell⟩ | ⟨rfl, rfl⟩
    · refine ⟨j, ?_⟩
      rw [List.getElem?_set_ne, cell]
      intro same
      rw [← same, blank] at cell
      cases cell
    · exact ⟨i, List.getElem?_set_self filled⟩

/-- The number of cells in use. -/
def occupied (cells : List (Option (κ × ν))) : Nat := cells.countP Option.isSome

theorem occupied_set {i : Nat} (blank : cells[i]? = some none) :
    occupied (cells.set i (some (k, v))) = occupied cells + 1 := by
  obtain ⟨filled, cell⟩ := List.getElem?_eq_some_iff.mp blank
  unfold occupied
  rw [List.countP_set filled, cell]
  rfl

theorem room_of_occupied (spare : occupied cells < cells.length) :
    ∃ i : Nat, cells[i]? = some none := by
  by_contra full
  apply Nat.lt_irrefl cells.length
  have every : ∀ c ∈ cells, Option.isSome c = true := by
    intro c held
    obtain ⟨i, cell⟩ := List.mem_iff_getElem?.mp held
    cases c with
    | none => exact absurd ⟨i, cell⟩ full
    | some e => rfl
  unfold occupied at spare
  rwa [List.countP_eq_length.mpr every] at spare

variable [DecidableEq κ]

/-- A probe for `k` stops at an empty cell and at the cell of `k`. -/
def stops (k : κ) : Option (κ × ν) → Bool
  | none => true
  | some e => e.1 == k

/-- Every key lies on the walk from its home, behind cells of other keys. -/
def Linked (home : κ → Nat) (cells : List (Option (κ × ν))) : Prop :=
  ∀ i k v, cells[i]? = some (some (k, v)) →
    ∃ d, i = walk cells (home k) d ∧ Passes (stops k) cells (home k) d

theorem stops_none : stops k (none : Option (κ × ν)) = true := rfl

theorem stops_some {e : κ × ν} : stops k (some e) = true ↔ e.1 = k := by
  rw [stops, beq_iff_eq]

/-- A linked table with an empty cell: the probe for a key ends, at the cell of
the key when the table holds it and at an empty cell otherwise. -/
theorem seek_linked {p : Nat} (size : cells.length = 2 ^ p) (linked : Linked home cells)
    (room : ∃ i : Nat, cells[i]? = some none) (inside : home k < cells.length) :
    ∃ i, seek (stops k) cells (cells.length - 1) cells.length (home k) = some i ∧
      ((∃ v, cells[i]? = some (some (k, v)) ∧ ∀ w, Holds cells k w ↔ w = v) ∨
        (cells[i]? = some none ∧ ∀ w, ¬ Holds cells k w)) := by
  obtain ⟨j, blank⟩ := room
  obtain ⟨d, c, found, there, ends, passes⟩ := exists_seek size inside blank (stops_none (k := k))
  refine ⟨_, found, ?_⟩
  have meets : ∀ w, Holds cells k w → c = some (k, w) := by
    intro w held
    obtain ⟨i, cell⟩ := held
    obtain ⟨d', place, passes'⟩ := linked i k w cell
    rw [place] at cell
    have same := passes_unique there ends passes cell (stops_some.mpr rfl) passes'
    rw [same, cell, Option.some.injEq] at there
    exact there.symm
  cases c with
  | none =>
    right
    refine ⟨there, ?_⟩
    intro w held
    cases meets w held
  | some e =>
    left
    obtain ⟨key, value⟩ := e
    have keyed : key = k := stops_some.mp ends
    subst keyed
    refine ⟨value, there, ?_⟩
    intro w
    constructor
    · intro held
      have hit := meets w held
      simp only [Option.some.injEq, Prod.mk.injEq, true_and] at hit
      exact hit.symm
    · intro same
      rw [same]
      exact ⟨_, there⟩

/-- Filling the empty cell at which the probe for a new key ended keeps the
table linked. -/
theorem Linked.set {p : Nat} (size : cells.length = 2 ^ p) (linked : Linked home cells)
    (room : ∃ i : Nat, cells[i]? = some none) (inside : home k < cells.length) {i : Nat}
    (found : seek (stops k) cells (cells.length - 1) cells.length (home k) = some i)
    (blank : cells[i]? = some none) : Linked home (cells.set i (some (k, v))) := by
  -- a cell on a walk was not the empty one, so the walks are as they were
  have keeps : ∀ (key : κ) (d : Nat), Passes (stops key) cells (home key) d →
      Passes (stops key) (cells.set i (some (k, v))) (home key) d := by
    intro key d passes e early
    obtain ⟨c, cell, onward⟩ := passes e early
    refine ⟨c, ?_, onward⟩
    rw [walk, List.length_set, ← walk, List.getElem?_set_ne, cell]
    intro same
    rw [← same, blank, Option.some.injEq] at cell
    rw [← cell, stops_none] at onward
    cases onward
  have span : ∀ key d, walk (cells.set i (some (k, v))) (home key) d = walk cells (home key) d := by
    intro key d
    rw [walk, List.length_set, walk]
  intro j key value cell
  by_cases same : i = j
  · subst same
    have filled : i < cells.length := (List.getElem?_eq_some_iff.mp blank).1
    rw [List.getElem?_set_self filled] at cell
    simp only [Option.some.injEq, Prod.mk.injEq] at cell
    obtain ⟨j', blank'⟩ := room
    obtain ⟨d, c, found', -, -, passes⟩ := exists_seek size inside blank' (stops_none (k := k))
    rw [found, Option.some.injEq] at found'
    rw [← cell.1]
    exact ⟨d, by rw [span]; exact found', keeps k d passes⟩
  · rw [List.getElem?_set_ne same] at cell
    obtain ⟨d, place, passes⟩ := linked j key value cell
    exact ⟨d, by rw [span]; exact place, keeps key d passes⟩

end Keyed

end Probing
