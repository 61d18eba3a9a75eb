import Mathlib

set_option autoImplicit false

/- A counter that asks for a longer pause after every attempt and is forgotten once it has rested:
how many attempts it lets through in a stretch of time. -/
namespace Backoff

/-- How long to wait after so many attempts, and after which rest the counter is forgotten. -/
structure Rules where
  delay : ℕ → ℚ
  memory : ℚ
  grows : Monotone delay
  starts : 0 ≤ delay 0

/-- The attempts so far and the moment of the last one. -/
abbrev Entry := Option (ℕ × ℚ)

namespace Rules

variable (rules : Rules)

/-- The shortest time so many attempts in a row take. -/
def total (attempts : ℕ) : ℚ := ((List.range attempts).map rules.delay).sum

/-- Attempts in a row take `pace` each, but for `slack` in all. -/
structure Paced (pace slack : ℚ) : Prop where
  short : ∀ attempts : ℕ, pace * attempts ≤ slack + rules.total attempts
  forgets : slack ≤ rules.memory

def Ready (entry : Entry) (now : ℚ) : Prop := ∀ count last, entry = some (count, last) → last + rules.delay count ≤ now

/-- Since `start` there were `n` attempts, the later `m` of them in the counter's present run. -/
def Held (pace start : ℚ) (n : ℕ) (now : ℚ) : Entry → Prop
  | none => n = 0 ∨ pace * n ≤ now - start
  | some (count, last) => last ≤ now ∧
      (n = 0 ∨ ∃ (before m : ℕ) (since : ℚ), n = before + m ∧ pace * before ≤ since - start ∧
        since + rules.total m ≤ last ∧ m ≤ count)

theorem total_zero : rules.total 0 = 0 := rfl

theorem total_succ (attempts : ℕ) : rules.total (attempts + 1) = rules.total attempts + rules.delay attempts := by
  rw [total, total, List.range_succ, List.map_append, List.sum_append, List.map_singleton, List.sum_singleton]

theorem total_nonneg (attempts : ℕ) : 0 ≤ rules.total attempts := by
  induction attempts with
  | zero => exact le_rfl
  | succ attempts ih =>
      rw [total_succ]
      exact add_nonneg ih (rules.starts.trans (rules.grows (Nat.zero_le attempts)))

end Rules

/-- One more attempt. -/
def bumped (entry : Entry) (now : ℚ) : Entry := some (((entry.map Prod.fst).getD 0) + 1, now)

namespace Rules

variable {rules : Rules} {pace slack start now : ℚ} {n : ℕ} {entry : Entry}

theorem held_start (entry : Entry) (past : ∀ count last, entry = some (count, last) → last ≤ now) :
    rules.Held pace start 0 now entry := by
  cases entry with
  | none => exact .inl rfl
  | some found => exact ⟨past _ _ rfl, .inl rfl⟩

theorem Held.waits (held : rules.Held pace start n now entry) {later : ℚ} (on : now ≤ later) :
    rules.Held pace start n later entry := by
  cases entry with
  | none => exact held.imp_right fun paced => paced.trans (by linarith)
  | some found => exact ⟨held.1.trans on, held.2⟩

theorem Held.past (held : rules.Held pace start n now entry) (count : ℕ) (last : ℚ)
    (found : entry = some (count, last)) : last ≤ now := by
  subst found
  exact held.1

/-- An attempt, for which the counter was ready. -/
theorem Held.attempt (held : rules.Held pace start n now entry) (ready : rules.Ready entry now) (begun : start ≤ now)
    (free : rules.delay 0 = 0) : rules.Held pace start (n + 1) now (bumped entry now) := by
  refine ⟨le_rfl, .inr ?_⟩
  have alone : now + rules.total 1 ≤ now := by
    rw [rules.total_succ, total_zero, free]
    linarith
  have first : pace * (0 : ℕ) ≤ now - start := by
    rw [Nat.cast_zero, mul_zero]
    linarith
  cases entry with
  | none =>
      rcases held with none | paced
      · exact ⟨0, 1, now, by omega, first, alone, Nat.le_add_left 1 _⟩
      · exact ⟨n, 1, now, rfl, paced, alone, Nat.le_add_left 1 _⟩
  | some found =>
      obtain ⟨past, none | ⟨before, m, since, split, paced, run, few⟩⟩ := held
      · exact ⟨0, 1, now, by omega, first, alone, Nat.le_add_left 1 _⟩
      · have rested := ready _ _ rfl
        have pause : rules.delay m ≤ rules.delay found.1 := rules.grows few
        refine ⟨before, m + 1, since, by omega, paced, ?_, Nat.succ_le_succ few⟩
        rw [total_succ]
        linarith

/-- The counter is forgotten after its rest. -/
theorem Held.forget (held : rules.Held pace start n now entry) (paced : rules.Paced pace slack)
    (rested : ∀ count last, entry = some (count, last) → last + rules.memory ≤ now) :
    rules.Held pace start n now none := by
  cases entry with
  | none => exact held
  | some found =>
      obtain ⟨past, none | ⟨before, m, since, split, early, run, few⟩⟩ := held
      · exact .inl none
      · have rest := rested _ _ rfl
        have short := paced.short m
        have forgets := paced.forgets
        refine .inr ?_
        rw [split, Nat.cast_add, mul_add]
        linarith

/-- So many attempts were let through at most. -/
theorem Held.bounded (held : rules.Held pace start n now entry) (paced : rules.Paced pace slack) {stop : ℚ}
    (begun : start ≤ stop) (within : now ≤ stop) : pace * n ≤ slack + (stop - start) := by
  have room : 0 ≤ slack := by
    have short := paced.short 0
    rw [total_zero, Nat.cast_zero, mul_zero] at short
    linarith
  have nothing (none : n = 0) : pace * n ≤ slack + (stop - start) := by
    rw [none, Nat.cast_zero, mul_zero]
    linarith
  cases entry with
  | none => exact held.elim nothing fun paced => by linarith
  | some found =>
      obtain ⟨past, none | ⟨before, m, since, split, early, run, few⟩⟩ := held
      · exact nothing none
      · have short := paced.short m
        rw [split, Nat.cast_add, mul_add]
        linarith

end Rules

end Backoff
