import Mathlib
import Trench.Lib.Dict
import Trench.Wire.Address

set_option autoImplicit false

/- Token buckets for the clients of a server, and what a client that is refused has asked. -/
namespace Trench.Engine

open Wire

/-- What the buckets hold at most and how fast they fill, with the buckets that are known: the tokens
in each, and when it was last looked at. -/
structure RateLimiter where
  rate : ℚ
  burst : ℚ
  maxKeys : Nat
  buckets : Dict Text (ℚ × ℚ) := .empty
  roomForOne : 1 ≤ burst

namespace RateLimiter

def defaultKeys : Nat := 65536

/-- `RateLimiter(rate, burst, max_keys, workers)`, for one of the workers. -/
def create (rate : ℚ) (burst : ℤ) (maxKeys : Nat) (workers : ℤ) : RateLimiter :=
  let shares : ℚ := max 1 workers
  let rate := if 0 < rate then rate / shares else rate
  { rate, burst := max 1 (if 0 < burst then burst / shares else max 1 rate), maxKeys,
    roomForOne := le_max_left _ _ }

def enabled (l : RateLimiter) : Bool := decide (0 < l.rate)

/-- The tokens of a client, what has come in since the last look included. -/
def tokens (l : RateLimiter) (key : Text) (now : ℚ) : ℚ :=
  let held := (l.buckets.get? key).getD (l.burst, now)
  min l.burst (held.1 + (now - held.2) * l.rate)

/-- `_trim`: without the quarter that was not looked at for longest. -/
def trim (l : RateLimiter) : Dict Text (ℚ × ℚ) :=
  let stale := l.buckets.entries.mergeSort fun a b => decide (a.2.2 ≤ b.2.2)
  l.buckets.eraseAll ((stale.take (max 1 (stale.length / 4))).map Prod.fst)

/-- `allow`. -/
def allow (l : RateLimiter) (key : Text) (now : ℚ) : Bool × RateLimiter :=
  if l.enabled = false then (true, l)
  else
    let tokens := l.tokens key now
    let allowed := decide (1 ≤ tokens)
    let buckets := if l.buckets.contains key = false ∧ l.maxKeys ≤ l.buckets.size then l.trim else l.buckets
    (allowed, { l with buckets := buckets.set key (if allowed then tokens - 1 else tokens, now) })

/-- `gc`: without the buckets that nobody has touched for a while. -/
def gc (l : RateLimiter) (now idle : ℚ) : RateLimiter :=
  let idlers := l.buckets.entries.filter fun e => decide (idle < now - e.2.2)
  { l with buckets := l.buckets.eraseAll (idlers.map Prod.fst) }

/-! ### What is left in a bucket -/

section

variable {l : RateLimiter} {key : Text} {now idle : ℚ}

theorem allow_of_disabled (off : l.enabled = false) : l.allow key now = (true, l) := if_pos off

theorem allowed_iff (on : l.enabled = true) : (l.allow key now).1 = true ↔ 1 ≤ l.tokens key now := by
  rw [allow, if_neg (by rw [on]; exact Bool.true_eq_false_eq_False), decide_eq_true_iff]

@[simp] theorem allow_rate : (l.allow key now).2.rate = l.rate := by
  rw [allow]
  split <;> rfl

@[simp] theorem allow_burst : (l.allow key now).2.burst = l.burst := by
  rw [allow]
  split <;> rfl

@[simp] theorem allow_enabled : (l.allow key now).2.enabled = l.enabled := by
  rw [enabled, allow_rate, enabled]

theorem get?_allow_self (on : l.enabled = true) : (l.allow key now).2.buckets.get? key =
    some (l.tokens key now - if 1 ≤ l.tokens key now then 1 else 0, now) := by
  rw [allow, if_neg (by rw [on]; exact Bool.true_eq_false_eq_False)]
  dsimp only
  rw [Dict.get?_set, if_pos BEq.rfl]
  split
  · next some =>
      rw [if_pos (of_decide_eq_true some)]
  · next none =>
      rw [if_neg fun one => none (decide_eq_true one), sub_zero]

/-- The other buckets stay as they are, those that are not trimmed. -/
theorem get?_allow_other {other : Text} {bucket : ℚ × ℚ} (apart : other ≠ key)
    (held : (l.allow key now).2.buckets.get? other = some bucket) :
    l.buckets.get? other = some bucket := by
  rw [allow] at held
  split at held
  · exact held
  · dsimp only at held
    rw [Dict.get?_set, if_neg fun same => apart (eq_of_beq same).symm] at held
    split at held
    · exact Dict.get?_of_eraseAll held
    · exact held

theorem get?_gc {other : Text} {bucket : ℚ × ℚ} (held : (l.gc now idle).buckets.get? other = some bucket) :
    l.buckets.get? other = some bucket := Dict.get?_of_eraseAll held

/-- From some moment on, what was asked and what is left make up for all that came in. -/
def Backed (l : RateLimiter) (asked : ℚ → Nat) (key : Text) : Prop :=
  ∀ held last, l.buckets.get? key = some (held, last) →
    ∃ start, start ≤ last ∧ l.burst + (last - start) * l.rate ≤ held + asked start

theorem backed_empty {asked : ℚ → Nat} (none : l.buckets = .empty) : Backed l asked key := by
  intro held last found
  rw [none] at found
  cases found

/-- The moment from which the bucket has been below its brim. -/
theorem tokens_backed {asked : ℚ → Nat} (backed : Backed l asked key)
    (earlier : ∀ held last, l.buckets.get? key = some (held, last) → last ≤ now) :
    ∃ start, start ≤ now ∧ l.burst + (now - start) * l.rate ≤ l.tokens key now + asked start := by
  have full (brim : l.tokens key now = l.burst) :
      ∃ start, start ≤ now ∧ l.burst + (now - start) * l.rate ≤ l.tokens key now + asked start := by
    refine ⟨now, le_refl now, ?_⟩
    rw [brim, sub_self, zero_mul, add_zero]
    exact le_add_of_nonneg_right (Nat.cast_nonneg _)
  cases found : l.buckets.get? key with
  | none =>
      apply full
      rw [tokens, found]
      simp only [Option.getD_none, sub_self, zero_mul, add_zero, min_self]
  | some bucket =>
      obtain ⟨held, last⟩ := bucket
      have tokens_eq : l.tokens key now = min l.burst (held + (now - last) * l.rate) := by
        rw [tokens, found]
        rfl
      rcases le_total l.burst (held + (now - last) * l.rate) with brim | below
      · exact full (tokens_eq.trans (min_eq_left brim))
      · obtain ⟨start, first, enough⟩ := backed held last found
        refine ⟨start, first.trans (earlier held last found), ?_⟩
        rw [tokens_eq, min_eq_right below]
        calc l.burst + (now - start) * l.rate
            = l.burst + (last - start) * l.rate + (now - last) * l.rate := by ring
          _ ≤ held + asked start + (now - last) * l.rate := by gcongr
          _ = held + (now - last) * l.rate + asked start := by ring

/-- A client that is refused has asked for more than its share, this query included. -/
theorem refused_exceeds {asked : ℚ → Nat} (backed : Backed l asked key)
    (earlier : ∀ held last, l.buckets.get? key = some (held, last) → last ≤ now)
    (refused : (l.allow key now).1 = false) :
    ∃ start, start ≤ now ∧ l.burst + (now - start) * l.rate < asked start + 1 := by
  cases on : l.enabled with
  | false =>
      rw [allow_of_disabled on] at refused
      cases refused
  | true =>
      obtain ⟨start, first, enough⟩ := tokens_backed backed earlier
      have less : l.tokens key now < 1 := by
        rw [← not_le, ← allowed_iff on, refused]
        exact Bool.false_ne_true
      refine ⟨start, first, enough.trans_lt ?_⟩
      rw [add_comm]
      gcongr

/-- A look that takes a token and one that takes none, where what is asked grows with the tokens. -/
theorem Backed.allow {asked asked' : ℚ → Nat} (backed : Backed l asked key)
    (earlier : ∀ held last, l.buckets.get? key = some (held, last) → last ≤ now)
    (more : ∀ start, start ≤ now →
      asked start + (if (l.allow key now).1 = true ∧ l.enabled = true then 1 else 0) ≤ asked' start) :
    Backed (l.allow key now).2 asked' key := by
  cases on : l.enabled with
  | false =>
      rw [allow_of_disabled on]
      intro held last found
      obtain ⟨start, first, enough⟩ := backed held last found
      refine ⟨start, first, enough.trans ?_⟩
      have grown := more start (first.trans (earlier held last found))
      gcongr
      exact (Nat.le_add_right _ _).trans grown
  | true =>
      intro held last found
      rw [get?_allow_self on] at found
      cases found
      rw [allow_burst, allow_rate]
      obtain ⟨start, first, enough⟩ := tokens_backed backed earlier
      refine ⟨start, first, ?_⟩
      have grown := more start first
      split
      · next one =>
          rw [if_pos ⟨(allowed_iff on).mpr one, on⟩] at grown
          have cast : (asked start : ℚ) + 1 ≤ asked' start := by exact_mod_cast grown
          linarith
      · next none =>
          have cast : (asked start : ℚ) ≤ asked' start :=
            Nat.cast_le.mpr ((Nat.le_add_right _ _).trans grown)
          linarith

end

end RateLimiter

end Trench.Engine
