import Trench.Engine.RateLimit
import Trench.Lib.Machine

set_option autoImplicit false

/- What the buckets of a rate limiter let through, along its runs. -/
namespace Trench.Engine.RateLimiter

open Wire

inductive Call where
  | allow (key : Text) (now : ℚ)
  | gc (now idle : ℚ)

def Call.now : Call → ℚ
  | .allow _ now => now
  | .gc now _ => now

/-- A limiter and the time of the last call to it. -/
structure Clocked where
  limiter : RateLimiter
  clock : ℚ

def perform (l : RateLimiter) : Call → RateLimiter
  | .allow key now => (l.allow key now).2
  | .gc now idle => l.gc now idle

/-- Calls come in the order of their times. -/
def step (w : Clocked) (c : Call) : Option Clocked :=
  if w.clock ≤ c.now then some ⟨w.limiter.perform c, c.now⟩ else none

/-- A call that is allowed for a key. -/
def passes (key : Text) (t : Machine.Step Clocked Call) : Bool :=
  match t.event with
  | .allow k now => decide (k = key) && (t.before.limiter.allow k now).1
  | .gc _ _ => false

theorem passes_allow (key : Text) (w w' : Clocked) (k : Text) (now : ℚ) :
    passes key ⟨w, .allow k now, w'⟩ = (decide (k = key) && (w.limiter.allow k now).1) := rfl

theorem passes_gc (key : Text) (w w' : Clocked) (now idle : ℚ) : passes key ⟨w, .gc now idle, w'⟩ = false := rfl

/-- A call after which a key's bucket is gone. -/
def Drops (key : Text) (t : Machine.Step Clocked Call) : Prop :=
  t.before.limiter.buckets.contains key = true ∧ t.after.limiter.buckets.contains key = false

/-- A collection of buckets that have had the time to fill up. -/
def Patient (l : RateLimiter) (c : Call) : Prop := ∃ now idle, c = .gc now idle ∧ l.burst / l.rate ≤ idle

/-- What a call does to the table and to each bucket. -/
structure Fair (l : RateLimiter) (c : Call) : Prop where
  bounded : (l.perform c).buckets.size ≤ l.maxKeys
  refused : ∀ key now, c = .allow key now → (l.allow key now).1 = false →
    ∃ held last, l.buckets.get? key = some (held, last) ∧ held + (now - last) * l.rate < 1
  others : ∀ key now, c = .allow key now → ∀ other, other ≠ key →
    (l.perform c).buckets.get? other = l.buckets.get? other ∨
      (l.perform c).buckets.get? other = none ∧ l.buckets.contains key = false ∧ l.maxKeys ≤ l.buckets.size
  full : l.Patient c → ∀ key, l.buckets.contains key = true → (l.perform c).buckets.contains key = false →
    l.tokens key c.now = l.burst
  even : l.Patient c → ∀ key later, c.now ≤ later → (l.perform c).tokens key later = l.tokens key later

/-- No bucket is overdrawn or of a later time, and there are not too many. -/
structure Kept (w : Clocked) : Prop where
  fills : 0 < w.limiter.rate
  room : 1 ≤ w.limiter.maxKeys
  size : w.limiter.buckets.size ≤ w.limiter.maxKeys
  held : ∀ key held last, w.limiter.buckets.get? key = some (held, last) → 0 ≤ held ∧ last ≤ w.clock

section

variable {l : RateLimiter} {key : Text} {now later idle : ℚ}

theorem tokens_of_missing (missing : l.buckets.get? key = none) (now : ℚ) : l.tokens key now = l.burst := by
  rw [tokens, missing, Option.getD_none, sub_self, zero_mul, add_zero, min_self]

theorem tokens_of_held {held last : ℚ} (found : l.buckets.get? key = some (held, last)) (now : ℚ) :
    l.tokens key now = min l.burst (held + (now - last) * l.rate) := by
  rw [tokens, found]
  rfl

theorem tokens_le_burst (l : RateLimiter) (key : Text) (now : ℚ) : l.tokens key now ≤ l.burst := min_le_left _ _

theorem tokens_congr {l' : RateLimiter} (burst : l'.burst = l.burst) (rate : l'.rate = l.rate)
    (same : l'.buckets.get? key = l.buckets.get? key) (now : ℚ) : l'.tokens key now = l.tokens key now := by
  rw [tokens, tokens, same, burst, rate]

theorem burst_pos (l : RateLimiter) : 0 < l.burst := zero_lt_one.trans_le l.roomForOne

/-- A bucket fills no faster than its rate. -/
theorem tokens_later (fills : 0 < l.rate) (ordered : now ≤ later) :
    l.tokens key later ≤ l.tokens key now + (later - now) * l.rate := by
  have grown : 0 ≤ (later - now) * l.rate := mul_nonneg (sub_nonneg.mpr ordered) fills.le
  cases found : l.buckets.get? key with
  | none =>
      rw [tokens_of_missing found, tokens_of_missing found]
      exact le_add_of_nonneg_right grown
  | some bucket =>
      obtain ⟨held, last⟩ := bucket
      rw [tokens_of_held found, tokens_of_held found, min_add]
      apply min_le_min
      · exact le_add_of_nonneg_right grown
      · exact le_of_eq (by ring)

theorem tokens_mono (fills : 0 < l.rate) (ordered : now ≤ later) (full : l.tokens key now = l.burst) :
    l.tokens key later = l.burst := by
  apply le_antisymm (tokens_le_burst l key later)
  cases found : l.buckets.get? key with
  | none => rw [tokens_of_missing found]
  | some bucket =>
      obtain ⟨held, last⟩ := bucket
      rw [tokens_of_held found] at full
      have enough : l.burst ≤ held + (now - last) * l.rate := min_eq_left_iff.mp full
      rw [tokens_of_held found]
      apply le_min le_rfl
      calc l.burst ≤ held + (now - last) * l.rate := enough
        _ ≤ held + (later - last) * l.rate := by gcongr

theorem enabled_iff : l.enabled = true ↔ 0 < l.rate := decide_eq_true_iff

/-- A look takes what it lets through. -/
theorem tokens_allow_self (fills : 0 < l.rate) : (l.allow key now).2.tokens key now =
    l.tokens key now - if (l.allow key now).1 = true then 1 else 0 := by
  have on := enabled_iff.mpr fills
  rw [tokens_of_held (get?_allow_self on), sub_self, zero_mul, add_zero, allow_burst]
  simp only [allowed_iff on]
  apply min_eq_right
  refine le_trans ?_ (tokens_le_burst l key now)
  split
  · exact sub_le_self _ zero_le_one
  · exact le_of_eq (sub_zero _)

/-- A look for another key leaves a bucket as it is, or evicts it from a table that is full. -/
theorem get?_allow_spared {other : Text} (apart : other ≠ key) :
    (l.allow key now).2.buckets.get? other = l.buckets.get? other ∨
      (l.allow key now).2.buckets.get? other = none ∧ l.buckets.contains key = false ∧
        l.maxKeys ≤ l.buckets.size := by
  rw [allow]
  split
  · exact .inl rfl
  · dsimp only
    rw [Dict.get?_set_eq, if_neg apart.symm]
    split
    · next full =>
        rw [trim, Dict.get?_eraseAll]
        split
        · exact .inr ⟨rfl, full⟩
        · exact .inl rfl
    · exact .inl rfl

/-- What a collection drops, nobody has touched for longer than the idle time. -/
theorem get?_gc_eq (l : RateLimiter) (key : Text) (now idle : ℚ) : (l.gc now idle).buckets.get? key = l.buckets.get? key ∨
    (l.gc now idle).buckets.get? key = none ∧
      ∃ held last, l.buckets.get? key = some (held, last) ∧ idle < now - last := by
  rw [gc, Dict.get?_eraseAll]
  split
  · next gone =>
      obtain ⟨⟨k, held, last⟩, idler, rfl⟩ := List.mem_map.mp gone
      obtain ⟨there, untouched⟩ := List.mem_filter.mp idler
      exact .inr ⟨rfl, held, last, Dict.get?_eq_some_iff_mem.mpr there, of_decide_eq_true untouched⟩
  · exact .inl rfl

theorem size_trim_lt (room : 1 ≤ l.maxKeys) (crowded : l.maxKeys ≤ l.buckets.size) :
    l.trim.size < l.buckets.size := by
  have some : 0 < l.buckets.entries.length := room.trans crowded
  set stale := l.buckets.entries.mergeSort fun a b => decide (a.2.2 ≤ b.2.2) with stale_eq
  have same : stale.length = l.buckets.entries.length := List.length_mergeSort _
  obtain ⟨oldest, rest, first⟩ : ∃ oldest rest, stale = oldest :: rest :=
    List.exists_cons_of_length_pos (same ▸ some)
  have there : l.buckets.contains oldest.1 = true := by
    rw [Dict.contains, List.any_eq_true]
    exact ⟨oldest, List.mem_mergeSort.mp (stale_eq ▸ first ▸ List.mem_cons_self), BEq.rfl⟩
  obtain ⟨n, taken⟩ : ∃ n, max 1 (stale.length / 4) = n + 1 :=
    Nat.exists_eq_add_one.mpr (Nat.lt_of_lt_of_le Nat.zero_lt_one (le_max_left _ _))
  rw [trim, ← stale_eq, taken, first, List.take_succ_cons, List.map_cons]
  exact (Dict.size_eraseAll_le (l.buckets.erase oldest.1) _).trans_lt (Dict.size_erase_lt there)

theorem size_perform (room : 1 ≤ l.maxKeys) (bounded : l.buckets.size ≤ l.maxKeys) (c : Call) :
    (l.perform c).buckets.size ≤ l.maxKeys := by
  cases c with
  | gc now idle => exact (Dict.size_eraseAll_le _ _).trans bounded
  | allow key now =>
      rw [perform, allow]
      split
      · exact bounded
      · dsimp only
        split
        · next full =>
            have trimmed := size_trim_lt room full.2
            have grown := Dict.size_set_le l.trim key
              (if decide (1 ≤ l.tokens key now) = true then l.tokens key now - 1 else l.tokens key now, now)
            omega
        · next spare =>
            cases held : l.buckets.contains key with
            | true => exact (Dict.size_set_held held _).trans_le bounded
            | false =>
                rw [Dict.size_set_new held]
                exact not_le.mp fun full => spare ⟨held, full⟩

theorem refused_short (fills : 0 < l.rate) (refused : (l.allow key now).1 = false) :
    ∃ held last, l.buckets.get? key = some (held, last) ∧ held + (now - last) * l.rate < 1 := by
  have short : l.tokens key now < 1 := by
    rw [← not_le, ← allowed_iff (enabled_iff.mpr fills), refused]
    exact Bool.false_ne_true
  cases found : l.buckets.get? key with
  | none =>
      rw [tokens_of_missing found] at short
      exact absurd l.roomForOne (not_le.mpr short)
  | some bucket =>
      obtain ⟨held, last⟩ := bucket
      rw [tokens_of_held found] at short
      exact ⟨held, last, rfl, (min_lt_iff.mp short).resolve_left (not_lt.mpr l.roomForOne)⟩

/-- A bucket that nobody has touched for as long as an empty one takes to fill is full. -/
theorem tokens_of_untouched {held last : ℚ} (fills : 0 < l.rate) (found : l.buckets.get? key = some (held, last))
    (sound : 0 ≤ held) (patient : l.burst / l.rate ≤ idle) (untouched : idle < now - last) :
    l.tokens key now = l.burst := by
  rw [tokens_of_held found]
  apply min_eq_left
  have filled : l.burst ≤ (now - last) * l.rate := (div_le_iff₀ fills).mp (patient.trans untouched.le)
  exact filled.trans (le_add_of_nonneg_left sound)

theorem perform_rate (l : RateLimiter) (c : Call) : (l.perform c).rate = l.rate := by
  cases c with
  | allow key now => exact allow_rate
  | gc now idle => rfl

theorem perform_burst (l : RateLimiter) (c : Call) : (l.perform c).burst = l.burst := by
  cases c with
  | allow key now => exact allow_burst
  | gc now idle => rfl

theorem perform_maxKeys (l : RateLimiter) (c : Call) : (l.perform c).maxKeys = l.maxKeys := by
  cases c with
  | allow key now =>
      rw [perform, allow]
      split <;> rfl
  | gc now idle => rfl

theorem Kept.fair {w : Clocked} (kept : Kept w) {c : Call} (ordered : w.clock ≤ c.now) : Fair w.limiter c := by
  have full (patient : w.limiter.Patient c) (key : Text)
      (gone : (w.limiter.perform c).buckets.get? key ≠ w.limiter.buckets.get? key) :
      w.limiter.tokens key c.now = w.limiter.burst := by
    obtain ⟨now, idle, rfl, enough⟩ := patient
    rcases get?_gc_eq w.limiter key now idle with same | ⟨-, dropped⟩
    · exact absurd same gone
    · obtain ⟨held, last, found, untouched⟩ := dropped
      exact tokens_of_untouched kept.fills found (kept.held key held last found).1 enough untouched
  constructor
  · exact size_perform kept.room kept.size c
  · exact fun key now _ refused => refused_short kept.fills refused
  · rintro key now rfl other apart
    exact get?_allow_spared apart
  · intro patient key there gone
    refine full patient key fun same => ?_
    rw [Dict.contains_iff, ← same, ← Dict.contains_iff, gone] at there
    cases there
  · intro patient key later onwards
    by_cases same : (w.limiter.perform c).buckets.get? key = w.limiter.buckets.get? key
    · exact tokens_congr (perform_burst _ c) (perform_rate _ c) same later
    · rw [tokens_mono kept.fills onwards (full patient key same)]
      obtain ⟨now, idle, rfl, -⟩ := patient
      rcases get?_gc_eq w.limiter key now idle with kept | ⟨gone, -⟩
      · exact absurd kept same
      · exact tokens_of_missing gone later

theorem step_eq {w w' : Clocked} {c : Call} (taken : step w c = some w') :
    w.clock ≤ c.now ∧ w' = ⟨w.limiter.perform c, c.now⟩ := by
  rw [step] at taken
  split at taken
  · next ordered => exact ⟨ordered, (Option.some.inj taken).symm⟩
  · cases taken

theorem tokens_nonneg {w : Clocked} (kept : Kept w) (onwards : w.clock ≤ now) : 0 ≤ w.limiter.tokens key now := by
  cases found : w.limiter.buckets.get? key with
  | none =>
      rw [tokens_of_missing found]
      exact w.limiter.burst_pos.le
  | some bucket =>
      obtain ⟨held, last⟩ := bucket
      obtain ⟨sound, earlier⟩ := kept.held key held last found
      rw [tokens_of_held found]
      apply le_min w.limiter.burst_pos.le
      exact add_nonneg sound (mul_nonneg (sub_nonneg.mpr (earlier.trans onwards)) kept.fills.le)

theorem Kept.step {w w' : Clocked} (kept : Kept w) {c : Call} (taken : step w c = some w') : Kept w' := by
  obtain ⟨ordered, rfl⟩ := step_eq taken
  refine ⟨?_, ?_, ?_, ?_⟩
  · exact (perform_rate _ c).symm ▸ kept.fills
  · exact (perform_maxKeys _ c).symm ▸ kept.room
  · exact (perform_maxKeys _ c).symm ▸ (kept.fair ordered).bounded
  · intro key held last found
    cases c with
    | gc now idle =>
        obtain ⟨sound, earlier⟩ := kept.held key held last (get?_gc found)
        exact ⟨sound, earlier.trans ordered⟩
    | allow k now =>
        by_cases same : key = k
        · subst same
          change (w.limiter.allow key now).2.buckets.get? key = _ at found
          rw [get?_allow_self (enabled_iff.mpr kept.fills)] at found
          cases found
          refine ⟨?_, le_rfl⟩
          split
          · next one => exact sub_nonneg.mpr one
          · rw [sub_zero]
            exact tokens_nonneg kept ordered
        · obtain ⟨sound, earlier⟩ := kept.held key held last (get?_allow_other same found)
          exact ⟨sound, earlier.trans ordered⟩

/-- What a call takes from a bucket that it does not drop early is what it lets through. -/
theorem Kept.spends {w w' : Clocked} (kept : Kept w) {c : Call} (taken : RateLimiter.step w c = some w')
    (spared : Drops key ⟨w, c, w'⟩ → w.limiter.Patient c) :
    (if passes key ⟨w, c, w'⟩ = true then 1 else 0) + w'.limiter.tokens key c.now = w.limiter.tokens key c.now := by
  obtain ⟨ordered, rfl⟩ := step_eq taken
  have fair := kept.fair ordered
  have idle (quiet : passes key ⟨w, c, ⟨w.limiter.perform c, c.now⟩⟩ = false)
      (same : (w.limiter.perform c).tokens key c.now = w.limiter.tokens key c.now) :
      (if passes key ⟨w, c, ⟨w.limiter.perform c, c.now⟩⟩ = true then 1 else 0) +
        (w.limiter.perform c).tokens key c.now = w.limiter.tokens key c.now := by
    rw [quiet, same, if_neg Bool.false_ne_true, zero_add]
  have stays (quiet : passes key ⟨w, c, ⟨w.limiter.perform c, c.now⟩⟩ = false)
      (either : (w.limiter.perform c).buckets.get? key = w.limiter.buckets.get? key ∨
        (w.limiter.perform c).buckets.get? key = none) :
      (if passes key ⟨w, c, ⟨w.limiter.perform c, c.now⟩⟩ = true then 1 else 0) +
        (w.limiter.perform c).tokens key c.now = w.limiter.tokens key c.now := by
    apply idle quiet
    rcases either with same | gone
    · exact tokens_congr (perform_burst _ c) (perform_rate _ c) same c.now
    · cases there : w.limiter.buckets.contains key with
      | true =>
          refine fair.even (spared ⟨there, ?_⟩) key c.now le_rfl
          rw [← Bool.not_eq_true, Dict.contains_iff, gone]
          exact Bool.false_ne_true
      | false =>
          have missing : w.limiter.buckets.get? key = none := by
            rw [← Option.not_isSome_iff_eq_none, ← Dict.contains_iff, there]
            exact Bool.false_ne_true
          exact tokens_congr (perform_burst _ c) (perform_rate _ c) (gone.trans missing.symm) c.now
  cases c with
  | gc now patience =>
      refine stays (passes_gc key _ _ now patience) ?_
      exact (get?_gc_eq _ _ _ _).imp_right And.left
  | allow k now =>
      by_cases same : k = key
      · subst same
        change _ + (w.limiter.allow k now).2.tokens k now = w.limiter.tokens k now
        rw [passes_allow, decide_eq_true rfl, Bool.true_and, tokens_allow_self kept.fills]
        exact add_sub_cancel _ _
      · refine stays ?_ ?_
        · rw [passes_allow, decide_eq_false same, Bool.false_and]
        · exact (fair.others k now rfl key (Ne.symm same)).imp_right And.left

/-- Every call of a run is at the clock's time or later. -/
theorem clock_le {w : Clocked} {steps : List (Machine.Step Clocked Call)}
    (run : Machine.Run RateLimiter.step w steps) : ∀ t ∈ steps, w.clock ≤ t.event.now := by
  induction run with
  | nil w => exact fun t taken => absurd taken List.not_mem_nil
  | cons taken more ih =>
      obtain ⟨ordered, rfl⟩ := step_eq taken
      exact List.forall_mem_cons.mpr ⟨ordered, fun t listed => ordered.trans (ih t listed)⟩

/-- Along a run that drops a bucket only when it is full, what passes comes out of the bucket. -/
theorem passed_le (key : Text) (now : ℚ) {w : Clocked} {window : List (Machine.Step Clocked Call)} {ends : ℚ}
    (run : Machine.Run RateLimiter.step w window) (kept : Kept w) (onwards : w.clock ≤ now) (opened : now ≤ ends)
    (within : ∀ t ∈ window, now ≤ t.event.now ∧ t.event.now ≤ ends)
    (spared : ∀ t ∈ window, Drops key t → t.before.limiter.Patient t.event) :
    (window.countP (passes key) : ℚ) ≤ w.limiter.tokens key now + (ends - now) * w.limiter.rate := by
  induction run generalizing now with
  | nil w =>
      rw [List.countP_nil, Nat.cast_zero]
      exact add_nonneg (tokens_nonneg kept onwards) (mul_nonneg (sub_nonneg.mpr opened) kept.fills.le)
  | @cons w w' c rest taken more ih =>
      obtain ⟨here, later⟩ := List.forall_mem_cons.mp within
      obtain ⟨sparedHere, sparedLater⟩ := List.forall_mem_cons.mp spared
      obtain ⟨ordered, after⟩ := step_eq taken
      have rate : w'.limiter.rate = w.limiter.rate := by
        rw [after]
        exact perform_rate _ c
      have times : ∀ t ∈ rest, c.now ≤ t.event.now ∧ t.event.now ≤ ends := by
        have clock : w'.clock = c.now := by rw [after]
        intro t listed
        exact ⟨clock ▸ clock_le more t listed, (later t listed).2⟩
      have left := ih c.now (kept.step taken) (by rw [after]) here.2 times sparedLater
      have spent := kept.spends taken sparedHere
      have filled : w.limiter.tokens key c.now ≤ _ := tokens_later kept.fills here.1
      rw [List.countP_cons, Nat.cast_add, Nat.cast_ite, Nat.cast_one, Nat.cast_zero]
      rw [rate] at left
      linarith

end

/-- A limiter between two calls, with the figures that it was made with. -/
structure Serves (made : RateLimiter) (w : Clocked) : Prop where
  kept : Kept w
  rate : w.limiter.rate = made.rate
  burst : w.limiter.burst = made.burst
  maxKeys : w.limiter.maxKeys = made.maxKeys

theorem Serves.step {made : RateLimiter} {w w' : Clocked} (serves : Serves made w) {c : Call}
    (taken : RateLimiter.step w c = some w') : Serves made w' := by
  have after := (step_eq taken).2
  refine ⟨serves.kept.step taken, ?_, ?_, ?_⟩ <;> rw [after]
  · exact (perform_rate _ c).trans serves.rate
  · exact (perform_burst _ c).trans serves.burst
  · exact (perform_maxKeys _ c).trans serves.maxKeys

theorem serves_create {rate : ℚ} {maxKeys : Nat} (fills : 0 < rate) (room : 1 ≤ maxKeys) (burst workers : ℤ)
    (start : ℚ) :
    Serves (create rate burst maxKeys workers) ⟨create rate burst maxKeys workers, start⟩ := by
  refine ⟨⟨?_, room, Nat.zero_le _, fun key held last found => nomatch found⟩, rfl, rfl, rfl⟩
  have share : (0 : ℚ) < ((max 1 workers : ℤ) : ℚ) :=
    Int.cast_pos.mpr (lt_of_lt_of_le Int.zero_lt_one (le_max_left 1 workers))
  change 0 < if 0 < rate then rate / _ else rate
  rw [if_pos fills]
  rw [Int.cast_max, Int.cast_one] at share
  exact div_pos fills share

/-- What a limiter that was made with some figures lets through, whatever it is asked: in no stretch of a
run that drops a key's bucket only when it is full do more calls pass for the key than its burst and what
comes in meanwhile. -/
theorem run_bounded {rate : ℚ} {burst : ℤ} {maxKeys : Nat} {workers : ℤ} {start : ℚ}
    {steps : List (Machine.Step Clocked Call)} (fills : 0 < rate) (room : 1 ≤ maxKeys)
    (run : Machine.Run step ⟨create rate burst maxKeys workers, start⟩ steps) :
    (∀ t ∈ steps, Serves (create rate burst maxKeys workers) t.before ∧ Fair t.before.limiter t.event ∧
      t.after.limiter = t.before.limiter.perform t.event ∧ t.after.limiter.buckets.size ≤ maxKeys) ∧
    ∀ earlier window later, steps = earlier ++ (window ++ later) → ∀ key opens closes, opens ≤ closes →
      (∀ t ∈ window, opens ≤ t.event.now ∧ t.event.now ≤ closes) →
      (∀ t ∈ window, Drops key t → t.before.limiter.Patient t.event) →
      (window.countP (passes key) : ℚ) ≤ (create rate burst maxKeys workers).burst +
        (create rate burst maxKeys workers).rate * (closes - opens) := by
  have begins := serves_create fills room burst workers start
  constructor
  · have keeps {w w' : Clocked} {c : Call} (serves : Serves (create rate burst maxKeys workers) w) (_ : True)
        (taken : step w c = some w') : Serves (create rate burst maxKeys workers) w' ∧
          (Serves (create rate burst maxKeys workers) w ∧ Fair w.limiter c ∧
            w'.limiter = w.limiter.perform c ∧ w'.limiter.buckets.size ≤ maxKeys) := by
      obtain ⟨ordered, after⟩ := step_eq taken
      refine ⟨serves.step taken, serves, serves.kept.fair ordered, ?_, ?_⟩
      · rw [after]
      · exact (serves.step taken).kept.size.trans (serves.step taken).maxKeys.le
    have each := run.invariant (fun _ _ => True)
      (fun w c w' => Serves (create rate burst maxKeys workers) w ∧ Fair w.limiter c ∧
        w'.limiter = w.limiter.perform c ∧ w'.limiter.buckets.size ≤ maxKeys)
      (fun serves fits taken => keeps serves fits taken) begins fun _ _ => trivial
    exact fun t taken => (each t taken).2
  · intro earlier window later split key opens closes ordered within spared
    subst split
    obtain ⟨w, serves, goes⟩ := run.rest (fun serves taken => serves.step taken) begins
    have stretch := goes.first
    rcases window with _ | ⟨t, window⟩
    · rw [List.countP_nil, Nat.cast_zero]
      rw [← serves.burst, ← serves.rate]
      exact add_nonneg w.limiter.burst_pos.le (mul_nonneg serves.kept.fills.le (sub_nonneg.mpr ordered))
    · have first := clock_le stretch t List.mem_cons_self
      have ends := (within t List.mem_cons_self).2
      have bound := passed_le key (max opens w.clock) stretch serves.kept (le_max_right _ _)
        (max_le ordered (first.trans ends))
        (fun t listed => ⟨max_le (within t listed).1 (clock_le stretch t listed), (within t listed).2⟩) spared
      refine bound.trans ?_
      rw [← serves.burst, ← serves.rate, mul_comm w.limiter.rate]
      apply add_le_add (tokens_le_burst w.limiter key _)
      apply mul_le_mul_of_nonneg_right _ serves.kept.fills.le
      exact sub_le_sub_left (le_max_left _ _) closes

/-- Two calls at once and a third a second later, where one token comes in each second. -/
def threeCalls : List (Machine.Step Clocked Call) := Machine.follow step ⟨create 1 1 1 1, 0⟩
  [.allow ['a'] 0, .allow ['a'] 0, .allow ['a'] 1]

theorem run_bounded_threeCalls : threeCalls.countP (passes ['a']) = 2 ∧
    (threeCalls.countP (passes ['a']) : ℚ) ≤ (create 1 1 1 1).burst + (create 1 1 1 1).rate * (1 - 0) := by
  refine ⟨by decide +kernel, ?_⟩
  have run := Machine.run_follow step ⟨create 1 1 1 1, 0⟩ [.allow ['a'] 0, .allow ['a'] 0, .allow ['a'] 1]
  refine (run_bounded zero_lt_one le_rfl run).2 [] threeCalls [] (List.append_nil _).symm ['a'] 0 1 zero_le_one ?_ ?_
  · intro t taken
    have asked := Machine.event_mem_of_follow step taken
    simp only [List.mem_cons, List.not_mem_nil, or_false] at asked
    rcases asked with here | here | here <;> rw [here]
    · exact ⟨le_rfl, zero_le_one⟩
    · exact ⟨le_rfl, zero_le_one⟩
    · exact ⟨zero_le_one, le_rfl⟩
  · intro t taken dropped
    have none : threeCalls.all (fun t => !(t.before.limiter.buckets.contains ['a'] &&
        !t.after.limiter.buckets.contains ['a'])) = true := by decide +kernel
    have here := List.all_eq_true.mp none t taken
    rw [dropped.1, dropped.2] at here
    cases here

end Trench.Engine.RateLimiter
