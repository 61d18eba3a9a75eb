import Mathlib
import Trench.Engine.FastPath
import Trench.Lib.Machine

set_option autoImplicit false

/- Which verdict a replayed reply goes back to. -/
namespace Trench.Engine.FastPath

open Wire

namespace World

section

variable {π : Type} [DecidableEq π] {s : Settings π} {w w' : World π}

/-- The verdict behind a recorded reply is later than every change, and none is kept through a pause. -/
structure Current (w : World π) : Prop where
  decided : w.table.Every fun e => e.decided = w.changes
  paused : w.pausedAny = true → w.table.entries = []
  time : 0 ≤ w.now

/-- What is recorded was decided after the last change. -/
def Prompt (s : Settings π) (w : World π) : Event → Prop
  | .finishes r blob action timeDependent => ∀ run decided key answer, w.runs r = some run →
      run.decided = some decided →
      w.recorded s run decided blob action timeDependent = some (key, answer) → decided = w.changes
  | _ => True

/-- What is replayed was decided after every change there has been. -/
def Fresh (s : Settings π) (w : World π) (e : Event) : Prop :=
  ∀ data clientIp clientId gates out answer, e = .serves data clientIp clientId gates →
    (w.serve s data clientIp clientId gates).2 = some (out, answer) → answer.decided = w.changes

theorem current_initial (start : ℚ≥0) : Current (initial start : World π) :=
  ⟨fun _ held => absurd held List.not_mem_nil, fun _ => rfl, start.2⟩

/-! ### Pauses -/

theorem pausedAny_iff : w.pausedAny = true ↔ ¬(w.pausedUntil = 0 ∧ w.clientPause.size = 0) ∧
    (w.now < w.pausedUntil ∨ ∃ e ∈ w.clientPause.entries, w.now < e.2) := by
  rw [pausedAny]
  split
  · next none => simp [none]
  · next some => simp [some]

theorem mem_of_countP_pos {ps : List ℚ} {p : ℚ → Bool} (some : ps.countP p ≠ 0) : ∃ x ∈ ps, p x = true := by
  rw [Nat.ne_zero_iff_zero_lt, List.countP_pos_iff] at some
  exact some

/-- A pause that ends was on. -/
theorem pausedAny_of_ending {seconds : ℚ} (some : w.ending seconds ≠ 0) : w.pausedAny = true := by
  obtain ⟨stop, held, on⟩ := mem_of_countP_pos some
  have later : w.now < stop := by
    rw [Bool.and_eq_true, decide_eq_true_eq] at on
    exact on.1
  rw [pausedAny_iff]
  rcases List.mem_append.mp held with here | client
  · split at here
    · cases here
    · next set =>
        rw [List.mem_singleton] at here
        subst here
        exact ⟨fun unset => set unset.1, .inl later⟩
  · obtain ⟨e, listed, rfl⟩ := List.mem_map.mp client
    refine ⟨fun unset => ?_, .inr ⟨e, listed, later⟩⟩
    rw [List.length_eq_zero_iff.mp unset.2] at listed
    cases listed

theorem pausedAny_of_wait {seconds : ℚ} (on : (w.wait seconds).pausedAny = true) : w.pausedAny = true := by
  rw [pausedAny_iff] at on ⊢
  have less : w.now ≤ w.now + max 0 seconds := le_add_of_nonneg_right (le_max_left _ _)
  refine on.imp id (Or.imp (fun later => less.trans_lt later) ?_)
  rintro ⟨e, listed, later⟩
  exact ⟨e, listed, less.trans_lt later⟩

/-- Looking whether a client is paused starts none, and leaves the rest alone. -/
theorem paused_spec (time : 0 ≤ w.now) (clientIp : Text) :
    (w.paused clientIp).2.table = w.table ∧ (w.paused clientIp).2.changes = w.changes ∧
      (w.paused clientIp).2.now = w.now ∧
      ((w.paused clientIp).2.pausedAny = true → w.pausedAny = true) := by
  have taken (pauses : Dict Text ℚ) (fewer : ∀ e ∈ pauses.entries, e ∈ w.clientPause.entries)
      (on : ({ w with pausedUntil := 0, clientPause := pauses } : World π).pausedAny = true) :
      w.pausedAny = true := by
    rw [pausedAny_iff] at on ⊢
    obtain ⟨-, started | ⟨e, listed, later⟩⟩ := on
    · exact absurd started (not_lt.mpr time)
    · refine ⟨fun unset => ?_, .inr ⟨e, fewer e listed, later⟩⟩
      have held := fewer e listed
      rw [List.length_eq_zero_iff.mp unset.2] at held
      cases held
  have same := taken w.clientPause fun _ held => held
  rw [paused]
  split
  · exact ⟨rfl, rfl, rfl, id⟩
  · split
    · exact ⟨rfl, rfl, rfl, id⟩
    · dsimp only
      split
      · exact ⟨rfl, rfl, rfl, same⟩
      · split
        · exact ⟨rfl, rfl, rfl, same⟩
        · split
          · exact ⟨rfl, rfl, rfl, same⟩
          · exact ⟨rfl, rfl, rfl, taken _ fun e held => List.mem_of_mem_filter held⟩

/-! ### Each event -/

theorem current_clear (time : 0 ≤ w.now) : Current w.clear :=
  ⟨fun _ held => absurd held List.not_mem_nil, fun _ => rfl, time⟩

theorem Current.wait (current : Current w) (seconds : ℚ) : Current (w.wait seconds) := by
  refine ⟨?_, fun on => current.paused (pausedAny_of_wait on), ?_⟩
  · by_cases none : w.ending (max 0 seconds) = 0
    · intro e held
      change e.2.decided = w.changes + w.ending (max 0 seconds)
      rw [none, Nat.add_zero]
      exact current.decided e held
    · intro e held
      change e ∈ w.table.entries at held
      rw [current.paused (pausedAny_of_ending none)] at held
      cases held
  · exact add_nonneg current.time (le_max_left _ _)

theorem recorded_spec {r : Resolving} {decided : Nat} {blob : Octets} {action : Action}
    {timeDependent : Bool} {key : Octets} {answer : WireAnswer}
    (found : w.recorded s r decided blob action timeDependent = some (key, answer)) :
    w.usable s = true ∧ answer.decided = decided ∧ queryKey r.data = some (key, answer.qend) ∧
      answer.inserted = w.now ∧ 1 ≤ answer.baseTtl := by
  rw [recorded] at found
  split at found
  · cases found
  · next fits =>
      obtain ⟨⟨key', qend⟩, keyed, found⟩ := Option.bind_eq_some_iff.mp found
      obtain ⟨ttls, -, found⟩ := Option.bind_eq_some_iff.mp found
      obtain ⟨baseTtl, -, found⟩ := Option.bind_eq_some_iff.mp found
      split at found
      · cases found
      · next long =>
          obtain ⟨cookieAt, -, found⟩ := Option.bind_eq_some_iff.mp found
          cases found
          refine ⟨?_, rfl, keyed, rfl, Nat.not_lt.mp long⟩
          cases usable : w.usable s with
          | true => rfl
          | false => exact absurd (.inl usable) fits

theorem not_paused_of_usable (gate : w.usable s = true) : w.pausedAny = false := by
  simp only [usable, Bool.and_eq_true, Bool.not_eq_true'] at gate
  exact gate.1.1.1.2

theorem Current.store (current : Current w) {r : Resolving} {decided : Nat} {blob : Octets}
    {action : Action} {timeDependent : Bool}
    (prompt : ∀ key answer, w.recorded s r decided blob action timeDependent = some (key, answer) →
      decided = w.changes) : Current (w.store s r decided blob action timeDependent) := by
  rw [World.store]
  split
  · exact current
  · next key answer found =>
      obtain ⟨usable, verdict, -⟩ := recorded_spec found
      have calm := not_paused_of_usable usable
      refine ⟨?_, fun on => ?_, current.time⟩
      · exact (current.decided.dropFirst _).set _ (verdict.trans (prompt key answer found))
      · change w.pausedAny = true at on
        rw [calm] at on
        cases on

/-- What is served is an entry of the table, and the table keeps its verdicts. -/
theorem Current.serve (current : Current w) (data : Octets) (clientIp clientId : Text) (gates : Bool) :
    Current (w.serve s data clientIp clientId gates).1 ∧
      ∀ out answer, (w.serve s data clientIp clientId gates).2 = some (out, answer) →
        answer.decided = w.changes := by
  have unserved (policyIds : Dict π Octets) (out : Octets) (answer : WireAnswer)
      (none : (({ w with policyIds } : World π), (none : Option (Octets × WireAnswer))).2 = some (out, answer)) :
      answer.decided = w.changes := by cases none
  have still (policyIds : Dict π Octets) : Current ({ w with policyIds } : World π) :=
    ⟨current.decided, current.paused, current.time⟩
  rw [World.serve]
  split
  · exact ⟨current, unserved w.policyIds⟩
  · next gate =>
      have calm := not_paused_of_usable (Bool.eq_true_of_not_eq_false gate)
      split
      · exact ⟨current, unserved w.policyIds⟩
      · next key qend keyed =>
          dsimp only
          split
          · exact ⟨still _, unserved _⟩
          · next e held =>
              split
              · exact ⟨still _, unserved _⟩
              · have known := current.decided.get? held
                refine ⟨⟨current.decided.set _ ?_, fun on => ?_, current.time⟩, ?_⟩
                · split <;> exact known
                · change w.pausedAny = true at on
                  rw [calm] at on
                  cases on
                · rintro out answer ⟨⟩
                  exact known

theorem Current.step (current : Current w) {e : Event} (prompt : Prompt s w e)
    (taken : w.step s e = some w') : Current w' ∧ Fresh s w e := by
  have other {e : Event} (serves : ∀ data clientIp clientId gates, e ≠ .serves data clientIp clientId gates) :
      Fresh s w e := fun data clientIp clientId gates _ _ event => absurd event (serves data clientIp clientId gates)
  cases e with
  | waits seconds =>
      cases taken
      exact ⟨current.wait seconds, other nofun⟩
  | pauses seconds client =>
      cases taken
      refine ⟨current_clear ?_, other nofun⟩
      split <;> exact current.time
  | resumes client =>
      cases taken
      refine ⟨current_clear ?_, other nofun⟩
      split <;> exact current.time
  | swaps clientRules =>
      cases taken
      exact ⟨current_clear current.time, other nofun⟩
  | groups clientRules =>
      cases taken
      exact ⟨current_clear current.time, other nofun⟩
  | flushes =>
      cases taken
      exact ⟨current_clear current.time, other nofun⟩
  | arrives r data clientIp clientId =>
      rw [World.step] at taken
      split at taken
      · cases taken
        exact ⟨⟨current.decided, current.paused, current.time⟩, other nofun⟩
      · cases taken
  | decides r =>
      obtain ⟨run, -, taken⟩ := Option.bind_eq_some_iff.mp taken
      split at taken
      · cases taken
        obtain ⟨table, changes, now, on⟩ := paused_spec current.time run.clientIp
        refine ⟨⟨?_, fun paused => ?_, ?_⟩, other nofun⟩
        · change (w.paused run.clientIp).2.table.Every fun e => e.decided = (w.paused run.clientIp).2.changes
          rw [table, changes]
          exact current.decided
        · change (w.paused run.clientIp).2.table.entries = []
          rw [table]
          exact current.paused (on paused)
        · change 0 ≤ (w.paused run.clientIp).2.now
          rw [now]
          exact current.time
      · cases taken
  | finishes r blob action timeDependent =>
      obtain ⟨run, found, taken⟩ := Option.bind_eq_some_iff.mp taken
      obtain ⟨decided, verdict, taken⟩ := Option.bind_eq_some_iff.mp taken
      cases taken
      have stored := current.store fun key answer => prompt run decided key answer found verdict
      exact ⟨⟨stored.decided, stored.paused, stored.time⟩, other nofun⟩
  | serves data clientIp clientId gates =>
      cases taken
      obtain ⟨kept, fresh⟩ := current.serve (s := s) data clientIp clientId gates
      refine ⟨kept, ?_⟩
      rintro _ _ _ _ out answer ⟨⟩ served
      exact fresh out answer served

/-- A tag once given out stays. -/
theorem policyTag_again (s : Settings π) (w w' : World π) (clientIp clientId : Text)
    (ids : w'.policyIds = (w.policyTag s clientIp clientId).1) :
    w'.policyTag s clientIp clientId = w.policyTag s clientIp clientId := by
  rw [policyTag] at ids
  rw [policyTag, policyTag, ids]
  cases s.clients with
  | none => rfl
  | some identify =>
      dsimp only
      cases held : w.policyIds.get? (identify clientIp clientId) with
      | some tag =>
          dsimp only
          rw [held]
      | none =>
          dsimp only
          rw [Dict.get?_set, if_pos BEq.rfl]

/-- What is recorded is there for the next query with its octets. -/
theorem serve_stored {r : Resolving} {decided : Nat} {blob : Octets} {action : Action}
    {timeDependent : Bool} {key : Octets} {answer : WireAnswer}
    (kept : w.recorded s r decided blob action timeDependent = some (key, answer))
    (runs : Nat → Option Resolving) :
    ∃ out, (({ w.store s r decided blob action timeDependent with runs } : World π).serve s r.data r.clientIp
      r.clientId true).2 = some (out, answer) := by
  obtain ⟨usable, -, keyed, inserted, long⟩ := recorded_spec kept
  generalize same : ({ w.store s r decided blob action timeDependent with runs } : World π) = later
  rw [World.store, kept] at same
  dsimp only at same
  have gate : later.usable s = true := by
    rw [← same]
    exact usable
  have tag := policyTag_again s w later r.clientIp r.clientId (by rw [← same])
  have held : later.table.get? (key ++ (w.policyTag s r.clientIp r.clientId).2) = some answer := by
    rw [← same, Dict.get?_set, if_pos BEq.rfl]
  have now : later.now = w.now := by rw [← same]
  rw [World.serve, if_neg (by rw [gate]; exact Bool.true_eq_false_eq_False), keyed]
  dsimp only
  rw [tag, held]
  dsimp only
  rw [if_neg]
  · exact ⟨_, rfl⟩
  · rw [now, inserted, sub_self, sub_zero, not_or]
    exact ⟨not_le.mpr (Nat.cast_pos.mpr long), Bool.true_eq_false_eq_False⟩

/-- A reply recorded too late is what the next such query is served. -/
theorem unprompt_replayed {r : Nat} {run : Resolving} {decided : Nat} {blob : Octets} {action : Action}
    {timeDependent : Bool} {key : Octets} {answer : WireAnswer} (found : w.runs r = some run)
    (verdict : run.decided = some decided)
    (kept : w.recorded s run decided blob action timeDependent = some (key, answer))
    (late : decided ≠ w.changes) :
    ∃ w', w.step s (.finishes r blob action timeDependent) = some w' ∧
      ¬Fresh s w' (.serves run.data run.clientIp run.clientId true) := by
  obtain ⟨-, same, -⟩ := recorded_spec kept
  refine ⟨{ w.store s run decided blob action timeDependent with
    runs := Function.update w.runs r none }, ?_, fun fresh => ?_⟩
  · rw [World.step, found]
    simp only [Option.bind_eq_bind, Option.bind_some, verdict]
  · obtain ⟨out, served⟩ := serve_stored kept (Function.update w.runs r none)
    have current := fresh _ _ _ _ out answer rfl served
    refine late (same.symm.trans (current.trans ?_))
    rw [World.store, kept]

end

/-- Where no change comes between the verdict of a run and the recording of its reply, what is
replayed was decided after every change. -/
theorem fresh_of_prompt {π : Type} [DecidableEq π] (s : Settings π) (start : ℚ≥0)
    {steps : List (Machine.Step (World π) Event)} (run : Machine.Run (World.step s) (initial start) steps)
    (prompt : ∀ t ∈ steps, Prompt s t.before t.event) : ∀ t ∈ steps, Fresh s t.before t.event := by
  intro t taken
  have kept := Machine.Run.invariant (Prompt s) (fun w e _ => Fresh s w e) (fun current => current.step) run
    (current_initial start) prompt
  exact (kept t taken).2

/-! ### A swap of the rules -/

/-- One client, no policies and no cookies. -/
def plainSettings : Settings Unit := ⟨true, true, false, .off, 16384, none, none⟩

/-- A query for `a.`, and a reply with one address for a minute. -/
def asks : Octets := [0, 7, 1, 0, 0, 1, 0, 0, 0, 0, 0, 0, 1, 97, 0, 0, 1, 0, 1]

def answers : Octets :=
  [0, 7, 129, 128, 0, 1, 0, 1, 0, 0, 0, 0, 1, 97, 0, 0, 1, 0, 1, 0xC0, 12, 0, 1, 0, 1, 0, 0, 0, 60, 0, 4,
    192, 0, 2, 1]

/-- The rules change before the verdict. -/
def decidedAfter : List Event :=
  [.arrives 0 asks [] [], .swaps false, .decides 0, .finishes 0 answers .forwarded false,
    .serves asks [] [] true]

/-- The rules change while the run waits for its answer. -/
def decidedBefore : List Event :=
  [.arrives 0 asks [] [], .decides 0, .swaps false, .finishes 0 answers .forwarded false,
    .serves asks [] [] true]

theorem decidedAfter_fresh :
    (Machine.follow (World.step plainSettings) (initial 0) decidedAfter).length = 5 ∧
      ∀ t ∈ Machine.follow (World.step plainSettings) (initial 0) decidedAfter,
        Fresh plainSettings t.before t.event := by
  refine ⟨by decide +kernel, fresh_of_prompt plainSettings 0 (Machine.run_follow _ _ _) ?_⟩
  refine List.forall_mem_cons.mpr ⟨trivial, ?_⟩
  refine List.forall_mem_cons.mpr ⟨trivial, ?_⟩
  refine List.forall_mem_cons.mpr ⟨trivial, ?_⟩
  refine List.forall_mem_cons.mpr ⟨?_, ?_⟩
  · intro run decided key answer found verdict _
    cases found
    cases verdict
    rfl
  · refine List.forall_mem_cons.mpr ⟨trivial, ?_⟩
    exact List.forall_mem_nil _

/-- What was decided under the old rules is replayed under the new. -/
theorem decidedBefore_replayed : ¬∀ (s : Settings Unit) (start : ℚ≥0)
    (steps : List (Machine.Step (World Unit) Event)), Machine.Run (World.step s) (initial start) steps →
      ∀ t ∈ steps, Fresh s t.before t.event := by
  intro all
  have taken := List.getElem_mem (l := Machine.follow (World.step plainSettings) (initial 0) decidedBefore)
    (n := 4) (by decide +kernel)
  have fresh := all plainSettings 0 _ (Machine.run_follow _ _ _) _ taken
  have late : ((((Machine.follow (World.step plainSettings) (initial 0) decidedBefore)[4].before.serve
      plainSettings asks [] [] true).2).any fun served => decide (served.2.decided = 0)) = true := by
    decide +kernel
  obtain ⟨⟨out, answer⟩, served, verdict⟩ := (Option.any_eq_true _ _).mp late
  have current := fresh asks [] [] true out answer rfl served
  rw [of_decide_eq_true verdict] at current
  exact absurd current (by decide +kernel)

end World

end Trench.Engine.FastPath
