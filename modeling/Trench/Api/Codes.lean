import Mathlib
import Trench.Api.Guessing

set_option autoImplicit false

/- A code is good once. -/
namespace Trench.Api

open Wire

/-- A code as it is compared: nothing is stripped from it, and the comparison takes it. -/
def PlainCode (code : Text) : Prop := Name.strip code = code ∧ Totp.ascii code = true

/-- The code that an event hands to the manager. -/
def Event.plain : Event → Prop
  | .begins _ _ code _ => PlainCode code
  | .checks _ code _ => PlainCode code
  | _ => True

instance (e : Event) : Decidable e.plain :=
  match e with
  | .begins _ _ code _ => inferInstanceAs (Decidable (Name.strip code = code ∧ Totp.ascii code = true))
  | .checks _ code _ => inferInstanceAs (Decidable (Name.strip code = code ∧ Totp.ascii code = true))
  | .waits _ | .fetched _ _ | .hashes _ | .resumes _ | .fails _ => inferInstanceAs (Decidable True)

/-- No code of one time step satisfied both calls. -/
def Apart : Record → Record → Prop
  | .spent userId secret code moment, .spent userId' secret' code' moment' =>
      userId = userId' → secret = secret' →
        ∀ step, Totp.Satisfies secret code moment step → ¬Totp.Satisfies secret' code' moment' step
  | _, _ => True

/-- The verifier raised for the secret's sake, whatever code was shown. -/
def Excused : Record → Prop
  | .raised secret _ moment => Totp.Unreadable secret moment
  | _ => True

namespace AuthManager

/-- The code is held as spent, at this moment or later. -/
def Remembers (auth : AuthManager) (userId : ℕ) (code : Text) (since : ℚ) : Prop :=
  ∃ used last, auth.totpUsed.get? userId = some used ∧ used.get? code = some last ∧ since ≤ last

variable {auth : AuthManager} {userId : ℕ} {code : Text} {since mono : ℚ}

/-- The codes of the account that are not too old. -/
def usedNow (auth : AuthManager) (userId : ℕ) (mono : ℚ) : Dict Text ℚ :=
  ((auth.totpUsed.get? userId).getD .empty).keep fun e => decide (mono - e.2 ≤ 120)

theorem Remembers.usedNow (held : auth.Remembers userId code since) (young : mono - since ≤ 120) :
    ∃ last, (auth.usedNow userId mono).get? code = some last ∧ since ≤ last := by
  obtain ⟨used, last, found, spent, after⟩ := held
  refine ⟨last, ?_, after⟩
  rw [AuthManager.usedNow, found, Option.getD_some]
  exact Dict.get?_keep.mpr ⟨spent, decide_eq_true (by linarith)⟩

/-- What is young is not forgotten when another code is spent, or this one again. -/
theorem Remembers.consume (held : auth.Remembers userId code since) (young : mono - since ≤ 120) (past : since ≤ mono)
    (userId' : ℕ) (code' : Text) : (auth.consumeTotp userId' code' mono).2.Remembers userId code since := by
  by_cases same : userId' = userId
  · subst same
    obtain ⟨last, found, after⟩ := held.usedNow young
    rw [consumeTotp]
    split
    · exact ⟨_, last, (Dict.get?_set_eq ..).trans (if_pos rfl), found, after⟩
    · by_cases again : code' = code
      · exact ⟨_, mono, (Dict.get?_set_eq ..).trans (if_pos rfl), (Dict.get?_set_eq ..).trans (if_pos again), past⟩
      · exact ⟨_, last, (Dict.get?_set_eq ..).trans (if_pos rfl),
          ((Dict.get?_set_eq ..).trans (if_neg again)).trans found, after⟩
  · obtain ⟨used, last, found, spent, after⟩ := held
    rw [consumeTotp]
    split
    · exact ⟨used, last, ((Dict.get?_set_eq ..).trans (if_neg same)).trans found, spent, after⟩
    · exact ⟨used, last, ((Dict.get?_set_eq ..).trans (if_neg same)).trans found, spent, after⟩

/-- What is spent was not held as spent, and is from now on. -/
theorem consumed (fresh : (auth.consumeTotp userId code mono).1 = true) :
    (auth.consumeTotp userId code mono).2.Remembers userId code mono ∧
      ∀ since, mono - since ≤ 120 → ¬auth.Remembers userId code since := by
  rw [consumeTotp] at fresh ⊢
  split at fresh
  · cases fresh
  · next new =>
      rw [if_neg new]
      refine ⟨⟨_, mono, (Dict.get?_set_eq ..).trans (if_pos rfl), (Dict.get?_set_eq ..).trans (if_pos rfl), le_rfl⟩,
        fun since young held => ?_⟩
      obtain ⟨last, found, -⟩ := held.usedNow young
      exact new (Dict.contains_iff.mpr (Option.isSome_iff_exists.mpr ⟨last, found⟩))

end AuthManager

/-! ### What holds along a run -/

/-- What a record says about the codes, against what the manager holds: a code is held as spent for
as long as its step may be accepted. -/
def Accounted (w : World) : Record → Prop
  | .spent userId _ code moment =>
      PlainCode code ∧ moment ≤ w.now ∧
        (w.now - moment ≤ 120 → w.auth.Remembers userId code (moment - (w.now - w.mono)))
  | _ => True

structure OneTime (w : World) : Prop where
  calls : ∀ login ∈ w.calls, PlainCode login.code
  accounted : ∀ r ∈ w.record, Accounted w r
  once : w.record.Pairwise Apart
  excused : ∀ r ∈ w.record, Excused r

section

variable {verifyPassword : Text → Text → Bool} {w w' : World} {e : Event}

theorem Accounted.with {r : Record} (accounted : Accounted w r) {auth : AuthManager}
    (used : auth.totpUsed = w.auth.totpUsed) (calls : List Login) (record : List Record) :
    Accounted { w with auth, calls, record } r := by
  cases r with
  | spent userId secret code moment =>
      obtain ⟨plain, past, held⟩ := accounted
      refine ⟨plain, past, fun young => ?_⟩
      obtain ⟨found, last, here, spent, after⟩ := held young
      exact ⟨found, last, used ▸ here, spent, after⟩
  | _ => trivial

/-- The codes are not touched, and no call is new. -/
theorem OneTime.with (one : OneTime w) (auth : AuthManager) (used : auth.totpUsed = w.auth.totpUsed)
    {calls : List Login} (plain : ∀ login ∈ calls, PlainCode login.code) : OneTime { w with auth, calls } where
  calls := plain
  accounted r held := (one.accounted r held).with used calls w.record
  once := one.once
  excused := one.excused

/-- A record that is not about a code. -/
def Record.silent : Record → Bool
  | .spent _ _ _ _ => false
  | .raised _ _ _ => false
  | _ => true

theorem OneTime.noted (one : OneTime w) {r : Record} (silent : r.silent = true) :
    OneTime { w with record := r :: w.record } where
  calls := one.calls
  accounted := by
    refine List.forall_mem_cons.mpr ⟨?_, fun other held => (one.accounted other held).with rfl _ _⟩
    cases r with
    | spent userId secret code moment => cases silent
    | _ => trivial
  once := by
    refine List.pairwise_cons.mpr ⟨fun other _ => ?_, one.once⟩
    cases r with
    | spent userId secret code moment => cases silent
    | _ => cases other <;> trivial
  excused := by
    refine List.forall_mem_cons.mpr ⟨?_, one.excused⟩
    cases r with
    | raised secret code moment => cases silent
    | _ => trivial

/-- After a code was looked up, spent or not, every young code is still held. -/
theorem Accounted.consume {r : Record} (accounted : Accounted w r) (userId : ℕ) (code : Text) (record : List Record) :
    Accounted { w with auth := (w.auth.consumeTotp userId code w.mono).2, record } r := by
  cases r with
  | spent other secret shown moment =>
      obtain ⟨plain, past, held⟩ := accounted
      exact ⟨plain, past, fun young =>
        (held young).consume (by linarith) (by linarith) userId code⟩
  | _ => trivial

theorem OneTime.refused (one : OneTime w) {row : Row} {code : Text} {auth : AuthManager}
    (done : w.auth.secondFactor row code w.now w.mono = some (false, auth)) : OneTime { w with auth } := by
  rw [AuthManager.secondFactor] at done
  obtain ⟨found, -, done⟩ := Option.bind_eq_some_iff.mp done
  split at done
  · have same : auth = (w.auth.consumeTotp row.id code w.mono).2 := (congrArg Prod.snd (Option.some.inj done)).symm
    subst same
    exact ⟨one.calls, fun r held => (one.accounted r held).consume row.id code w.record, one.once, one.excused⟩
  · cases done
    exact one

/-- A code that is accepted and not held as spent satisfies no step that another call was satisfied with. -/
theorem OneTime.spent (one : OneTime w) {row : Row} {code : Text} {auth : AuthManager} (plain : PlainCode code)
    (done : w.auth.secondFactor row code w.now w.mono = some (true, auth)) :
    OneTime { w with auth, record := .spent row.id row.totpSecret code w.now :: w.record } := by
  rw [AuthManager.secondFactor] at done
  obtain ⟨found, -, done⟩ := Option.bind_eq_some_iff.mp done
  split at done
  · have fresh : (w.auth.consumeTotp row.id code w.mono).1 = true := congrArg Prod.fst (Option.some.inj done)
    have same : auth = (w.auth.consumeTotp row.id code w.mono).2 := (congrArg Prod.snd (Option.some.inj done)).symm
    subst same
    obtain ⟨held, unspent⟩ := AuthManager.consumed fresh
    refine ⟨one.calls, List.forall_mem_cons.mpr ⟨⟨plain, le_rfl, fun _ => ?_⟩, fun r held =>
      (one.accounted r held).consume row.id code _⟩, List.pairwise_cons.mpr ⟨fun r there => ?_, one.once⟩,
      List.forall_mem_cons.mpr ⟨trivial, one.excused⟩⟩
    · have now : w.now - (w.now - w.mono) = w.mono := by ring
      change AuthManager.Remembers _ _ _ (w.now - (w.now - w.mono))
      rw [now]
      exact held
    · cases r with
      | spent userId secret shown moment =>
          intro same_user same_secret step first second
          subst same_user same_secret
          obtain ⟨shown_plain, past, before⟩ := one.accounted _ there
          -- Both show the code of the step, and the step is accepted for less than the memory lasts.
          have same_code : code = shown := by
            rw [← plain.1, ← shown_plain.1]
            exact Option.some.inj (first.2.symm.trans second.2)
          have young := Totp.satisfies_near second first
          have earlier := before (by linarith)
          rw [← same_code] at earlier
          exact unspent _ (by linarith) earlier
      | _ => trivial
  · cases done

theorem OneTime.raised (one : OneTime w) {row : Row} {code : Text} (plain : PlainCode code)
    (done : w.auth.secondFactor row code w.now w.mono = none) :
    OneTime { w with record := .raised row.totpSecret code w.now :: w.record } := by
  have unreadable : Totp.Unreadable row.totpSecret w.now := by
    have ascii : Totp.ascii (Name.strip code) = true := plain.1.symm ▸ plain.2
    refine Totp.unreadable_of_verify ascii ?_
    rw [AuthManager.secondFactor] at done
    by_contra found
    obtain ⟨ok, found⟩ := Option.ne_none_iff_exists'.mp found
    have after := Option.bind_eq_none_iff.mp done ok found
    split at after
    · cases after
    · cases after
  refine ⟨one.calls, List.forall_mem_cons.mpr ⟨trivial, fun r held => (one.accounted r held).with rfl _ _⟩,
    List.pairwise_cons.mpr ⟨fun r _ => ?_, one.once⟩, List.forall_mem_cons.mpr ⟨unreadable, one.excused⟩⟩
  cases r <;> trivial

theorem totpUsed_countFails (keys : List Text) (auth : AuthManager) (now : ℚ) :
    (keys.foldl (fun auth key => auth.countFail key now) auth).totpUsed = auth.totpUsed := by
  induction keys generalizing auth with
  | nil => rfl
  | cons key rest ih => exact ih _

theorem OneTime.succeed (one : OneTime w) (login : Login) : OneTime (w.succeed login) :=
  (one.with (w.auth.welcome login.name login.place login.keys) rfl one.calls).noted rfl

theorem OneTime.fail (one : OneTime w) : OneTime w.fail := one.with (w.auth.sweep w.now) rfl one.calls

theorem oneTime_begin (one : OneTime w) (name password : Text) {code : Text} (plain : PlainCode code) (ip : Origin) :
    OneTime (w.begin name password code ip) := by
  rw [World.begin]
  split
  · refine OneTime.noted (one.with _ (totpUsed_countFails _ _ _) fun login held => ?_) rfl
    rcases List.mem_append.mp held with old | new
    · exact one.calls login old
    · rw [List.mem_singleton.mp new]
      exact plain
  · exact one

theorem oneTime_finish (one : OneTime w) {login : Login} (plain : PlainCode login.code) (row : Row) :
    OneTime (w.finish login row) := by
  rw [World.finish]
  split
  · exact one.succeed login
  · split
    · next done => exact one.raised plain done
    · next auth done => exact (one.refused done).fail
    · next auth done => exact (one.spent plain done).succeed login

theorem oneTime_check (one : OneTime w) (name : Text) {code : Text} (plain : PlainCode code) (row : Option Row) :
    OneTime (w.check name code row) := by
  cases row with
  | none => exact one
  | some row =>
      rw [World.check]
      split
      · exact one
      · split
        · exact one
        · split
          · exact one
          · split
            · next done => exact one.raised plain done
            · next auth done => exact (one.refused done).with (auth.countFail (totpKey name) w.now) rfl one.calls
            · next auth done =>
                exact (one.spent plain done).with { auth with fails := auth.fails.erase (totpKey name) } rfl one.calls

theorem OneTime.moved (one : OneTime w) {index : ℕ} {login : Login} (held : w.calls[index]? = some login)
    (stage : Stage) : OneTime { w with calls := w.calls.set index { login with stage } } := by
  refine one.with w.auth rfl fun other there => ?_
  rcases List.mem_or_eq_of_mem_set there with old | new
  · exact one.calls other old
  · rw [new]
    exact one.calls login (List.mem_of_getElem? held)

theorem oneTime_step (one : OneTime w) (plain : e.plain) (taken : w.step verifyPassword e = some w') : OneTime w' := by
  cases e with
  | waits seconds =>
      rw [World.step] at taken
      split at taken
      · next forward =>
          cases taken
          refine ⟨one.calls, fun r held => ?_, one.once, one.excused⟩
          have before := one.accounted r held
          cases r with
          | spent userId secret code moment =>
              obtain ⟨plain, past, memory⟩ := before
              have same : w.now + seconds - (w.mono + seconds) = w.now - w.mono := by ring
              refine ⟨plain, past.trans (le_add_of_nonneg_right forward), fun young => ?_⟩
              have younger : w.now - moment ≤ 120 := by
                change w.now + seconds - moment ≤ 120 at young
                linarith
              change AuthManager.Remembers _ _ _ (moment - (w.now + seconds - (w.mono + seconds)))
              rw [same]
              exact memory younger
          | _ => trivial
      · cases taken
  | begins name password code ip =>
      cases taken
      exact oneTime_begin one name password plain ip
  | fetched index row =>
      obtain ⟨login, held, taken⟩ := Option.bind_eq_some_iff.mp taken
      split at taken
      · cases taken
        exact one.moved held _
      · cases taken
  | hashes index =>
      obtain ⟨login, held, taken⟩ := Option.bind_eq_some_iff.mp taken
      split at taken
      · cases taken
        exact one.moved held _
      · cases taken
        exact (one.moved held _).noted rfl
      · cases taken
  | resumes index =>
      obtain ⟨login, held, taken⟩ := Option.bind_eq_some_iff.mp taken
      have rest : OneTime { w with calls := w.calls.eraseIdx index } :=
        one.with w.auth rfl fun other there => one.calls other (List.mem_of_mem_eraseIdx there)
      split at taken
      · cases taken
        exact oneTime_finish rest (one.calls login (List.mem_of_getElem? held)) _
      · cases taken
        exact rest.fail
      · cases taken
  | fails index =>
      rw [World.step] at taken
      split at taken
      · cases taken
        exact one.with w.auth rfl fun other there => one.calls other (List.mem_of_mem_eraseIdx there)
      · cases taken
  | checks name code row =>
      cases taken
      exact oneTime_check one name plain row

end

/-- When every code is handed over plain, no two successful calls are satisfied with one step, and the
verifier raises for the secret's sake only. -/
theorem codes_spent_once {verifyPassword : Text → Text → Bool} {now mono : ℚ} {steps : List (Machine.Step World Event)}
    (run : Machine.Run (World.step verifyPassword) (World.create now mono) steps) (plain : ∀ t ∈ steps, t.event.plain) :
    ∀ t ∈ steps, t.after.record.Pairwise Apart ∧ ∀ r ∈ t.after.record, Excused r := by
  have keeps {w w' : World} {e : Event} (one : OneTime w) (plain : e.plain)
      (taken : w.step verifyPassword e = some w') : OneTime w' ∧ True := ⟨oneTime_step one plain taken, trivial⟩
  have start : OneTime (World.create now mono) :=
    ⟨fun _ held => absurd held List.not_mem_nil, fun _ held => absurd held List.not_mem_nil, .nil,
      fun _ held => absurd held List.not_mem_nil⟩
  intro t held
  have one := (Machine.Run.invariant (fun _ e => Event.plain e) (fun _ _ _ => True) keeps run start plain t held).1
  exact ⟨one.once, one.excused⟩

/-! ### A code with a space in front -/

def guardedRow : Row := { annRow with totpSecret := "AAAAAAAA".toList }

/-- Ann signs in with a code. -/
def onceSteps : List (Machine.Step World Event) :=
  Machine.follow (World.step fits) (World.create 75 75) (login "ann" "correct horse" "812658" guardedRow)

theorem onceSteps_ne : onceSteps ≠ [] := List.cons_ne_nil _ _

def onceRecord : List Record := (onceSteps.getLast onceSteps_ne).after.record

theorem onceSteps_plain : ∀ t ∈ onceSteps, t.event.plain := by
  have plain : ∀ e ∈ login "ann" "correct horse" "812658" guardedRow, e.plain := by decide
  exact fun t taken => plain t.event (Machine.event_mem_of_follow _ taken)

theorem codes_spent_once_ann : onceRecord.Pairwise Apart ∧ ∀ r ∈ onceRecord, Excused r :=
  codes_spent_once (Machine.run_follow (World.step fits) (World.create 75 75) _) onceSteps_plain
    (onceSteps.getLast onceSteps_ne) (List.getLast_mem _)

/-- Whoever saw the code sends it again, behind a space. -/
def replaySteps : List (Machine.Step World Event) :=
  Machine.follow (World.step fits) (World.create 75 75)
    (login "ann" "correct horse" "812658" guardedRow ++ login "ann" "correct horse" " 812658" guardedRow)

theorem replaySteps_ne : replaySteps ≠ [] := List.cons_ne_nil _ _

theorem replay_spent : (replaySteps.getLast replaySteps_ne).after.record.filter (fun r => !r.silent) =
    [.spent 1 "AAAAAAAA".toList " 812658".toList 75, .spent 1 "AAAAAAAA".toList "812658".toList 75] := by
  decide +kernel

theorem replay_counter : Totp.counterAt 75 = 2 := by decide +kernel

theorem replay_code : Totp.hotp "AAAAAAAA".toList 1 = some "812658".toList := by decide +kernel

/-- The code of the step satisfies, with spaces around it or not. -/
theorem replay_satisfies {code : Text} (same : Name.strip code = "812658".toList) :
    Totp.Satisfies "AAAAAAAA".toList code 75 1 :=
  ⟨⟨-1, by decide, by rw [replay_counter]; rfl⟩, same ▸ replay_code⟩

theorem codes_spent_twice : ¬∀ (verifyPassword : Text → Text → Bool) (now mono : ℚ)
    (steps : List (Machine.Step World Event)),
    Machine.Run (World.step verifyPassword) (World.create now mono) steps →
    ∀ t ∈ steps, t.after.record.Pairwise Apart ∧ ∀ r ∈ t.after.record, Excused r := by
  intro claim
  have once := (claim fits 75 75 replaySteps (Machine.run_follow _ _ _) (replaySteps.getLast replaySteps_ne)
    (List.getLast_mem _)).1.filter fun r => !r.silent
  rw [replay_spent] at once
  have apart := (List.pairwise_cons.mp once).1 _ List.mem_cons_self
  exact apart rfl rfl 1 (replay_satisfies (by decide)) (replay_satisfies (by decide))

end Trench.Api
