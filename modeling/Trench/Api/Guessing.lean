import Mathlib
import Trench.Lib.Backoff
import Trench.Api.Auth

set_option autoImplicit false

/- How many passwords can be tried on an account. -/
namespace Trench.Api

open Wire

/-! ### No address is the key of an account -/

/-- The text begins like no key of an account. -/
def Leads (s : Text) : Prop := s.head? ≠ some 'u' ∧ s.head? ≠ some 't'

theorem leads_nil : Leads [] := ⟨nofun, nofun⟩

theorem leads_cons {c : Char} (apart : c ≠ 'u' ∧ c ≠ 't') (rest : Text) : Leads (c :: rest) :=
  ⟨fun same => apart.1 (Option.some.inj same), fun same => apart.2 (Option.some.inj same)⟩

theorem leads_append {s t : Text} (first : Leads s) (second : Leads t) : Leads (s ++ t) := by
  cases s with
  | nil => exact second
  | cons c s => exact first

theorem digitChar_ne (d : ℕ) : Nat.digitChar d ≠ 'u' ∧ Nat.digitChar d ≠ 't' := by
  by_cases small : d < 16
  · revert d
    decide
  · have beyond : Nat.digitChar d = '*' := by
      unfold Nat.digitChar
      repeat rw [if_neg (by omega)]
    rw [beyond]
    decide

theorem leads_digit (d : ℕ) (rest : Text) : Leads (Nat.digitChar d :: rest) := leads_cons (digitChar_ne d) rest

theorem leads_decimalOctet (c : UInt8) : Leads (decimalOctet c) := by
  simp only [decimalOctet]
  split
  · exact leads_digit _ _
  · split
    · exact leads_digit _ _
    · exact leads_digit _ _

theorem leads_hexGroup (g : ℕ) : Leads (hexGroup g) := by
  simp only [hexGroup]
  split
  · exact leads_digit _ _
  · split
    · exact leads_digit _ _
    · split
      · exact leads_digit _ _
      · exact leads_digit _ _

/-- The first text leads, or the separator does. -/
theorem leads_intercalate {c : Char} (lead : Leads [c]) {texts : List Text} (each : ∀ t ∈ texts, Leads t) :
    Leads ([c].intercalate texts) := by
  induction texts with
  | nil => exact leads_nil
  | cons t rest ih =>
      obtain ⟨here, later⟩ := List.forall_mem_cons.mp each
      cases rest with
      | nil => simpa [List.intercalate] using here
      | cons next rest =>
          rw [List.intercalate_cons_cons]
          exact leads_append (leads_append here lead) (ih later)

theorem leads_inetNtop4 (octets : Octets) : Leads (inetNtop4 octets) := by
  refine leads_intercalate (leads_cons (by decide) []) fun t held => ?_
  obtain ⟨c, -, rfl⟩ := List.mem_map.mp held
  exact leads_decimalOctet c

theorem leads_joinGroups (groups : List ℕ) : Leads (joinGroups groups) := by
  refine leads_intercalate (leads_cons (by decide) []) fun t held => ?_
  obtain ⟨g, -, rfl⟩ := List.mem_map.mp held
  exact leads_hexGroup g

theorem leads_inetNtop6 (octets : Octets) : Leads (inetNtop6 octets) := by
  have colons (rest : Text) : Leads (':' :: ':' :: rest) := leads_cons (by decide) _
  simp only [inetNtop6]
  split
  · exact leads_joinGroups _
  · split
    · exact colons _
    · split
      · exact colons _
      · exact leads_append (leads_joinGroups _) (colons _)

/-- A letter does not begin a dotted quad. -/
theorem inetPton4_letter {c : Char} (letter : Name.isDigit c = false) (other : c ≠ '.') (rest : Text) :
    inetPton4 (c :: rest) = none := by
  have unread (p : Text) : parseDecimalOctet (c :: p) = none := by
    rw [parseDecimalOctet, if_neg]
    rintro ⟨-, digits, -⟩
    rw [List.all_cons, letter] at digits
    cases digits
  have apart : (c == '.') = false := beq_eq_false_iff_ne.mpr other
  rw [inetPton4, List.splitOn_cons_eq_if_modifyHead, apart]
  simp only [Bool.false_eq_true, ↓reduceIte]
  cases rest.splitOn '.' with
  | nil => rfl
  | cons p parts =>
      rw [List.modifyHead_cons, List.mapM_cons, unread, Option.bind_eq_bind, Option.bind_none, ite_self]

theorem Origin.leads (ip : Origin) : Leads (addrKey ip.text) := by
  have quad {s : Text} (read : (inetPton4 s).isSome = true) : Leads s := by
    cases s with
    | nil => exact leads_nil
    | cons c rest =>
        constructor
        · intro same
          obtain rfl := Option.some.inj same
          rw [inetPton4_letter (by decide) (by decide)] at read
          cases read
        · intro same
          obtain rfl := Option.some.inj same
          rw [inetPton4_letter (by decide) (by decide)] at read
          cases read
  rw [addrKey]
  split
  · next unread =>
      rcases ip.plain with read | same | same
      · rw [unread] at read
        cases read
      · rw [same]
        exact leads_cons (by decide) []
      · rw [same]
        exact leads_nil
  · next addr read =>
      split
      · next four => exact quad (quad_of_ipAddress read four)
      · split
        · exact leads_inetNtop4 _
        · refine leads_append (leads_append (leads_inetNtop6 _) ?_) (leads_cons (by decide) _)
          split
          · cases addr.scope with
            | none => exact leads_nil
            | some name => exact leads_cons (by decide) name
          · exact leads_nil

/-! ### The pause after so many failures -/

def lockDelay (count : ℕ) : ℚ := if count < 5 then 0 else min 300 (2 * 2 ^ (count - 5))

theorem lockDelay_grows : Monotone lockDelay := by
  intro few more up
  rw [lockDelay, lockDelay]
  split
  · split
    · exact le_rfl
    · positivity
  · next many =>
      rw [if_neg (by omega)]
      have power : (2 : ℚ) ^ (few - 5) ≤ 2 ^ (more - 5) := pow_le_pow_right₀ (by norm_num) (by omega)
      exact min_le_min_left 300 (by linarith)

def lockout : Backoff.Rules := ⟨lockDelay, 1200, lockDelay_grows, le_rfl⟩

/-- Eighty seconds each, but for fourteen. -/
theorem lockout_paced : lockout.Paced 80 1120 := by
  refine ⟨fun attempts => ?_, by norm_num [lockout]⟩
  induction attempts with
  | zero =>
      rw [Nat.cast_zero, mul_zero, Backoff.Rules.total_zero]
      norm_num
  | succ attempts ih =>
      rw [Backoff.Rules.total_succ, Nat.cast_succ]
      by_cases many : 14 ≤ attempts
      · have pause : lockDelay 14 ≤ lockDelay attempts := lockDelay_grows many
        have long : lockDelay 14 = 300 := by norm_num [lockDelay]
        change 80 * ((attempts : ℚ) + 1) ≤ 1120 + (lockout.total attempts + lockDelay attempts)
        linarith
      · have few : (attempts : ℚ) + 1 ≤ 14 := by exact_mod_cast (by omega : attempts + 1 ≤ 14)
        have spent : 0 ≤ lockout.total attempts + lockout.delay attempts := by
          rw [← Backoff.Rules.total_succ]
          exact lockout.total_nonneg _
        linarith

/-- An attempt that is let through has waited. -/
theorem ready_of_locked {auth : AuthManager} {key : Text} {now wait : ℚ} (free : auth.locked key now = some wait)
    (none_left : ¬0 < wait) (past : ∀ count last, auth.fails.get? key = some (count, last) → last ≤ now) :
    lockout.Ready (auth.fails.get? key) now := by
  intro count last found
  have before := past _ _ found
  change last + lockDelay count ≤ now
  rw [AuthManager.locked, found] at free
  simp only [Option.getD_some] at free
  rw [lockDelay]
  split at free
  · next few =>
      rw [if_pos few, add_zero]
      exact before
  · next many =>
      rw [if_neg many]
      split at free
      · cases free
      · cases free
        have open_ := (le_max_right _ _).trans (not_lt.mp none_left)
        linarith

theorem anyLocked_false {auth : AuthManager} {now : ℚ} {keys : List Text}
    (free : auth.anyLocked now keys = some false) :
    ∀ key ∈ keys, ∃ wait, auth.locked key now = some wait ∧ ¬0 < wait := by
  induction keys with
  | nil => exact fun key held => absurd held List.not_mem_nil
  | cons key rest ih =>
      rw [AuthManager.anyLocked] at free
      obtain ⟨wait, found, free⟩ := Option.bind_eq_some_iff.mp free
      split at free
      · cases free
      · next idle => exact List.forall_mem_cons.mpr ⟨⟨wait, found, idle⟩, ih free⟩

theorem get?_countFails {keys : List Text} (apart : keys.Nodup) (auth : AuthManager) (now : ℚ) (key : Text) :
    (keys.foldl (fun auth key => auth.countFail key now) auth).fails.get? key =
      if key ∈ keys then Backoff.bumped (auth.fails.get? key) now else auth.fails.get? key := by
  induction keys generalizing auth with
  | nil => exact (if_neg List.not_mem_nil).symm
  | cons first rest ih =>
      obtain ⟨new, others⟩ := List.nodup_cons.mp apart
      have after : (auth.countFail first now).fails.get? key =
          if first = key then Backoff.bumped (auth.fails.get? first) now else auth.fails.get? key :=
        Dict.get?_set_eq ..
      rw [List.foldl_cons, ih others, after]
      by_cases same : first = key
      · subst same
        rw [if_pos rfl, if_neg new, if_pos List.mem_cons_self]
      · have split : key ∈ first :: rest ↔ key ∈ rest :=
          List.mem_cons.trans (or_iff_right fun here => same here.symm)
        rw [if_neg same]
        simp only [split]

theorem loginKeys_nodup (auth : AuthManager) (name : Text) (ip : Origin) :
    (auth.loginKeys name (addrKey ip.text)).Nodup := by
  rw [AuthManager.loginKeys]
  split
  · exact List.nodup_singleton _
  · have apart : addrKey ip.text ≠ userKey name := fun same => ip.leads.1 (same ▸ rfl)
    exact List.nodup_cons.mpr ⟨fun held => apart (List.mem_singleton.mp held), List.nodup_singleton _⟩

/-! ### What a step does to one counter -/

/-- The moments of the logins counted under a key. -/
def countedAt (key : Text) (record : List Record) : List ℚ :=
  record.filterMap fun
    | .counted login => if key ∈ login.keys then some login.began else none
    | _ => none

/-- The moments of the successes that clear a key. -/
def clearedAt (key : Text) (record : List Record) : List ℚ :=
  record.filterMap fun
    | .signedIn login moment => if key ∈ login.keys then some moment else none
    | _ => none

theorem clearedAt_signedIn (key : Text) (login : Login) (moment : ℚ) (record : List Record) :
    clearedAt key (.signedIn login moment :: record) =
      if key ∈ login.keys then moment :: clearedAt key record else clearedAt key record := by
  by_cases mine : key ∈ login.keys
  · simp only [clearedAt, List.filterMap_cons, if_pos mine]
  · simp only [clearedAt, List.filterMap_cons, if_neg mine]

def World.entry (w : World) (key : Text) : Backoff.Entry := w.auth.fails.get? key

inductive Moves (key : Text) (w w' : World) : Prop where
  | rests (on : w.now ≤ w'.now) (entry : w'.entry key = w.entry key)
      (counted : countedAt key w'.record = countedAt key w.record)
      (cleared : clearedAt key w'.record = clearedAt key w.record)
  | counts (same : w'.now = w.now)
      (ready : (∀ count last, w.entry key = some (count, last) → last ≤ w.now) → lockout.Ready (w.entry key) w.now)
      (entry : w'.entry key = Backoff.bumped (w.entry key) w.now)
      (counted : countedAt key w'.record = w.now :: countedAt key w.record)
      (cleared : clearedAt key w'.record = clearedAt key w.record)
  | forgets (same : w'.now = w.now) (entry : w'.entry key = none)
      (rested : ∀ count last, w.entry key = some (count, last) → last + lockout.memory ≤ w.now)
      (counted : countedAt key w'.record = countedAt key w.record)
      (cleared : clearedAt key w'.record = clearedAt key w.record)
  | clears (same : w'.now = w.now) (entry : w'.entry key = none)
      (counted : countedAt key w'.record = countedAt key w.record)
      (cleared : clearedAt key w'.record = w.now :: clearedAt key w.record)

/-- Nothing that bears on the counter is different. -/
structure Still (key : Text) (w v : World) : Prop where
  now : v.now = w.now
  entry : v.entry key = w.entry key
  counted : countedAt key v.record = countedAt key w.record
  cleared : clearedAt key v.record = clearedAt key w.record

section

variable {verifyPassword : Text → Text → Bool} {key : Text} {w v w' : World} {e : Event}

theorem Still.moves (still : Still key w v) : Moves key w v :=
  .rests still.now.ge still.entry still.counted still.cleared

theorem Still.fail (still : Still key w v) : Moves key w v.fail := by
  have swept {entry : ℕ × ℚ} : v.fail.entry key = some entry ↔ v.entry key = some entry ∧
      decide (v.now - entry.2 ≤ 1200) = true := Dict.get?_keep
  by_cases rested : ∀ count last, v.entry key = some (count, last) → last + 1200 < v.now
  · refine .forgets still.now ?_ ?_ still.counted still.cleared
    · rw [Option.eq_none_iff_forall_ne_some]
      rintro ⟨count, last⟩ found
      obtain ⟨held, young⟩ := swept.mp found
      have old := rested _ _ held
      have young := of_decide_eq_true young
      linarith
    · intro count last found
      rw [← still.entry] at found
      rw [← still.now]
      exact (rested _ _ found).le
  · push Not at rested
    obtain ⟨count, last, found, young⟩ := rested
    refine .rests still.now.ge ?_ still.counted still.cleared
    rw [← still.entry, found]
    exact swept.mpr ⟨found, decide_eq_true (by linarith)⟩

theorem Still.succeed (still : Still key w v) (login : Login) : Moves key w (v.succeed login) := by
  have entry : (v.succeed login).entry key = if key ∈ login.keys then none else v.entry key := Dict.get?_eraseAll ..
  have counted : countedAt key (v.succeed login).record = countedAt key w.record := still.counted
  by_cases mine : key ∈ login.keys
  · refine .clears still.now ?_ counted ?_
    · rw [entry, if_pos mine]
    · change clearedAt key (.signedIn login v.now :: v.record) = _
      rw [clearedAt_signedIn, if_pos mine, still.now, still.cleared]
  · refine .rests still.now.ge ?_ counted ?_
    · rw [entry, if_neg mine, still.entry]
    · change clearedAt key (.signedIn login v.now :: v.record) = _
      rw [clearedAt_signedIn, if_neg mine, still.cleared]

theorem fails_secondFactor {auth auth' : AuthManager} {row : Row} {code : Text} {now mono : ℚ} {ok : Bool}
    (done : auth.secondFactor row code now mono = some (ok, auth')) : auth'.fails = auth.fails := by
  rw [AuthManager.secondFactor] at done
  obtain ⟨found, -, done⟩ := Option.bind_eq_some_iff.mp done
  split at done
  · rw [AuthManager.consumeTotp] at done
    split at done
    · cases done
      rfl
    · cases done
      rfl
  · cases done
    rfl

/-- The codes, the calls and the clock's other reading do not bear on the counter. -/
theorem still_with (w : World) (auth : AuthManager) (fails : auth.fails = w.auth.fails) (mono : ℚ) (calls : List Login) :
    Still key w ⟨auth, w.now, mono, calls, w.record⟩ := by
  refine ⟨rfl, ?_, rfl, rfl⟩
  rw [World.entry, fails]
  rfl

theorem moves_begin (w : World) (name password code : Text) (ip : Origin) :
    Moves key w (w.begin name password code ip) := by
  rw [World.begin]
  split
  · next free =>
      set keys := w.auth.loginKeys name (addrKey ip.text) with named
      have counts := get?_countFails (loginKeys_nodup w.auth name ip) w.auth w.now key
      rw [← named] at counts
      by_cases mine : key ∈ keys
      · obtain ⟨wait, found, idle⟩ := anyLocked_false free key mine
        refine .counts rfl (ready_of_locked found idle) ?_ ?_ ?_
        · rw [if_pos mine] at counts
          exact counts
        · simp only [countedAt, List.filterMap_cons, if_pos mine]
        · simp only [clearedAt, List.filterMap_cons]
      · refine .rests le_rfl ?_ ?_ ?_
        · rw [if_neg mine] at counts
          exact counts
        · simp only [countedAt, List.filterMap_cons, if_neg mine]
        · simp only [clearedAt, List.filterMap_cons]
  · exact .rests le_rfl rfl rfl rfl

theorem moves_finish (w : World) (calls : List Login) (login : Login) (row : Row) :
    Moves key w (World.finish { w with calls } login row) := by
  have here : Still key w { w with calls } := still_with w w.auth rfl w.mono calls
  rw [World.finish]
  split
  · exact here.succeed login
  · split
    · exact Still.moves ⟨rfl, rfl, rfl, rfl⟩
    · next auth done => exact (still_with w auth (fails_secondFactor done) w.mono calls).fail
    · next auth done =>
        have spent : Still key w _ := still_with w auth (fails_secondFactor done) w.mono calls
        have after : Still key w
            ⟨auth, w.now, w.mono, calls, .spent row.id row.totpSecret login.code w.now :: w.record⟩ :=
          ⟨rfl, spent.entry, rfl, rfl⟩
        exact after.succeed login

theorem moves_check (apart : ∀ name, key ≠ totpKey name) (w : World) (name code : Text) (row : Option Row) :
    Moves key w (w.check name code row) := by
  have still : Moves key w w := Still.moves ⟨rfl, rfl, rfl, rfl⟩
  cases row with
  | none => exact still
  | some row =>
      rw [World.check]
      split
      · exact still
      · split
        · exact still
        · split
          · exact still
          · split
            · exact Still.moves ⟨rfl, rfl, rfl, rfl⟩
            · next auth done =>
                refine Still.moves ⟨rfl, ?_, rfl, rfl⟩
                change (auth.fails.set (totpKey name) _).get? key = w.auth.fails.get? key
                rw [Dict.get?_set_eq, if_neg (apart name).symm, fails_secondFactor done]
            · next auth done =>
                refine Still.moves ⟨rfl, ?_, rfl, rfl⟩
                change (auth.fails.erase (totpKey name)).get? key = w.auth.fails.get? key
                rw [Dict.get?_erase_eq, if_neg (apart name).symm, fails_secondFactor done]

theorem moves_step (apart : ∀ name, key ≠ totpKey name) (taken : w.step verifyPassword e = some w') :
    Moves key w w' := by
  cases e with
  | waits seconds =>
      rw [World.step] at taken
      split at taken
      · next forward =>
          cases taken
          exact .rests (le_add_of_nonneg_right forward) rfl rfl rfl
      · cases taken
  | begins name password code ip =>
      cases taken
      exact moves_begin w name password code ip
  | fetched index row =>
      obtain ⟨login, -, taken⟩ := Option.bind_eq_some_iff.mp taken
      split at taken
      · cases taken
        exact Still.moves ⟨rfl, rfl, rfl, rfl⟩
      · cases taken
  | hashes index =>
      obtain ⟨login, -, taken⟩ := Option.bind_eq_some_iff.mp taken
      split at taken
      · cases taken
        exact Still.moves ⟨rfl, rfl, rfl, rfl⟩
      · cases taken
        exact Still.moves ⟨rfl, rfl, rfl, rfl⟩
      · cases taken
  | resumes index =>
      obtain ⟨login, -, taken⟩ := Option.bind_eq_some_iff.mp taken
      split at taken
      · cases taken
        exact moves_finish w _ login _
      · cases taken
        exact (still_with w w.auth rfl w.mono _).fail
      · cases taken
  | fails index =>
      rw [World.step] at taken
      split at taken
      · cases taken
        exact Still.moves ⟨rfl, rfl, rfl, rfl⟩
      · cases taken
  | checks name code row =>
      cases taken
      exact moves_check apart w name code row

end

/-! ### The bound -/

/-- A moment of the window. -/
def within (start stop moment : ℚ) : Bool := decide (start ≤ moment ∧ moment ≤ stop)

/-- No success clears the counter in the window. -/
def Uncleared (key : Text) (start stop : ℚ) (w : World) : Prop :=
  ∀ moment ∈ clearedAt key w.record, within start stop moment = false

/-- The counter lets few logins through in the window. -/
structure Slow (key : Text) (start stop : ℚ) (w : World) : Prop where
  few : 80 * ((countedAt key w.record).countP (within start stop) : ℚ) ≤ 1120 + (stop - start)
  held : w.now ≤ stop → lockout.Held 80 start ((countedAt key w.record).countP (within start stop)) w.now (w.entry key)
  early : w.now < start → (countedAt key w.record).countP (within start stop) = 0

section

variable {key : Text} {start stop : ℚ} {w w' : World}

theorem slow_create (begun : start ≤ stop) (now mono : ℚ) : Slow key start stop (World.create now mono) := by
  refine ⟨?_, fun _ => .inl rfl, fun _ => rfl⟩
  change 80 * ((0 : ℕ) : ℚ) ≤ _
  rw [Nat.cast_zero, mul_zero]
  linarith

theorem Moves.uncleared (moves : Moves key w w') (clean : Uncleared key start stop w') : Uncleared key start stop w := by
  intro moment held
  cases moves with
  | rests on entry counted cleared => exact clean moment (cleared ▸ held)
  | counts same ready entry counted cleared => exact clean moment (cleared ▸ held)
  | forgets same entry rested counted cleared => exact clean moment (cleared ▸ held)
  | clears same entry counted cleared => exact clean moment (cleared ▸ List.mem_cons_of_mem _ held)

/-- What the counter holds within the window bounds what it let through. -/
theorem slow_of_held (begun : start ≤ stop) {n : ℕ}
    (few : stop < w.now → 80 * (n : ℚ) ≤ 1120 + (stop - start))
    (counted : (countedAt key w.record).countP (within start stop) = n)
    (held : w.now ≤ stop → lockout.Held 80 start n w.now (w.entry key)) (early : w.now < start → n = 0) :
    Slow key start stop w := by
  refine ⟨?_, counted ▸ held, counted ▸ early⟩
  rw [counted]
  rcases le_or_gt w.now stop with inside | beyond
  · exact (held inside).bounded lockout_paced begun inside
  · exact few beyond

theorem Slow.moves (begun : start ≤ stop) (slow : Slow key start stop w) (moves : Moves key w w')
    (clean : Uncleared key start stop w') : Slow key start stop w' := by
  cases moves with
  | rests on entry counted cleared =>
      refine slow_of_held begun (fun _ => slow.few) (congrArg _ counted) (fun inside => ?_) fun before =>
        slow.early (on.trans_lt before)
      rw [entry]
      exact (slow.held (on.trans inside)).waits on
  | counts same ready entry counted cleared =>
      by_cases inside : within start stop w.now = true
      · obtain ⟨after, before⟩ := of_decide_eq_true inside
        have held := slow.held before
        refine slow_of_held begun (fun beyond => absurd before (not_le.mpr (same ▸ beyond)))
          (by rw [counted, List.countP_cons_of_pos inside]) (fun _ => ?_) fun first =>
          absurd after (not_le.mpr (same ▸ first))
        rw [entry, same]
        exact held.attempt (ready held.past) after rfl
      · refine slow_of_held begun (fun _ => slow.few) (by rw [counted, List.countP_cons_of_neg inside])
          (fun before => ?_) fun first => slow.early (same ▸ first)
        -- Before the window nothing has been counted.
        have first : w.now < start := by
          by_contra after
          exact inside (decide_eq_true ⟨not_lt.mp after, same ▸ before⟩)
        have none := slow.early first
        have held := slow.held (same ▸ before)
        rw [none] at held ⊢
        rw [entry, same]
        exact Backoff.Rules.held_start _ fun count last found => by
          cases found
          exact le_rfl
  | forgets same entry rested counted cleared =>
      refine slow_of_held begun (fun _ => slow.few) (congrArg _ counted) (fun inside => ?_) fun before =>
        slow.early (same ▸ before)
      rw [entry, same]
      exact (slow.held (same ▸ inside)).forget lockout_paced rested
  | clears same entry counted cleared =>
      have outside := clean w.now (cleared ▸ List.mem_cons_self)
      refine slow_of_held begun (fun _ => slow.few) (congrArg _ counted) (fun before => ?_) fun first =>
        slow.early (same ▸ first)
      have first : w.now < start := by
        by_contra after
        rw [within, decide_eq_true ⟨not_lt.mp after, same ▸ before⟩] at outside
        cases outside
      rw [entry, slow.early first]
      exact .inl rfl

end

/-! ### Who is counted for what -/

/-- The account has signed in from this prefix. -/
def signedInFrom (name place : Text) (record : List Record) : Bool :=
  record.any fun
    | .signedIn login _ => login.name == name && login.place == place
    | _ => false

/-- A login is counted for its prefix, and for its account unless that has signed in from there. -/
structure Fair (record : List Record) (login : Login) : Prop where
  leads : Leads login.place
  own : ∀ key ∈ login.keys, key = login.place ∨ key = userKey login.name
  place : login.place ∈ login.keys
  account : userKey login.name ∈ login.keys ∨ signedInFrom login.name login.place record = true

structure Standing (w : World) : Prop where
  known : ∀ name place, place ∈ (w.auth.knownFrom.get? name).getD [] → signedInFrom name place w.record = true
  calls : ∀ login ∈ w.calls, login.began ≤ w.now ∧ Fair w.record login
  verified : ∀ login moment, .verified login moment ∈ w.record → login.began ≤ moment ∧ Fair w.record login
  signed : ∀ login moment, .signedIn login moment ∈ w.record → Fair w.record login

/-- The hash is still to come. -/
def Stage.waits : Stage → Bool
  | .fetching => true
  | .hashing _ => true
  | .hashed _ _ => false

section

variable {key : Text} {start stop : ℚ}

/-- Counted under the key, in the window. -/
def Login.counts (key : Text) (start stop : ℚ) (login : Login) : Bool :=
  decide (key ∈ login.keys) && within start stop login.began

def pending (key : Text) (start stop : ℚ) (calls : List Login) : ℕ :=
  calls.countP fun login => login.stage.waits && login.counts key start stop

/-- The passwords that were compared for logins of the window. -/
def compared (key : Text) (start stop : ℚ) (record : List Record) : ℕ :=
  record.countP fun
    | .verified login _ => login.counts key start stop
    | _ => false

/-- Every password that is compared, or will be, belongs to a login of its own. -/
def Booked (key : Text) (start stop : ℚ) (w : World) : Prop :=
  compared key start stop w.record + pending key start stop w.calls ≤
    (countedAt key w.record).countP (within start stop)

end

theorem signedInFrom_cons {name place : Text} {record : List Record} (held : signedInFrom name place record = true)
    (r : Record) : signedInFrom name place (r :: record) = true := by
  rw [signedInFrom, List.any_cons, Bool.or_eq_true]
  exact .inr held

theorem Fair.cons {record : List Record} {login : Login} (fair : Fair record login) (r : Record) :
    Fair (r :: record) login :=
  ⟨fair.leads, fair.own, fair.place, fair.account.imp_right fun held => signedInFrom_cons held r⟩

theorem countP_set_add {α : Type} {p : α → Bool} {l : List α} {index : ℕ} {old : α} (held : l[index]? = some old)
    (new : α) : (l.set index new).countP p + (if p old then 1 else 0) = l.countP p + (if p new then 1 else 0) := by
  obtain ⟨short, here⟩ := List.getElem?_eq_some_iff.mp held
  have one : (if p old then 1 else 0) ≤ l.countP p := by
    split
    · next hit => exact List.countP_pos_iff.mpr ⟨old, List.mem_of_getElem? held, hit⟩
    · exact Nat.zero_le _
  rw [List.countP_set short, here]
  omega

section

variable {verifyPassword : Text → Text → Bool} {key : Text} {start stop : ℚ} {w w' : World} {e : Event}

theorem knownFrom_secondFactor {auth auth' : AuthManager} {row : Row} {code : Text} {now mono : ℚ} {ok : Bool}
    (done : auth.secondFactor row code now mono = some (ok, auth')) : auth'.knownFrom = auth.knownFrom := by
  rw [AuthManager.secondFactor] at done
  obtain ⟨found, -, done⟩ := Option.bind_eq_some_iff.mp done
  split at done
  · rw [AuthManager.consumeTotp] at done
    split at done
    · cases done
      rfl
    · cases done
      rfl
  · cases done
    rfl

theorem knownFrom_countFails (keys : List Text) (auth : AuthManager) (now : ℚ) :
    (keys.foldl (fun auth key => auth.countFail key now) auth).knownFrom = auth.knownFrom := by
  induction keys generalizing auth with
  | nil => rfl
  | cons key rest ih => exact ih _

theorem fair_loginKeys (standing : Standing w) {login : Login} (leads : Leads login.place)
    (keys : login.keys = w.auth.loginKeys login.name login.place) : Fair w.record login := by
  rw [AuthManager.loginKeys] at keys
  split at keys
  · next held =>
      refine ⟨leads, fun key mine => .inl ?_, keys ▸ List.mem_cons_self, .inr (standing.known _ _ held)⟩
      rw [keys] at mine
      exact List.mem_singleton.mp mine
  · refine ⟨leads, fun key mine => ?_, keys ▸ List.mem_cons_self,
      .inl (keys ▸ List.mem_cons_of_mem _ List.mem_cons_self)⟩
    rw [keys] at mine
    exact List.mem_pair.mp mine

/-- A record of something else than a comparison. -/
theorem Standing.noted (standing : Standing w) {r : Record} (other : ∀ login moment, r ≠ .verified login moment)
    (fair : ∀ login moment, r = .signedIn login moment → Fair w.record login) :
    Standing { w with record := r :: w.record } where
  known name place held := signedInFrom_cons (standing.known name place held) r
  calls login held := ⟨(standing.calls login held).1, (standing.calls login held).2.cons r⟩
  verified login moment held := by
    rcases List.mem_cons.mp held with here | held
    · exact absurd here.symm (other login moment)
    · exact ⟨(standing.verified login moment held).1, (standing.verified login moment held).2.cons r⟩
  signed login moment held := by
    rcases List.mem_cons.mp held with here | held
    · exact (fair login moment here.symm).cons r
    · exact (standing.signed login moment held).cons r

/-- Calls that end, and what is kept of the counters and the codes. -/
theorem Standing.calm (standing : Standing w) {auth : AuthManager} (known : auth.knownFrom = w.auth.knownFrom)
    {calls : List Login} (fewer : ∀ login ∈ calls, login ∈ w.calls) : Standing { w with auth, calls } where
  known name place held := standing.known name place (known ▸ held)
  calls login held := standing.calls login (fewer login held)
  verified := standing.verified
  signed := standing.signed

theorem Standing.succeed (standing : Standing w) {login : Login} (fair : Fair w.record login) :
    Standing (w.succeed login) := by
  have noted := standing.noted (r := .signedIn login w.now) nofun fun other moment same => by
    cases same
    exact fair
  refine ⟨fun name place held => ?_, noted.calls, noted.verified, noted.signed⟩
  change place ∈ ((w.auth.knownFrom.set login.name _).get? name).getD [] at held
  rw [Dict.get?_set_eq] at held
  have here : signedInFrom login.name login.place (w.succeed login).record = true := by
    change signedInFrom _ _ (.signedIn login w.now :: w.record) = true
    refine List.any_eq_true.mpr ⟨_, List.mem_cons_self, ?_⟩
    simp only [beq_self_eq_true, Bool.and_self]
  split at held
  · next same =>
      subst same
      rw [Option.getD_some] at held
      split at held
      · exact noted.known _ _ held
      · rcases List.mem_append.mp (List.mem_of_mem_drop held) with old | new
        · exact noted.known _ _ old
        · rw [List.mem_singleton.mp new]
          exact here
  · exact noted.known _ _ held

theorem Standing.fail (standing : Standing w) : Standing w.fail :=
  ⟨standing.known, standing.calls, standing.verified, standing.signed⟩

theorem standing_begin (standing : Standing w) (name password code : Text) (ip : Origin) :
    Standing (w.begin name password code ip) := by
  rw [World.begin]
  split
  · set login : Login :=
      { name, password, code, place := addrKey ip.text
        keys := w.auth.loginKeys name (addrKey ip.text), began := w.now } with named
    have noted := standing.noted (r := .counted login) nofun nofun
    refine ⟨fun who place held => ?_, fun other held => ?_, noted.verified, noted.signed⟩
    · rw [knownFrom_countFails] at held
      exact noted.known who place held
    · rcases List.mem_append.mp held with old | new
      · exact noted.calls other old
      · rw [List.mem_singleton.mp new]
        exact ⟨le_rfl, (fair_loginKeys standing ip.leads rfl).cons _⟩
  · exact standing

theorem standing_finish (standing : Standing w) {login : Login} (fair : Fair w.record login) (row : Row) :
    Standing (w.finish login row) := by
  rw [World.finish]
  split
  · exact standing.succeed fair
  · split
    · exact standing.noted nofun nofun
    · next auth done => exact (standing.calm (knownFrom_secondFactor done) fun _ held => held).fail
    · next auth done =>
        have calm := standing.calm (knownFrom_secondFactor done) fun _ held => held
        exact (calm.noted (r := .spent row.id row.totpSecret login.code w.now) nofun nofun).succeed (fair.cons _)

theorem standing_check (standing : Standing w) (name code : Text) (row : Option Row) :
    Standing (w.check name code row) := by
  cases row with
  | none => exact standing
  | some row =>
      rw [World.check]
      split
      · exact standing
      · split
        · exact standing
        · split
          · exact standing
          · split
            · exact standing.noted nofun nofun
            · next auth done =>
                have calm := standing.calm (knownFrom_secondFactor done) fun _ held => held
                exact ⟨calm.known, calm.calls, calm.verified, calm.signed⟩
            · next auth done =>
                have calm := standing.calm (knownFrom_secondFactor done) fun _ held => held
                have noted := calm.noted (r := .spent row.id row.totpSecret code w.now) nofun nofun
                exact ⟨noted.known, noted.calls, noted.verified, noted.signed⟩

/-- A call that moves on. -/
theorem Standing.moved (standing : Standing w) {index : ℕ} {login : Login} (held : w.calls[index]? = some login)
    (stage : Stage) : Standing { w with calls := w.calls.set index { login with stage } } := by
  refine ⟨standing.known, fun other there => ?_, standing.verified, standing.signed⟩
  rcases List.mem_or_eq_of_mem_set there with old | new
  · exact standing.calls other old
  · obtain ⟨before, fair⟩ := standing.calls login (List.mem_of_getElem? held)
    rw [new]
    exact ⟨before, fair.leads, fair.own, fair.place, fair.account⟩

theorem standing_step (standing : Standing w) (taken : w.step verifyPassword e = some w') : Standing w' := by
  cases e with
  | waits seconds =>
      rw [World.step] at taken
      split at taken
      · next forward =>
          cases taken
          refine ⟨standing.known, fun login held => ?_, standing.verified, standing.signed⟩
          exact ⟨(standing.calls login held).1.trans (le_add_of_nonneg_right forward), (standing.calls login held).2⟩
      · cases taken
  | begins name password code ip =>
      cases taken
      exact standing_begin standing name password code ip
  | fetched index row =>
      obtain ⟨login, held, taken⟩ := Option.bind_eq_some_iff.mp taken
      split at taken
      · cases taken
        exact standing.moved held _
      · cases taken
  | hashes index =>
      obtain ⟨login, held, taken⟩ := Option.bind_eq_some_iff.mp taken
      split at taken
      · cases taken
        exact standing.moved held _
      · next row hashing =>
          cases taken
          have mine := standing.calls login (List.mem_of_getElem? held)
          have moved := standing.moved held (.hashed (some row) (verifyPassword login.password row.pwHash))
          refine ⟨fun name place known => signedInFrom_cons (moved.known name place known) _, fun other there => ?_,
            fun other moment there => ?_, fun other moment there => ?_⟩
          · exact ⟨(moved.calls other there).1, (moved.calls other there).2.cons _⟩
          · rcases List.mem_cons.mp there with here | old
            · cases here
              exact ⟨mine.1, mine.2.cons _⟩
            · exact ⟨(standing.verified other moment old).1, (standing.verified other moment old).2.cons _⟩
          · rcases List.mem_cons.mp there with here | old
            · cases here
            · exact (standing.signed other moment old).cons _
      · cases taken
  | resumes index =>
      obtain ⟨login, held, taken⟩ := Option.bind_eq_some_iff.mp taken
      have rest := standing.calm rfl fun other (there : other ∈ w.calls.eraseIdx index) => List.mem_of_mem_eraseIdx there
      split at taken
      · cases taken
        exact standing_finish rest (standing.calls login (List.mem_of_getElem? held)).2 _
      · cases taken
        exact rest.fail
      · cases taken
  | fails index =>
      rw [World.step] at taken
      split at taken
      · cases taken
        exact standing.calm rfl fun other there => List.mem_of_mem_eraseIdx there
      · cases taken
  | checks name code row =>
      cases taken
      exact standing_check standing name code row

/-! ### A login is hashed for once -/

/-- A record of neither a login that is counted nor a comparison. -/
def Record.quiet : Record → Bool
  | .counted _ => false
  | .verified _ _ => false
  | _ => true

/-- No call comes or goes, and only such records are added. -/
structure Quiet (w w' : World) : Prop where
  calls : w'.calls = w.calls
  record : ∃ more : List Record, w'.record = more ++ w.record ∧ ∀ r ∈ more, r.quiet = true

theorem quiet_refl (w : World) : Quiet w w := ⟨rfl, [], rfl, fun _ held => absurd held List.not_mem_nil⟩

theorem quiet_cons (w : World) (auth : AuthManager) {r : Record} (quiet : r.quiet = true) :
    Quiet w { w with auth, record := r :: w.record } :=
  ⟨rfl, [r], rfl, fun _ held => List.mem_singleton.mp held ▸ quiet⟩

theorem quiet_finish (w : World) (login : Login) (row : Row) : Quiet w (w.finish login row) := by
  rw [World.finish]
  split
  · exact quiet_cons w _ rfl
  · split
    · exact quiet_cons w _ rfl
    · exact ⟨rfl, [], rfl, fun _ held => absurd held List.not_mem_nil⟩
    · next auth done =>
        refine ⟨rfl, [.signedIn login w.now, .spent row.id row.totpSecret login.code w.now], rfl, fun r held => ?_⟩
        rcases List.mem_pair.mp held with rfl | rfl
        · rfl
        · rfl

theorem quiet_check (w : World) (name code : Text) (row : Option Row) : Quiet w (w.check name code row) := by
  cases row with
  | none => exact quiet_refl w
  | some row =>
      rw [World.check]
      split
      · exact quiet_refl w
      · split
        · exact quiet_refl w
        · split
          · exact quiet_refl w
          · split
            · exact quiet_cons w _ rfl
            · exact ⟨rfl, [], rfl, fun _ held => absurd held List.not_mem_nil⟩
            · exact quiet_cons w _ rfl

/-- The records that Booked counts are as they were, and no call is new. -/
theorem Booked.less (booked : Booked key start stop w) (compared_same : compared key start stop w'.record =
    compared key start stop w.record) (counted : countedAt key w'.record = countedAt key w.record)
    (fewer : pending key start stop w'.calls ≤ pending key start stop w.calls) : Booked key start stop w' := by
  rw [Booked, compared_same, counted]
  exact (Nat.add_le_add_left fewer _).trans booked

theorem Booked.quiet (booked : Booked key start stop w) (quiet : Quiet w w') : Booked key start stop w' := by
  obtain ⟨more, same, silent⟩ := quiet.record
  refine booked.less ?_ ?_ (le_of_eq (congrArg _ quiet.calls))
  · have none : compared key start stop more = 0 := by
      refine List.countP_eq_zero.mpr fun r held => ?_
      cases r with
      | verified login moment => cases silent _ held
      | _ => exact Bool.false_ne_true
    rw [same, compared, List.countP_append]
    exact (congrArg (· + _) none).trans (Nat.zero_add _)
  · have none : countedAt key more = [] := by
      refine List.filterMap_eq_nil_iff.mpr fun r held => ?_
      cases r with
      | counted login => cases silent _ held
      | _ => rfl
    rw [same, countedAt, List.filterMap_append]
    exact (congrArg (· ++ _) none).trans (List.nil_append _)

theorem booked_begin (booked : Booked key start stop w) (name password code : Text) (ip : Origin) :
    Booked key start stop (w.begin name password code ip) := by
  rw [World.begin]
  split
  · set login : Login :=
      { name, password, code, place := addrKey ip.text
        keys := w.auth.loginKeys name (addrKey ip.text), began := w.now } with named
    have before : compared key start stop w.record + pending key start stop w.calls ≤
      (countedAt key w.record).countP (within start stop) := booked
    have calls : pending key start stop (w.calls ++ [login]) =
        pending key start stop w.calls + if login.counts key start stop then 1 else 0 := by
      rw [pending, pending, List.countP_append, List.countP_singleton]
      rfl
    change compared key start stop w.record + pending key start stop (w.calls ++ [login]) ≤
      (countedAt key (.counted login :: w.record)).countP (within start stop)
    rw [calls]
    by_cases mine : key ∈ login.keys
    · have counts : login.counts key start stop = within start stop login.began := by
        rw [Login.counts, decide_eq_true mine, Bool.true_and]
      have counted : countedAt key (.counted login :: w.record) = login.began :: countedAt key w.record := by
        simp only [countedAt, List.filterMap_cons, if_pos mine]
      rw [counts, counted, List.countP_cons]
      omega
    · have counts : login.counts key start stop = false := by
        rw [Login.counts, decide_eq_false mine, Bool.false_and]
      have counted : countedAt key (.counted login :: w.record) = countedAt key w.record := by
        simp only [countedAt, List.filterMap_cons, if_neg mine]
      rw [counts, counted]
      exact before
  · exact booked

theorem pending_eraseIdx (calls : List Login) (index : ℕ) :
    pending key start stop (calls.eraseIdx index) ≤ pending key start stop calls :=
  (List.eraseIdx_sublist calls index).countP_le

/-- A call that has hashed is not waiting any more, and one that goes on to the hash still is. -/
theorem pending_set (key : Text) (start stop : ℚ) {calls : List Login} {index : ℕ} {login : Login} (held : calls[index]? = some login)
    (waited : login.stage.waits = true) (stage : Stage) :
    pending key start stop (calls.set index { login with stage }) + (if login.counts key start stop then 1 else 0) =
      pending key start stop calls + if stage.waits && login.counts key start stop then 1 else 0 := by
  have moved := countP_set_add (p := fun login => login.stage.waits && login.counts key start stop) held
    { login with stage }
  simp only [waited, Bool.true_and] at moved
  exact moved

theorem booked_step (booked : Booked key start stop w) (taken : w.step verifyPassword e = some w') :
    Booked key start stop w' := by
  cases e with
  | waits seconds =>
      rw [World.step] at taken
      split at taken
      · cases taken
        exact booked
      · cases taken
  | begins name password code ip =>
      cases taken
      exact booked_begin booked name password code ip
  | fetched index row =>
      obtain ⟨login, held, taken⟩ := Option.bind_eq_some_iff.mp taken
      split at taken
      · next fetching =>
          cases taken
          have set := pending_set key start stop held (by rw [fetching]; rfl)
            (.hashing row)
          refine booked.less rfl rfl ?_
          simp only [Stage.waits, Bool.true_and] at set
          exact (Nat.add_right_cancel set).le
      · cases taken
  | hashes index =>
      obtain ⟨login, held, taken⟩ := Option.bind_eq_some_iff.mp taken
      split at taken
      · next hashing =>
          cases taken
          have set := pending_set key start stop held (by rw [hashing]; rfl)
            (.hashed none false)
          refine booked.less rfl rfl ?_
          simp only [Stage.waits, Bool.false_and, Bool.false_eq_true, ↓reduceIte, Nat.add_zero] at set
          change pending key start stop (w.calls.set index _) ≤ _
          omega
      · next row hashing =>
          cases taken
          have set := pending_set key start stop held (by rw [hashing]; rfl)
            (.hashed (some row) (verifyPassword login.password row.pwHash))
          simp only [Stage.waits, Bool.false_and, Bool.false_eq_true, ↓reduceIte, Nat.add_zero] at set
          have before : compared key start stop w.record + pending key start stop w.calls ≤
            (countedAt key w.record).countP (within start stop) := booked
          have after : compared key start stop (.verified login w.now :: w.record) =
              compared key start stop w.record + if login.counts key start stop then 1 else 0 := List.countP_cons
          change compared key start stop (.verified login w.now :: w.record) +
            pending key start stop (w.calls.set index _) ≤ (countedAt key w.record).countP (within start stop)
          omega
      · cases taken
  | resumes index =>
      obtain ⟨login, held, taken⟩ := Option.bind_eq_some_iff.mp taken
      have rest : Booked key start stop { w with calls := w.calls.eraseIdx index } :=
        booked.less rfl rfl (pending_eraseIdx _ _)
      split at taken
      · cases taken
        exact rest.quiet (quiet_finish _ login _)
      · cases taken
        exact rest
      · cases taken
  | fails index =>
      rw [World.step] at taken
      split at taken
      · cases taken
        exact booked.less rfl rfl (pending_eraseIdx _ _)
      · cases taken
  | checks name code row =>
      cases taken
      exact booked.quiet (quiet_check w name code row)

end

/-! ### Guesses in a window -/

/-- The passwords that were compared in the window, for these logins. -/
def guesses (who : Login → Bool) (start stop : ℚ) (record : List Record) : ℕ :=
  record.countP fun
    | .verified login moment => who login && within start stop moment
    | _ => false

/-- A login to the account, from the prefix. -/
def aimedFrom (name place : Text) (login : Login) : Bool := login.name == name && login.place == place

/-- A login to the account, from a prefix from which it has never signed in. -/
def aimedByStranger (name : Text) (record : List Record) (login : Login) : Bool :=
  login.name == name && !signedInFrom name login.place record

/-- No login to the account succeeds in the window. -/
def Unvisited (name : Text) (start stop : ℚ) (record : List Record) : Prop :=
  ∀ login moment, .signedIn login moment ∈ record → login.name = name → within start stop moment = false

/-- No other account signs in from the prefix in the window. -/
def Unshared (name place : Text) (start stop : ℚ) (record : List Record) : Prop :=
  ∀ login moment, .signedIn login moment ∈ record → login.place = place → login.name ≠ name →
    within start stop moment = false

/-- What is compared in the window for the account was asked for in the window. -/
def Fresh (name : Text) (start stop : ℚ) (record : List Record) : Prop :=
  ∀ login moment, .verified login moment ∈ record → login.name = name → within start stop moment = true →
    start ≤ login.began

section

variable {verifyPassword : Text → Text → Bool} {key name : Text} {start stop now mono : ℚ} {w : World}
  {steps : List (Machine.Step World Event)}

theorem mem_clearedAt {record : List Record} {moment : ℚ} (held : moment ∈ clearedAt key record) :
    ∃ login, .signedIn login moment ∈ record ∧ key ∈ login.keys := by
  obtain ⟨r, there, same⟩ := List.mem_filterMap.mp held
  cases r with
  | signedIn login last =>
      change (if key ∈ login.keys then some last else none) = some moment at same
      split at same
      · next mine =>
          cases same
          exact ⟨login, there, mine⟩
      · cases same
  | _ => cases same

theorem guesses_le_compared {who : Login → Bool} {record : List Record}
    (counts : ∀ login moment, .verified login moment ∈ record → who login = true →
      within start stop moment = true → login.counts key start stop = true) :
    guesses who start stop record ≤ compared key start stop record := by
  refine List.countP_mono_left fun r held hit => ?_
  cases r with
  | verified login moment =>
      obtain ⟨mine, inside⟩ := Bool.and_eq_true_iff.mp hit
      exact counts login moment held mine inside
  | _ => cases hit

/-- What is compared under a key that no success clears in the window. -/
theorem guesses_le (standing : Standing w) (booked : Booked key start stop w) (slow : Slow key start stop w)
    {who : Login → Bool} (under : ∀ login moment, .verified login moment ∈ w.record → who login = true →
      login.name = name ∧ key ∈ login.keys) (fresh : Fresh name start stop w.record) :
    (guesses who start stop w.record : ℚ) ≤ 14 + (stop - start) / 80 := by
  have counts : guesses who start stop w.record ≤ compared key start stop w.record := by
    refine guesses_le_compared fun login moment held mine inside => ?_
    obtain ⟨aimed, counted⟩ := under login moment held mine
    have after := fresh login moment held aimed inside
    have before := (standing.verified login moment held).1.trans (of_decide_eq_true inside).2
    rw [Login.counts, decide_eq_true counted, within, decide_eq_true ⟨after, before⟩]
    rfl
  have few : guesses who start stop w.record ≤ (countedAt key w.record).countP (within start stop) :=
    counts.trans ((Nat.le_add_right _ _).trans booked)
  have few : (guesses who start stop w.record : ℚ) ≤ (countedAt key w.record).countP (within start stop) := by
    exact_mod_cast few
  linarith only [few, slow.few]

/-- What holds along a run, for one key. -/
theorem run_slow (begun : start ≤ stop) (apart : ∀ name, key ≠ totpKey name)
    (run : Machine.Run (World.step verifyPassword) (World.create now mono) steps) :
    ∀ t ∈ steps, Standing t.after ∧ Booked key start stop t.after ∧
      (Uncleared key start stop t.after → Slow key start stop t.after) := by
  have keeps {w w' : World} {e : Event} (kept : Standing w ∧ Booked key start stop w ∧
      (Uncleared key start stop w → Slow key start stop w)) (_ : True) (taken : w.step verifyPassword e = some w') :
      (Standing w' ∧ Booked key start stop w' ∧ (Uncleared key start stop w' → Slow key start stop w')) ∧ True := by
    obtain ⟨standing, booked, slow⟩ := kept
    have moves := moves_step apart taken
    exact ⟨⟨standing_step standing taken, booked_step booked taken, fun clean =>
      (slow (moves.uncleared clean)).moves begun moves clean⟩, trivial⟩
  have start : Standing (World.create now mono) ∧ Booked key start stop (World.create now mono) ∧
      (Uncleared key start stop (World.create now mono) → Slow key start stop (World.create now mono)) := by
    refine ⟨⟨fun name place held => ?_, ?_, ?_, ?_⟩, le_rfl, fun _ => slow_create begun now mono⟩
    · exact absurd held List.not_mem_nil
    · exact fun login held => absurd held List.not_mem_nil
    · exact fun login moment held => absurd held List.not_mem_nil
    · exact fun login moment held => absurd held List.not_mem_nil
  intro t held
  exact (Machine.Run.invariant (fun _ _ => True) (fun _ _ _ => True) keeps run start (fun _ _ => trivial) t held).1

/-- A window in which the account is not signed in to, and nothing is compared that was asked for
before it: from a prefix where no other account signs in meanwhile, and from all prefixes together
from which the account has never signed in, few passwords are compared. -/
theorem guessing_bounded (run : Machine.Run (World.step verifyPassword) (World.create now mono) steps)
    (name : Text) (ip : Origin) (begun : start ≤ stop) :
    ∀ t ∈ steps, Unvisited name start stop t.after.record → Fresh name start stop t.after.record →
      (Unshared name (addrKey ip.text) start stop t.after.record →
        (guesses (aimedFrom name (addrKey ip.text)) start stop t.after.record : ℚ) ≤ 14 + (stop - start) / 80) ∧
      (guesses (aimedByStranger name t.after.record) start stop t.after.record : ℚ) ≤ 14 + (stop - start) / 80 := by
  intro t held unvisited fresh
  have other (who : Text) : addrKey ip.text ≠ userKey who := fun same => ip.leads.1 (same ▸ rfl)
  constructor
  · intro unshared
    have apart (who : Text) : addrKey ip.text ≠ totpKey who := fun same => ip.leads.2 (same ▸ rfl)
    obtain ⟨standing, booked, slow⟩ := run_slow begun apart run t held
    have clean : Uncleared (addrKey ip.text) start stop t.after := by
      intro moment cleared
      obtain ⟨login, signed, mine⟩ := mem_clearedAt cleared
      rcases (standing.signed login moment signed).own _ mine with here | account
      · by_cases same : login.name = name
        · exact unvisited login moment signed same
        · exact unshared login moment signed here.symm same
      · exact absurd account (other _)
    refine guesses_le standing booked (slow clean) (fun login moment there aimed => ?_) fresh
    obtain ⟨same, from_⟩ := Bool.and_eq_true_iff.mp aimed
    exact ⟨eq_of_beq same, eq_of_beq from_ ▸ (standing.verified login moment there).2.place⟩
  · have apart (who : Text) : userKey name ≠ totpKey who := fun same => by
      have head := congrArg List.head? same
      exact absurd (Option.some.inj head) (by decide)
    obtain ⟨standing, booked, slow⟩ := run_slow begun apart run t held
    have clean : Uncleared (userKey name) start stop t.after := by
      intro moment cleared
      obtain ⟨login, signed, mine⟩ := mem_clearedAt cleared
      have fair := standing.signed login moment signed
      rcases fair.own _ mine with here | account
      · exact absurd (here ▸ rfl) fair.leads.1
      · exact unvisited login moment signed (List.append_cancel_left account).symm
    refine guesses_le standing booked (slow clean) (fun login moment there aimed => ?_) fresh
    obtain ⟨same, never⟩ := Bool.and_eq_true_iff.mp aimed
    obtain rfl := eq_of_beq same
    refine ⟨rfl, (standing.verified login moment there).2.account.resolve_right fun signed => ?_⟩
    rw [signed] at never
    cases never

end

/-! ### Two accounts behind one address -/

def annRow : Row := ⟨1, "scrypt$2$1$1$01$bb718cf9".toList, []⟩

def bobRow : Row := ⟨2, "scrypt$2$1$1$02$2921d888".toList, []⟩

/-- The passwords of these two hashes. -/
def fits (password stored : Text) : Bool :=
  (password == "correct horse".toList && stored == annRow.pwHash) ||
    (password == "battery staple".toList && stored == bobRow.pwHash)

theorem office_plain : (ipAddress "192.0.2.7".toList).isSome = true := by decide +kernel

def office : Origin := ⟨"192.0.2.7".toList, .inl office_plain⟩

/-- A login from the office that nothing comes between. -/
def login (name password code : String) (row : Row) : List Event :=
  [.begins name.toList password.toList code.toList office, .fetched 0 (some row), .hashes 0, .resumes 0]

/-- Ann has signed in from the office. There Bob guesses at her password, and signs in himself after
every four guesses. -/
def alternating : List Event :=
  login "ann" "correct horse" "" annRow ++ .waits 1 ::
    (List.replicate 4 ((List.replicate 4 (login "ann" "hunter2" "" annRow)).flatten ++
      login "bob" "battery staple" "" bobRow)).flatten

def alternatingSteps : List (Machine.Step World Event) :=
  Machine.follow (World.step fits) (World.create 0 0) alternating

theorem alternatingSteps_ne : alternatingSteps ≠ [] := List.cons_ne_nil _ _

def alternatingRecord : List Record := (alternatingSteps.getLast alternatingSteps_ne).after.record

/-- No success of this account in the window. -/
def Record.spares (name : Text) (start stop : ℚ) : Record → Bool
  | .signedIn login moment => login.name != name || !within start stop moment
  | _ => true

theorem unvisited_of_spares {name : Text} {start stop : ℚ} {record : List Record}
    (spares : record.all (Record.spares name start stop) = true) : Unvisited name start stop record := by
  intro login moment held same
  have spared := List.all_eq_true.mp spares _ held
  rw [Record.spares, same, bne_self_eq_false, Bool.false_or, Bool.not_eq_true'] at spared
  exact spared

theorem alternating_spares : alternatingRecord.all (Record.spares "ann".toList 1 1) = true := by decide +kernel

theorem alternating_guesses : guesses (aimedFrom "ann".toList (addrKey office.text)) 1 1 alternatingRecord = 16 := by
  decide +kernel

theorem guessing_unbounded : ¬∀ (verifyPassword : Text → Text → Bool) (now mono : ℚ)
    (steps : List (Machine.Step World Event)),
    Machine.Run (World.step verifyPassword) (World.create now mono) steps →
    ∀ (name : Text) (ip : Origin) (start stop : ℚ), start ≤ stop → ∀ t ∈ steps,
      Unvisited name start stop t.after.record →
        (guesses (aimedFrom name (addrKey ip.text)) start stop t.after.record : ℚ) ≤ 14 + (stop - start) / 80 := by
  intro claim
  have few := claim fits 0 0 alternatingSteps (Machine.run_follow _ _ _) "ann".toList office 1 1 le_rfl
    (alternatingSteps.getLast alternatingSteps_ne) (List.getLast_mem _) (unvisited_of_spares alternating_spares)
  change (guesses _ 1 1 alternatingRecord : ℚ) ≤ _ at few
  rw [alternating_guesses] at few
  norm_num at few

/-- One wrong password from the office. -/
def mistakeSteps : List (Machine.Step World Event) :=
  Machine.follow (World.step fits) (World.create 0 0) (login "ann" "hunter2" "" annRow)

theorem mistakeSteps_ne : mistakeSteps ≠ [] := List.cons_ne_nil _ _

def mistakeRecord : List Record := (mistakeSteps.getLast mistakeSteps_ne).after.record

/-- Nobody has signed in, and what was compared was asked for at the start. -/
def Record.plain : Record → Bool
  | .signedIn _ _ => false
  | .verified login _ => decide (0 ≤ login.began)
  | _ => true

theorem mistake_plain : mistakeRecord.all Record.plain = true := by decide +kernel

theorem guessing_bounded_mistake :
    (guesses (aimedFrom "ann".toList (addrKey office.text)) 0 10 mistakeRecord : ℚ) ≤ 14 + (10 - 0) / 80 ∧
      (guesses (aimedByStranger "ann".toList mistakeRecord) 0 10 mistakeRecord : ℚ) ≤ 14 + (10 - 0) / 80 := by
  have silent (login : Login) (moment : ℚ) : .signedIn login moment ∉ mistakeRecord := fun held => by
    cases List.all_eq_true.mp mistake_plain _ held
  have bounded := guessing_bounded (Machine.run_follow (World.step fits) (World.create 0 0)
    (login "ann" "hunter2" "" annRow)) "ann".toList office (by norm_num : (0 : ℚ) ≤ 10)
    (mistakeSteps.getLast mistakeSteps_ne) (List.getLast_mem _)
    (fun login moment held => absurd held (silent login moment))
    (fun login moment held _ _ => of_decide_eq_true (List.all_eq_true.mp mistake_plain _ held))
  exact ⟨bounded.1 fun login moment held => absurd held (silent login moment), bounded.2⟩

end Trench.Api
