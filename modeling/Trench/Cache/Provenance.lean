import Mathlib
import Trench.Cache.Cache

set_option autoImplicit false

/- Where every cached response comes from. -/
namespace Trench.Cache

open Wire

/-- A put whose message was stored. -/
structure Stored where
  worker : Nat
  key : CacheKey
  msg : Message
  time : ℚ

/-- When a put stops being fresh, and when even stale it is dropped. -/
def Stored.expires (s : Settings) (p : Stored) : ℚ := p.time + deriveTtl s p.msg

def Stored.deadline (s : Settings) (p : Stored) : ℚ := p.expires s + s.serveStaleMax

/-- What a call stores. -/
def stored (s : Settings) (w : World) : Call → Option Stored
  | .put worker key m => if keeps s m then some ⟨worker, key, m, w.now⟩ else none
  | _ => none

/-- What a run stores, in order. -/
def puts (s : Settings) (digest : Digest) : World → List Call → List Stored
  | _, [] => []
  | w, c :: rest => (stored s w c).toList ++ puts s digest (step s digest w c).1 rest

/-- A message as it was stored, or as it comes back from its octets. -/
def Copy (m copy : Message) : Prop :=
  copy = m ∨ ∃ wire, m.toWire = .ok wire ∧ Message.parse wire = .ok copy

/-- An entry is a copy of a put and keeps to its times. -/
structure EntryOf (s : Settings) (p : Stored) (e : Entry Message) : Prop where
  copy : Copy p.msg e.msg
  expires : e.inserted + e.ttl = p.expires s
  deadline : e.staleUntil = p.deadline s

/-- So does a slot of the shared table. -/
structure SlotOf (s : Settings) (digest : Digest) (p : Stored) (slot : Slot) : Prop where
  hash : slot.keyhash = key64 digest p.key
  wire : p.msg.toWire = .ok slot.wire
  expires : slot.inserted + slot.ttl = p.expires s

/-- Two keys with one hash. -/
def Alike (digest : Digest) (k l : CacheKey) : Prop := key64 digest k = key64 digest l

/-- Everything in the stores and in the shared table was put before. -/
structure Sourced (s : Settings) (digest : Digest) (past : Stored → Prop) (w : World) : Prop where
  entries : ∀ worker key e, (w.stores worker).get? key = some e →
    ∃ p, past p ∧ Alike digest p.key key ∧ EntryOf s p e
  slots : ∀ c, w.shared = some c → ∀ b, (c.table b).wire ≠ [] →
    ∃ p, past p ∧ SlotOf s digest p (c.table b)
  bounded : ∀ worker, (w.stores worker).size ≤ s.maxEntries
  before : ∀ p, past p → p.time ≤ w.now

section

variable {s : Settings} {digest : Digest} {past : Stored → Prop} {w : World}

theorem sourced_initial (s : Settings) (digest : Digest) (now : ℚ) (shared : Option SharedCache) :
    Sourced s digest (fun _ => False) (World.initial now shared) := by
  refine ⟨?_, ?_, fun _ => Nat.zero_le _, fun _ never => never.elim⟩
  · intro worker key e found
    cases found
  · intro c held b some
    obtain ⟨old, -, rfl⟩ := Option.map_eq_some_iff.mp held
    exact absurd rfl some

/-- More puts explain as much. -/
theorem Sourced.mono {more : Stored → Prop} (sourced : Sourced s digest past w)
    (grown : ∀ p, past p → more p) (before : ∀ p, more p → p.time ≤ w.now) :
    Sourced s digest more w := by
  refine ⟨?_, ?_, sourced.bounded, before⟩
  · intro worker key e found
    obtain ⟨p, put, rest⟩ := sourced.entries worker key e found
    exact ⟨p, grown p put, rest⟩
  · intro c held b some
    obtain ⟨p, put, rest⟩ := sourced.slots c held b some
    exact ⟨p, grown p put, rest⟩

/-- A store whose entries are explained takes the place of another. -/
theorem Sourced.withStore (sourced : Sourced s digest past w) (worker : Nat) {store : Store}
    (entries : ∀ key e, store.get? key = some e → ∃ p, past p ∧ Alike digest p.key key ∧ EntryOf s p e)
    (small : store.size ≤ s.maxEntries) : Sourced s digest past (w.withStore worker store) := by
  refine ⟨?_, sourced.slots, ?_, sourced.before⟩
  · intro other key e found
    by_cases same : other = worker
    · rw [World.withStore, same] at found
      simp only [Function.update_self] at found
      exact entries key e found
    · rw [World.withStore] at found
      simp only [Function.update_of_ne same] at found
      exact sourced.entries other key e found
  · intro other
    by_cases same : other = worker
    · rw [World.withStore, same]
      simp only [Function.update_self]
      exact small
    · rw [World.withStore]
      simp only [Function.update_of_ne same]
      exact sourced.bounded other

/-! ### What a get finds -/

/-- A response found in the shared table is a copy of a put under a key of this hash. -/
theorem Sourced.sharedFind (sourced : Sourced s digest past w) {key : CacheKey} {m : Message}
    {remaining : ℚ} (found : sharedFind digest w.now w.shared key = some (m, remaining)) :
    ∃ p, past p ∧ Alike digest p.key key ∧ Copy p.msg m ∧ 0 < remaining ∧ w.now + remaining = p.expires s := by
  obtain ⟨c, held, found⟩ := Option.bind_eq_some_iff.mp found
  obtain ⟨⟨wire, left⟩, hit, found⟩ := Option.bind_eq_some_iff.mp found
  obtain ⟨back, read, found⟩ := Option.bind_eq_some_iff.mp found
  cases found
  obtain ⟨hash, rfl, some, positive, rest⟩ := SharedCache.get_eq_some.mp hit
  obtain ⟨p, put, slot⟩ := sourced.slots c held _ some
  refine ⟨p, put, slot.hash.symm.trans hash, .inr ⟨_, slot.wire, ?_⟩, positive, ?_⟩
  · cases parsed : Message.parse (c.table (c.bucket (key64 digest key))).wire with
    | error e =>
        rw [parsed] at read
        cases read
    | ok back' =>
        rw [parsed] at read
        cases read
        rfl
  · rw [← slot.expires, rest]
    ring

/-- What is found, fresh or stale, is a copy of a put that is not past its time. -/
structure Returned (s : Settings) (p : Stored) (now : ℚ) (hit : Hit Message) : Prop where
  copy : Copy p.msg hit.msg
  fresh : hit.stale = false → now < p.expires s ∧ hit.ttl = wholeSeconds (p.expires s - now)
  stale : hit.stale = true → now < p.deadline s ∧ hit.ttl = staleTtl

/-- What a get returns and leaves. -/
structure GetOf (s : Settings) (digest : Digest) (past : Stored → Prop) (now : ℚ) (key : CacheKey)
    (got : Option (Hit Message) × Store) : Prop where
  returned : ∀ hit, got.1 = some hit → ∃ p, past p ∧ Alike digest p.key key ∧ Returned s p now hit
  entries : ∀ k e, got.2.get? k = some e → ∃ p, past p ∧ Alike digest p.key k ∧ EntryOf s p e
  small : got.2.size ≤ s.maxEntries

theorem Sourced.sharedGet (sourced : Sourced s digest past w) {key : CacheKey} {store : Store}
    (entries : ∀ k e, store.get? k = some e → ∃ p, past p ∧ Alike digest p.key k ∧ EntryOf s p e)
    (small : store.size ≤ s.maxEntries) :
    GetOf s digest past w.now key (sharedGet s digest w.now store w.shared key) := by
  rw [Cache.sharedGet]
  cases found : Cache.sharedFind digest w.now w.shared key with
  | none => exact ⟨nofun, entries, small⟩
  | some hit =>
      obtain ⟨m, remaining⟩ := hit
      obtain ⟨p, put, same, copy, positive, expires⟩ := sourced.sharedFind found
      have left : remaining = p.expires s - w.now := by linarith
      refine ⟨?_, ?_, size_trim_le s _⟩
      · rintro _ ⟨⟩
        refine ⟨p, put, same, copy, fun _ => ⟨by linarith, ?_⟩, nofun⟩
        rw [← left]
      · intro k e held
        have held := get?_of_trim held
        rw [Dict.get?_set_eq] at held
        split at held
        · next here =>
            cases held
            refine ⟨p, put, same.trans (congrArg (key64 digest) here), copy, expires, ?_⟩
            rw [entryOf, Stored.deadline, ← expires]
        · exact entries k e held

theorem Sourced.ownGet (sourced : Sourced s digest past w) (key : CacheKey) (worker : Nat)
    (allowStale : Bool) :
    GetOf s digest past w.now key (ownGet s w.now (w.stores worker) key allowStale) := by
  have entries := sourced.entries worker
  have small := sourced.bounded worker
  have moved (k : CacheKey) (e : Entry Message) (held : (moveToEnd (w.stores worker) key).get? k = some e) :
      ∃ p, past p ∧ Alike digest p.key k ∧ EntryOf s p e := by
    rw [get?_moveToEnd] at held
    exact entries k e held
  have smaller := (size_moveToEnd_le (w.stores worker) key).trans small
  rw [Cache.ownGet]
  split
  · exact ⟨nofun, entries, small⟩
  · next entry found =>
      obtain ⟨p, put, same, copy, expires, deadline⟩ := entries key entry found
      have left : entry.ttl - (w.now - entry.inserted) = p.expires s - w.now := by linarith
      dsimp only
      rw [left]
      split
      · next fresh =>
          refine ⟨?_, moved, smaller⟩
          rintro _ ⟨⟩
          exact ⟨p, put, same, copy, fun _ => ⟨by linarith, rfl⟩, nofun⟩
      · split
        · next retained =>
            split
            · refine ⟨?_, moved, smaller⟩
              rintro _ ⟨⟩
              exact ⟨p, put, same, copy, nofun, fun _ => ⟨deadline ▸ retained.2, rfl⟩⟩
            · exact ⟨nofun, entries, small⟩
        · refine ⟨nofun, ?_, (Dict.size_erase_le _ _).trans small⟩
          intro k e held
          rw [Dict.get?_erase_eq] at held
          split at held
          · cases held
          · exact entries k e held

theorem Sourced.find (sourced : Sourced s digest past w) (key : CacheKey) (worker : Nat)
    (allowStale : Bool) :
    GetOf s digest past w.now key (find s digest w.now (w.stores worker) w.shared key allowStale) := by
  have own := sourced.ownGet key worker allowStale
  rw [Cache.find]
  split
  · exact ⟨nofun, sourced.entries worker, sourced.bounded worker⟩
  · split
    · next hit store found =>
        rw [found] at own
        exact own
    · next store missed =>
        rw [missed] at own
        exact sourced.sharedGet own.entries own.small

/-! ### Each call keeps everything explained -/

/-- With a put more. -/
def also (past : Stored → Prop) (new : Option Stored) (p : Stored) : Prop := past p ∨ new = some p

theorem Sourced.also_none (sourced : Sourced s digest past w) :
    Sourced s digest (also past none) w :=
  sourced.mono (fun _ put => .inl put) fun other put =>
    sourced.before other (Or.resolve_right put (by nofun))

theorem Sourced.put (sourced : Sourced s digest past w) (worker : Nat) (key : CacheKey) (m : Message) :
    Sourced s digest (also past (stored s w (.put worker key m)))
      (step s digest w (.put worker key m)).1 := by
  change Sourced s digest (also past (if keeps s m then some ⟨worker, key, m, w.now⟩ else none))
    ({ w.withStore worker (Cache.put s digest w.now (w.stores worker) w.shared key m).1 with
      shared := (Cache.put s digest w.now (w.stores worker) w.shared key m).2 } : World)
  rw [Cache.put]
  split
  · let p : Stored := ⟨worker, key, m, w.now⟩
    have grown : Sourced s digest (also past (some p)) w := by
      apply sourced.mono (fun _ put => .inl put)
      rintro other (put | same)
      · exact sourced.before other put
      · cases same
        exact le_refl _
    have new : also past (some p) p := .inr rfl
    have entry : EntryOf s p (freshEntry s w.now m) := ⟨.inl rfl, rfl, rfl⟩
    have replaced : Sourced s digest (also past (some p))
        (w.withStore worker (trim s (inserted (w.stores worker) key (freshEntry s w.now m)))) := by
      refine grown.withStore worker (fun k e held => ?_) (size_trim_le s _)
      have held := get?_of_trim held
      rw [get?_inserted] at held
      split at held
      · next here =>
          cases held
          exact ⟨p, new, congrArg (key64 digest) here, entry⟩
      · exact grown.entries worker k e held
    refine ⟨replaced.entries, ?_, replaced.bounded, replaced.before⟩
    intro c held b some
    obtain ⟨old, shared, rfl⟩ := Option.map_eq_some_iff.mp held
    cases written : m.toWire with
    | error e =>
        rw [written] at some
        exact grown.slots old shared b some
    | ok wire =>
        rw [written] at some
        dsimp only at some ⊢
        rcases old.put_cases w.now (key64 digest key) wire (deriveTtl s m) b with same | blank | ⟨-, new'⟩
        · rw [same] at some ⊢
          exact grown.slots old shared b some
        · rw [blank] at some
          exact absurd rfl some
        · rw [new']
          exact ⟨p, new, rfl, written, rfl⟩
  · exact (sourced.withStore worker (sourced.entries worker) (sourced.bounded worker)).also_none

theorem Sourced.flush (sourced : Sourced s digest past w) (worker : Nat) (domain : Option Text) :
    Sourced s digest past (step s digest w (.flush worker domain)).1 := by
  rw [step]
  split
  · exact sourced
  · next d named =>
      have entries : ∀ k e, (Cache.flush digest (w.stores worker) w.shared d).1.get? k = some e →
          ∃ p, past p ∧ Alike digest p.key k ∧ EntryOf s p e := by
        intro k e held
        cases d with
        | none => cases held
        | some d =>
            rw [get?_flush] at held
            split at held
            · cases held
            · exact sourced.entries worker k e held
      have small : (Cache.flush digest (w.stores worker) w.shared d).1.size ≤ s.maxEntries := by
        cases d with
        | none => exact Nat.zero_le _
        | some d => exact (size_foldl_erase_le _ _).trans (sourced.bounded worker)
      have replaced := sourced.withStore worker entries small
      refine ⟨replaced.entries, ?_, replaced.bounded, replaced.before⟩
      intro c held b some
      rw [blank_flush digest _ _ d c held b] at some
      exact absurd rfl some

theorem Sourced.step (sourced : Sourced s digest past w) (call : Call) :
    Sourced s digest (also past (stored s w call)) (step s digest w call).1 := by
  cases call with
  | put worker key m => exact sourced.put worker key m
  | get worker key allowStale =>
      have got := sourced.find key worker allowStale
      exact (sourced.withStore worker got.entries got.small).also_none
  | flush worker domain => exact (sourced.flush worker domain).also_none
  | wait seconds =>
      apply Sourced.also_none
      refine ⟨sourced.entries, sourced.slots, sourced.bounded, fun p put => ?_⟩
      have later : w.now ≤ w.now + max 0 seconds := le_add_of_nonneg_right (le_max_left 0 seconds)
      exact (sourced.before p put).trans later

/-- Whatever the order of the calls, everything is explained by the puts so far. -/
theorem Sourced.run (sourced : Sourced s digest past w) (calls : List Call) :
    Sourced s digest (fun p => past p ∨ p ∈ puts s digest w calls) (run s digest w calls) := by
  induction calls generalizing past w with
  | nil =>
      have same : (fun p => past p ∨ p ∈ puts s digest w []) = past := by
        funext p
        exact propext (or_iff_left List.not_mem_nil)
      rw [same]
      exact sourced
  | cons call rest ih =>
      have same : (fun p => past p ∨ p ∈ puts s digest w (call :: rest)) =
          fun p => also past (stored s w call) p ∨ p ∈ puts s digest (Cache.step s digest w call).1 rest := by
        funext p
        rw [puts, List.mem_append, Option.mem_toList, also]
        exact propext or_assoc.symm
      rw [same]
      exact ih (sourced.step call)

/-- From empty caches on. -/
theorem sourced_run (s : Settings) (digest : Digest) (now : ℚ) (shared : Option SharedCache)
    (calls : List Call) :
    Sourced s digest (fun p => p ∈ puts s digest (World.initial now shared) calls)
      (run s digest (World.initial now shared) calls) := by
  have ran := (sourced_initial s digest now shared).run calls
  have same : (fun p => False ∨ p ∈ puts s digest (World.initial now shared) calls) =
      fun p => p ∈ puts s digest (World.initial now shared) calls := by
    funext p
    exact propext (or_iff_right id)
  rwa [same] at ran

/-! ### The keys used -/

/-- The key of a call is one of those used. -/
def Call.Uses (used : Set CacheKey) : Call → Prop
  | .put _ key _ | .get _ key _ => key ∈ used
  | _ => True

theorem key_of_stored {used : Set CacheKey} {call : Call} (uses : call.Uses used) {p : Stored}
    (new : stored s w call = some p) : p.key ∈ used := by
  cases call with
  | put worker key m =>
      rw [stored] at new
      split at new
      · cases new
        exact uses
      · cases new
  | get worker key allowStale => cases new
  | flush worker domain => cases new
  | wait seconds => cases new

theorem key_of_puts {used : Set CacheKey} {calls : List Call} (uses : ∀ call ∈ calls, call.Uses used)
    {p : Stored} (put : p ∈ puts s digest w calls) : p.key ∈ used := by
  induction calls generalizing w with
  | nil => cases put
  | cons call rest ih =>
      rcases List.mem_append.mp put with new | later
      · exact key_of_stored (uses call List.mem_cons_self) (Option.mem_toList.mp new)
      · exact ih (fun other held => uses other (List.mem_cons_of_mem _ held)) later

end

end Trench.Cache
