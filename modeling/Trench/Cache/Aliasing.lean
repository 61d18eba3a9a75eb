import Mathlib
import Trench.Cache.Objects
import Trench.Cache.Runs
import Trench.Wire.MessageRoundTrip

set_option autoImplicit false

/- The caches over message objects, with callers that edit what they were given, against the
caches over plain messages. -/
namespace Trench.Cache

open Wire

/-! ### The store under a reading of its messages -/

section

variable {μ ν ω : Type}

def Entry.map (f : μ → ν) (e : Entry μ) : Entry ν := ⟨f e.msg, e.inserted, e.ttl, e.staleUntil⟩

def Hit.map (f : μ → ν) (hit : Hit μ) : Hit ν := ⟨f hit.msg, hit.ttl, hit.stale⟩

theorem mapValues_trim (f : ν → ω) (s : Settings) (store : Dict CacheKey ν) :
    (trim s store).mapValues f = trim s (store.mapValues f) := by
  rw [trim, trim, Dict.mapValues_dropFirst, Dict.size_mapValues]

theorem mapValues_moveToEnd (f : ν → ω) (store : Dict CacheKey ν) (key : CacheKey) :
    (moveToEnd store key).mapValues f = moveToEnd (store.mapValues f) key := by
  rw [moveToEnd, moveToEnd, Dict.get?_mapValues]
  cases store.get? key with
  | none => rfl
  | some e =>
      dsimp only [Option.map_some]
      rw [Dict.mapValues_set, Dict.mapValues_erase]

theorem mapValues_inserted (f : ν → ω) (store : Dict CacheKey ν) (key : CacheKey) (e : ν) :
    (inserted store key e).mapValues f = inserted (store.mapValues f) key (f e) := by
  rw [inserted, inserted, mapValues_moveToEnd, Dict.mapValues_set]

theorem mapValues_foldl_erase (f : ν → ω) (victims : List CacheKey) (store : Dict CacheKey ν) :
    (victims.foldl Dict.erase store).mapValues f = victims.foldl Dict.erase (store.mapValues f) := by
  induction victims generalizing store with
  | nil => rfl
  | cons first rest ih => rw [List.foldl_cons, ih, Dict.mapValues_erase, List.foldl_cons]

theorem flush_mapValues (f : ν → ω) (digest : Digest) (store : Dict CacheKey ν)
    (shared : Option SharedCache) (domain : Option Name) :
    flush digest (store.mapValues f) shared domain =
      ((flush digest store shared domain).1.mapValues f, (flush digest store shared domain).2) := by
  cases domain with
  | none => rfl
  | some d => simp only [flush, Dict.keys_mapValues, mapValues_foldl_erase]

theorem ownGet_mapValues (f : μ → ν) (s : Settings) (now : ℚ) (store : Dict CacheKey (Entry μ))
    (key : CacheKey) (allowStale : Bool) :
    ownGet s now (store.mapValues (Entry.map f)) key allowStale =
      ((ownGet s now store key allowStale).1.map (Hit.map f),
        (ownGet s now store key allowStale).2.mapValues (Entry.map f)) := by
  rw [ownGet, ownGet, Dict.get?_mapValues]
  cases store.get? key with
  | none => rfl
  | some e =>
      simp only [Option.map_some, Entry.map]
      split
      · rw [← mapValues_moveToEnd]
        rfl
      · split
        · split
          · rw [← mapValues_moveToEnd]
            rfl
          · rfl
        · rw [← Dict.mapValues_erase]
          rfl

variable {holds : ν → Prop} {store : Dict CacheKey ν}

theorem every_moveToEnd (every : store.Every holds) (key : CacheKey) :
    (moveToEnd store key).Every holds := by
  rw [moveToEnd]
  split
  · next e found => exact (every.erase key).set key (every.get? found)
  · exact every

theorem every_inserted (every : store.Every holds) (key : CacheKey) {e : ν} (new : holds e) :
    (inserted store key e).Every holds := every_moveToEnd (every.set key new) key

theorem every_trim (every : store.Every holds) (s : Settings) : (trim s store).Every holds :=
  every.dropFirst _

theorem every_flush (every : store.Every holds) (digest : Digest) (shared : Option SharedCache)
    (domain : Option Name) : (flush digest store shared domain).1.Every holds := by
  cases domain with
  | none => exact fun e held => nomatch held
  | some d =>
      rw [flush]
      generalize List.filter _ _ = victims
      induction victims generalizing store with
      | nil => exact every
      | cons first rest ih => exact ih (every.erase first)

end

theorem every_ownGet {μ : Type} {holds : Entry μ → Prop} {store : Dict CacheKey (Entry μ)}
    (every : store.Every holds) (s : Settings) (now : ℚ) (key : CacheKey) (allowStale : Bool) :
    (ownGet s now store key allowStale).2.Every holds ∧
      ∀ hit, (ownGet s now store key allowStale).1 = some hit → ∃ e, holds e ∧ hit.msg = e.msg := by
  have missed {hit : Hit μ} (same : none = some hit) : ∃ e, holds e ∧ hit.msg = e.msg := by cases same
  rw [ownGet]
  split
  · exact ⟨every, fun _ => missed⟩
  · next e found =>
      have known := every.get? found
      dsimp only
      split
      · exact ⟨every_moveToEnd every key, by rintro _ ⟨⟩; exact ⟨e, known, rfl⟩⟩
      · split
        · split
          · exact ⟨every_moveToEnd every key, by rintro _ ⟨⟩; exact ⟨e, known, rfl⟩⟩
          · exact ⟨every, fun _ => missed⟩
        · exact ⟨every.erase key, fun _ => missed⟩

/-! ### Caches of objects -/

/-- `lent` are the cells that callers were given or made. -/
structure Shop where
  memory : Memory
  lent : List Nat
  now : ℚ
  stores : Nat → Dict CacheKey (Entry Nat)
  shared : Option SharedCache

def Shop.initial (now : ℚ) (shared : Option SharedCache) : Shop :=
  ⟨.blank, [], now, fun _ => .empty, shared.map SharedCache.clear⟩

/-- The calls, and a caller's edits: a cell it holds is changed, or one is made. -/
inductive Action where
  | put (worker : Nat) (key : CacheKey) (r : Nat)
  | get (worker : Nat) (key : CacheKey) (allowStale : Bool)
  | flush (worker : Nat) (domain : Option Text)
  | wait (seconds : ℚ)
  | write (k : Kind) (c : Nat) (v : k.Value)
  | make (k : Kind) (v : k.Value)

def Shop.withStore (w : Shop) (worker : Nat) (store : Dict CacheKey (Entry Nat)) : Shop :=
  { w with stores := Function.update w.stores worker store }

/-- Hands out a message. -/
def Shop.lend (w : Shop) (memory : Memory) (r : Nat) : Shop :=
  { w with memory, lent := reach memory r ++ w.lent }

def getObject (s : Settings) (digest : Digest) (w : Shop) (worker : Nat) (key : CacheKey)
    (allowStale : Bool) : Shop × Option (Nat × Bool) :=
  if s.enabled = false then (w, none)
  else
    match ownGet s w.now (w.stores worker) key allowStale with
    | (some hit, store) =>
        let (memory, r) := retime w.memory hit.msg hit.ttl
        ((w.withStore worker store).lend memory r, some (r, hit.stale))
    | (none, store) =>
        match sharedFind digest w.now w.shared key with
        | none => (w.withStore worker store, none)
        | some (m, remaining) =>
            let (memory, parsed) := build w.memory m
            let store := trim s (store.set key (entryOf s w.now remaining parsed))
            let (memory, r) := retime memory parsed (wholeSeconds remaining)
            ((w.withStore worker store).lend memory r, some (r, false))

def putObject (s : Settings) (digest : Digest) (w : Shop) (worker : Nat) (key : CacheKey) (r : Nat) :
    Shop :=
  let m := view w.memory r
  if keeps s m then
    let (memory, dup) := detach w.memory r
    let store := trim s (inserted (w.stores worker) key (entryOf s w.now (deriveTtl s m) dup))
    { w.withStore worker store with memory, shared := sharedPut s digest w.now w.shared key m }
  else w

def act (s : Settings) (digest : Digest) (w : Shop) : Action → Shop × Option (Nat × Bool)
  | .put worker key r => (putObject s digest w worker key r, none)
  | .get worker key allowStale => getObject s digest w worker key allowStale
  | .flush worker domain =>
      match domain.mapM fun text => (Name.fromText text).toOption with
      | none => (w, none)
      | some d =>
          let (store, shared) := flush digest (w.stores worker) w.shared d
          ({ w.withStore worker store with shared }, none)
  | .wait seconds => ({ w with now := w.now + max 0 seconds }, none)
  | .write k c v => (if c ∈ w.lent then { w with memory := w.memory.set k c v } else w, none)
  | .make k v =>
      let (memory, c) := w.memory.alloc k v
      ({ w with memory, lent := c :: w.lent }, none)

def acts (s : Settings) (digest : Digest) (w : Shop) (actions : List Action) : Shop :=
  actions.foldl (fun w a => (act s digest w a).1) w

/-! ### What stays of it without the objects -/

/-- The caches with every message read. -/
def Shop.plain (w : Shop) : World :=
  ⟨w.now, fun worker => (w.stores worker).mapValues (Entry.map (view w.memory)), w.shared⟩

/-- The call of an action; an edit is none. -/
def Action.call (w : Shop) : Action → Option Call
  | .put worker key r => some (.put worker key (view w.memory r))
  | .get worker key allowStale => some (.get worker key allowStale)
  | .flush worker domain => some (.flush worker domain)
  | .wait seconds => some (.wait seconds)
  | .write .. | .make .. => none

/-- The calls of a run, each put with its message as it read then. -/
def calls (s : Settings) (digest : Digest) : Shop → List Action → List Call
  | _, [] => []
  | w, a :: rest => (a.call w).toList ++ calls s digest (act s digest w a).1 rest

/-- No cell of the message is in the callers' hands. -/
def Safe (memory : Memory) (lent : List Nat) (r : Nat) : Prop :=
  ∀ c ∈ reach memory r, c < memory.next ∧ c ∉ lent

/-- The messages in the stores are out of the callers' reach. -/
structure Apart (w : Shop) : Prop where
  stored : ∀ worker, (w.stores worker).Every fun e => Safe w.memory w.lent e.msg
  lent : ∀ c ∈ w.lent, c < w.memory.next

section

variable {s : Settings} {digest : Digest} {w : Shop}

/-! ### Memory that grows -/

theorem Safe.grows {h h' : Memory} {lent : List Nat} {r : Nat} (safe : Safe h lent r)
    (grows : h.Grows h') {new : List Nat} (fresh : ∀ c ∈ new, h.next ≤ c) :
    Safe h' (new ++ lent) r := by
  intro c held
  rw [(view_of_grows grows fun c held => (safe c held).1).2] at held
  obtain ⟨old, away⟩ := safe c held
  refine ⟨old.trans_le grows.next, fun lent => ?_⟩
  rcases List.mem_append.mp lent with made | before
  · exact absurd (fresh c made) (by omega)
  · exact away before

theorem safe_build {h : Memory} {lent : List Nat} (old : ∀ c ∈ lent, c < h.next) (m : Message) :
    Safe (build h m).1 lent (build h m).2 := by
  intro c held
  obtain ⟨new, made⟩ := (build_spec h m).2 c held
  exact ⟨made, fun before => absurd (old c before) (by omega)⟩

/-- Stored messages read as before. -/
theorem mapValues_grows {h h' : Memory} {lent : List Nat} {store : Dict CacheKey (Entry Nat)}
    (safe : store.Every fun e => Safe h lent e.msg) (grows : h.Grows h') :
    store.mapValues (Entry.map (view h')) = store.mapValues (Entry.map (view h)) := by
  apply Dict.mapValues_congr
  intro e held
  rw [Entry.map, Entry.map, (view_of_grows grows fun c known => (safe e held c known).1).1]

theorem Apart.grows (apart : Apart w) {memory : Memory} (grows : w.memory.Grows memory)
    {new : List Nat} (fresh : ∀ c ∈ new, w.memory.next ≤ c ∧ c < memory.next) :
    Apart { w with memory, lent := new ++ w.lent } ∧
      ({ w with memory, lent := new ++ w.lent } : Shop).plain = w.plain := by
  refine ⟨⟨fun worker e held => ?_, fun c held => ?_⟩, ?_⟩
  · exact (apart.stored worker e held).grows grows fun c made => (fresh c made).1
  · rcases List.mem_append.mp held with made | before
    · exact (fresh c made).2
    · exact (apart.lent c before).trans_le grows.next
  · simp only [Shop.plain, mapValues_grows (apart.stored _) grows]

/-- A message is built and kept. -/
theorem Apart.build (apart : Apart w) (m : Message) :
    Apart { w with memory := (build w.memory m).1 } ∧
      ({ w with memory := (Cache.build w.memory m).1 } : Shop).plain = w.plain :=
  apart.grows (grows_build w.memory m) (List.forall_mem_nil _)

/-- A message is built and handed out. -/
theorem Apart.lend (apart : Apart w) (m : Message) :
    Apart (w.lend (Cache.build w.memory m).1 (Cache.build w.memory m).2) ∧
      (w.lend (Cache.build w.memory m).1 (Cache.build w.memory m).2).plain = w.plain :=
  apart.grows (grows_build w.memory m) (build_spec w.memory m).2

theorem Apart.withStore (apart : Apart w) (worker : Nat) {store : Dict CacheKey (Entry Nat)}
    (safe : store.Every fun e => Safe w.memory w.lent e.msg) : Apart (w.withStore worker store) := by
  refine ⟨fun other => ?_, apart.lent⟩
  change (Function.update w.stores worker store other).Every fun e => Safe w.memory w.lent e.msg
  by_cases same : other = worker
  · rw [same, Function.update_self]
    exact safe
  · rw [Function.update_of_ne same]
    exact apart.stored other

theorem plain_withStore (w : Shop) (worker : Nat) (store : Dict CacheKey (Entry Nat)) :
    (w.withStore worker store).plain =
      w.plain.withStore worker (store.mapValues (Entry.map (view w.memory))) := by
  have stores : (w.withStore worker store).plain.stores =
      (w.plain.withStore worker (store.mapValues (Entry.map (view w.memory)))).stores := by
    funext other
    by_cases same : other = worker
    · subst same
      simp only [Shop.plain, Shop.withStore, World.withStore, Function.update_self]
    · simp only [Shop.plain, Shop.withStore, World.withStore, Function.update_of_ne same]
  exact congrArg (fun stores => (⟨w.now, stores, w.shared⟩ : World)) stores

/-! ### Each action -/

/-- What is found, as the caller reads it. -/
def reading (got : Shop × Option (Nat × Bool)) : Option (Message × Bool) :=
  got.2.map fun hit => (view got.1.memory hit.1, hit.2)

/-- An action does to the plain caches what its call does. -/
structure Follows (s : Settings) (digest : Digest) (w : Shop) (call : Option Call)
    (got : Shop × Option (Nat × Bool)) : Prop where
  apart : Apart got.1
  plain : got.1.plain = call.elim w.plain fun c => (step s digest w.plain c).1
  found : reading got = call.bind fun c => (step s digest w.plain c).2

theorem withStore_same (w : World) (worker : Nat) : w.withStore worker (w.stores worker) = w := by
  rw [World.withStore, Function.update_eq_self]

/-- Where the worker's own store has it: it is handed out with new lists. -/
theorem follows_own (apart : Apart w) (worker : Nat) {store : Dict CacheKey (Entry Nat)} (hit : Hit Nat)
    (safe : store.Every fun e => Safe w.memory w.lent e.msg) :
    let got := retime w.memory hit.msg hit.ttl
    Apart ((w.withStore worker store).lend got.1 got.2) ∧
      ((w.withStore worker store).lend got.1 got.2).plain =
        w.plain.withStore worker (store.mapValues (Entry.map (view w.memory))) ∧
      view got.1 got.2 = withTtl (view w.memory hit.msg) hit.ttl := by
  obtain ⟨lent, same⟩ := (apart.withStore worker safe).lend (withTtl (view w.memory hit.msg) hit.ttl)
  exact ⟨lent, same.trans (plain_withStore w worker store), view_build _ _⟩

theorem follows_get (apart : Apart w) (worker : Nat) (key : CacheKey) (allowStale : Bool) :
    Follows s digest w (some (.get worker key allowStale)) (getObject s digest w worker key allowStale) := by
  have own : ownGet s w.now (w.plain.stores worker) key allowStale = _ :=
    ownGet_mapValues (view w.memory) s w.now (w.stores worker) key allowStale
  obtain ⟨kept, -⟩ := every_ownGet (apart.stored worker) s w.now key allowStale
  have plain : step s digest w.plain (.get worker key allowStale) =
      (w.plain.withStore worker
        (find s digest w.now (w.plain.stores worker) w.shared key allowStale).2,
        (get s digest w.now (w.plain.stores worker) w.shared key allowStale).1) := rfl
  suffices fits : Apart (getObject s digest w worker key allowStale).1 ∧
      (getObject s digest w worker key allowStale).1.plain = w.plain.withStore worker
        (find s digest w.now (w.plain.stores worker) w.shared key allowStale).2 ∧
      reading (getObject s digest w worker key allowStale) =
        (get s digest w.now (w.plain.stores worker) w.shared key allowStale).1 from
    ⟨fits.1, fits.2.1.trans (congrArg Prod.fst plain).symm, fits.2.2.trans (congrArg Prod.snd plain).symm⟩
  rw [getObject, get, find]
  by_cases off : s.enabled = false
  · rw [if_pos off, if_pos off]
    exact ⟨apart, (withStore_same _ _).symm, rfl⟩
  · rw [if_neg off, if_neg off, own]
    rcases mine : ownGet s w.now (w.stores worker) key allowStale with ⟨_ | hit, store⟩
    · rw [mine] at kept
      have stored := apart.withStore worker kept
      dsimp only [Option.map_none]
      rw [sharedGet]
      cases shared : sharedFind digest w.now w.shared key with
      | none => exact ⟨stored, plain_withStore w worker store, rfl⟩
      | some other =>
          obtain ⟨m, remaining⟩ := other
          obtain ⟨built, same⟩ := apart.build m
          have dup := safe_build apart.lent m
          have promoted := every_trim ((show store.Every fun e => Safe (build w.memory m).1 w.lent e.msg from
            fun e held => (kept e held).grows (grows_build w.memory m) (List.forall_mem_nil _)).set key
              (v := entryOf s w.now remaining (build w.memory m).2) dup) s
          obtain ⟨lent, after, reads⟩ := follows_own built worker
            ⟨(build w.memory m).2, wholeSeconds remaining, false⟩ promoted
          refine ⟨lent, after.trans ?_, ?_⟩
          · rw [same, mapValues_trim, Dict.mapValues_set, mapValues_grows kept (grows_build w.memory m)]
            dsimp only [entryOf, Entry.map]
            rw [view_build]
          · dsimp only at reads
            rw [view_build] at reads
            exact congrArg (fun m => some (m, false)) reads
    · rw [mine] at kept
      obtain ⟨lent, after, reads⟩ := follows_own apart worker hit kept
      exact ⟨lent, after, congrArg (fun m => some (m, hit.stale)) reads⟩

theorem follows_put (apart : Apart w) (worker : Nat) (key : CacheKey) (r : Nat) :
    Follows s digest w (some (.put worker key (view w.memory r)))
      (putObject s digest w worker key r, none) := by
  suffices fits : Apart (putObject s digest w worker key r) ∧ (putObject s digest w worker key r).plain =
      (step s digest w.plain (.put worker key (view w.memory r))).1 from ⟨fits.1, fits.2, rfl⟩
  change _ ∧ _ = ({ w.plain.withStore worker (put s digest w.now (w.plain.stores worker) w.shared key
      (view w.memory r)).1 with
    shared := (put s digest w.now (w.plain.stores worker) w.shared key (view w.memory r)).2 } : World)
  rw [putObject, put]
  dsimp only
  split
  · obtain ⟨built, same⟩ := apart.build (view w.memory r)
    have dup := safe_build apart.lent (view w.memory r)
    have grown := grows_build w.memory (view w.memory r)
    have stored := every_trim (every_inserted (show (w.stores worker).Every fun e =>
        Safe (build w.memory (view w.memory r)).1 w.lent e.msg from
      fun e held => (apart.stored worker e held).grows grown (List.forall_mem_nil _)) key
        (e := entryOf s w.now (deriveTtl s (view w.memory r)) (build w.memory (view w.memory r)).2) dup) s
    have replaced := built.withStore worker stored
    refine ⟨⟨replaced.stored, replaced.lent⟩, ?_⟩
    have after := plain_withStore { w with memory := (build w.memory (view w.memory r)).1 } worker
      (trim s (inserted (w.stores worker) key
        (entryOf s w.now (deriveTtl s (view w.memory r)) (build w.memory (view w.memory r)).2)))
    rw [same, mapValues_trim, mapValues_inserted, mapValues_grows (apart.stored worker) grown] at after
    have reads : Entry.map (view (build w.memory (view w.memory r)).1)
        (entryOf s w.now (deriveTtl s (view w.memory r)) (build w.memory (view w.memory r)).2) =
          freshEntry s w.now (view w.memory r) := by
      rw [freshEntry, entryOf, entryOf, Entry.map, view_build]
    rw [reads] at after
    exact congrArg (fun v : World => (⟨v.now, v.stores,
      sharedPut s digest w.now w.shared key (view w.memory r)⟩ : World)) after
  · exact ⟨apart, (congrArg (fun v : World => (⟨v.now, v.stores, w.shared⟩ : World))
      (withStore_same w.plain worker)).symm⟩

theorem follows_write (apart : Apart w) (k : Kind) (c : Nat) (v : k.Value) :
    Follows s digest w none (act s digest w (.write k c v)) := by
  rw [act]
  split
  · next held =>
      have away (worker : Nat) (e : CacheKey × Entry Nat) (stored : e ∈ (w.stores worker).entries) :
          view (w.memory.set k c v) e.2.msg = view w.memory e.2.msg ∧
            reach (w.memory.set k c v) e.2.msg = reach w.memory e.2.msg := by
        apply view_congr
        intro c' own k'
        apply Heap.cell_set_other
        rintro rfl
        exact (apart.stored worker e stored c' own).2 held
      refine ⟨⟨fun worker e stored c' own => ?_, apart.lent⟩, ?_, rfl⟩
      · rw [(away worker e stored).2] at own
        exact apart.stored worker e stored c' own
      · have stores : ({ w with memory := w.memory.set k c v } : Shop).plain.stores = w.plain.stores := by
          funext worker
          apply Dict.mapValues_congr
          intro e stored
          rw [Entry.map, Entry.map, (away worker e stored).1]
        exact congrArg (fun stores => (⟨w.now, stores, w.shared⟩ : World)) stores
  · exact ⟨apart, rfl, rfl⟩

theorem follows_flush (apart : Apart w) (worker : Nat) (domain : Option Text) :
    Follows s digest w (some (.flush worker domain)) (act s digest w (.flush worker domain)) := by
  suffices fits : Apart (act s digest w (.flush worker domain)).1 ∧
      (act s digest w (.flush worker domain)).1.plain = (step s digest w.plain (.flush worker domain)).1 ∧
      (act s digest w (.flush worker domain)).2 = none ∧
      (step s digest w.plain (.flush worker domain)).2 = none from
    ⟨fits.1, fits.2.1, by rw [reading, fits.2.2.1]; exact fits.2.2.2.symm⟩
  rw [act, step]
  cases named : domain.mapM fun text => (Name.fromText text).toOption with
  | none => exact ⟨apart, rfl, rfl, rfl⟩
  | some d =>
      have replaced := apart.withStore worker (every_flush (apart.stored worker) digest w.shared d)
      have after := plain_withStore w worker (flush digest (w.stores worker) w.shared d).1
      have plain : flush digest (w.plain.stores worker) w.shared d = _ :=
        flush_mapValues (Entry.map (view w.memory)) digest (w.stores worker) w.shared d
      refine ⟨⟨replaced.stored, replaced.lent⟩, ?_, rfl, rfl⟩
      have shared : w.plain.shared = w.shared := rfl
      dsimp only
      rw [shared, plain]
      exact congrArg (fun v : World => (⟨v.now, v.stores,
        (flush digest (w.stores worker) w.shared d).2⟩ : World)) after

theorem follows_act (apart : Apart w) (a : Action) : Follows s digest w (a.call w) (act s digest w a) := by
  cases a with
  | put worker key r => exact follows_put apart worker key r
  | get worker key allowStale => exact follows_get apart worker key allowStale
  | flush worker domain => exact follows_flush apart worker domain
  | wait seconds => exact ⟨⟨apart.stored, apart.lent⟩, rfl, rfl⟩
  | write k c v => exact follows_write apart k c v
  | make k v =>
      obtain ⟨made, same⟩ := apart.grows (w.memory.grows_alloc k v)
        (List.forall_mem_singleton (a := w.memory.next) |>.mpr ⟨Nat.le_refl _, Nat.lt_succ_self _⟩)
      exact ⟨made, same, rfl⟩

theorem apart_initial (now : ℚ) (shared : Option SharedCache) : Apart (.initial now shared) :=
  ⟨fun _ _ held => absurd held List.not_mem_nil, fun _ held => absurd held List.not_mem_nil⟩

/-- Whatever the callers do with the messages they hold, the caches are those of the calls alone. -/
theorem follows_acts (s : Settings) (digest : Digest) (apart : Apart w) (actions : List Action) :
    Apart (acts s digest w actions) ∧
      (acts s digest w actions).plain = run s digest w.plain (calls s digest w actions) := by
  induction actions generalizing w with
  | nil => exact ⟨apart, rfl⟩
  | cons a rest ih =>
      have first : Follows s digest w (a.call w) (act s digest w a) := follows_act apart a
      obtain ⟨last, same⟩ := ih first.apart
      refine ⟨last, same.trans ?_⟩
      rw [first.plain, calls, run, run, List.foldl_append]
      cases a.call w <;> rfl

end

/-! ### What every run keeps to -/

/-- The laws of the caches after a run. A message that comes back from the shared table was
written and read once. -/
structure Lawful (s : Settings) (digest : Digest) (used : Set CacheKey) (first : Shop)
    (actions : List Action) : Prop where
  returned : ∀ worker, ∀ key ∈ used, ∀ allowStale m stale,
    reading (getObject s digest (acts s digest first actions) worker key allowStale) = some (m, stale) →
      ∃ p ∈ puts s digest first.plain (calls s digest first actions), p.key = key ∧
        (acts s digest first actions).now < p.deadline s ∧
        ∃ copy, Copy p.msg copy ∧ (p.msg.RoundTrips true → copy.fold = p.msg.fold) ∧
          (stale = false → (acts s digest first actions).now < p.expires s ∧
            m = withTtl copy (wholeSeconds (p.expires s - (acts s digest first actions).now))) ∧
          (stale = true → m = withTtl copy staleTtl)
  own : ∀ before worker key r after, actions = before ++ .put worker key r :: after →
    let w := acts s digest first before
    let m := view w.memory r
    let put := (act s digest w (.put worker key r)).1
    keeps s m = true → (worker, key) ∉ evicted s digest w.plain (.put worker key m) →
      Undisturbed s digest worker key put.plain (calls s digest put after) →
      (acts s digest first actions).now < w.now + deriveTtl s m → ∀ allowStale,
        reading (getObject s digest (acts s digest first actions) worker key allowStale) =
          some (withTtl m (wholeSeconds (w.now + deriveTtl s m - (acts s digest first actions).now)), false)
  flushed : ∀ before worker text d after, actions = before ++ .flush worker (some text) :: after →
    Name.fromText text = .ok d →
    let w := (act s digest (acts s digest first before) (.flush worker (some text))).1
    puts s digest w.plain (calls s digest w after) = [] → ∀ key n, key.qname = Name.key n →
      d.lower <:+ n.lower → ∀ allowStale,
        reading (getObject s digest (acts s digest first actions) worker key allowStale) = none
  bounded : ∀ worker, ((acts s digest first actions).stores worker).size ≤ s.maxEntries
  edits : ∀ others, calls s digest first others = calls s digest first actions →
    ∀ worker key allowStale,
      reading (getObject s digest (acts s digest first others) worker key allowStale) =
        reading (getObject s digest (acts s digest first actions) worker key allowStale)

section

variable {s : Settings} {digest : Digest} {w : Shop}

theorem Copy.fold {m copy : Message} (same : Copy m copy) (trip : m.RoundTrips true) :
    copy.fold = m.fold := by
  rcases same with rfl | ⟨wire, written, read⟩
  · rfl
  · obtain ⟨bytes, encoded, back, again, same⟩ := trip
    cases written.symm.trans encoded
    cases read.symm.trans again
    exact same

/-- What a caller reads is what the plain caches give. -/
theorem reading_get (apart : Apart w) (worker : Nat) (key : CacheKey) (allowStale : Bool) :
    reading (getObject s digest w worker key allowStale) =
      (find s digest w.plain.now (w.plain.stores worker) w.plain.shared key allowStale).1.map fun hit =>
        (withTtl hit.msg hit.ttl, hit.stale) :=
  (follows_get apart worker key allowStale).found

theorem acts_append (s : Settings) (digest : Digest) (w : Shop) (before : List Action) (a : Action)
    (after : List Action) : acts s digest w (before ++ a :: after) =
      acts s digest (act s digest (acts s digest w before) a).1 after :=
  List.foldl_append

/-- Every run of calls and edits, from empty caches on, keeps the laws. -/
theorem lawful_acts (s : Settings) (digest : Digest) (used : Set CacheKey)
    (collisionFree : used.InjOn (key64 digest)) (start : ℚ) (shared : Option SharedCache)
    (actions : List Action)
    (uses : ∀ call ∈ calls s digest (.initial start shared) actions, call.Uses used) :
    Lawful s digest used (.initial start shared) actions := by
  have empty : (Shop.initial start shared).plain = World.initial start shared := rfl
  obtain ⟨apart, plain⟩ := follows_acts s digest (apart_initial start shared) actions
  have sourced := sourced_run s digest start shared (calls s digest (.initial start shared) actions)
  rw [← empty, ← plain] at sourced
  refine ⟨?_, ?_, ?_, ?_, ?_⟩
  · intro worker key asked allowStale m stale found
    rw [reading_get apart] at found
    obtain ⟨hit, held, same⟩ := Option.map_eq_some_iff.mp found
    obtain ⟨rfl, rfl⟩ := Prod.mk.inj same
    obtain ⟨p, put, alike, returned⟩ := (sourced.find key worker allowStale).returned hit held
    refine ⟨p, put, collisionFree (key_of_puts uses put) asked alike, ?_, hit.msg, returned.copy,
      returned.copy.fold, ?_, ?_⟩
    · cases stale : hit.stale with
      | true => exact (returned.stale stale).1
      | false =>
          have room : (0 : ℚ) ≤ s.serveStaleMax := Nat.cast_nonneg _
          have fresh := (returned.fresh stale).1
          change (acts s digest (.initial start shared) actions).now < p.expires s at fresh
          rw [Stored.deadline]
          linarith
    · intro fresh
      obtain ⟨before, ttl⟩ := returned.fresh fresh
      exact ⟨before, by rw [ttl]; rfl⟩
    · intro stale
      rw [(returned.stale stale).2]
  · rintro before worker key r after rfl
    dsimp only
    intro kept spared calm fresh allowStale
    obtain ⟨first, -⟩ := follows_acts s digest (apart_initial start shared) before
    have put : Follows s digest _ _ (act s digest _ _) := follows_act first (.put worker key r)
    obtain ⟨-, rest⟩ := follows_acts s digest put.apart after
    rw [acts_append] at fresh apart ⊢
    have now : (acts s digest (act s digest (acts s digest (.initial start shared) before)
        (.put worker key r)).1 after).now = _ := congrArg World.now rest
    have stepped : (act s digest (acts s digest (.initial start shared) before) (.put worker key r)).1.plain =
        (step s digest (acts s digest (.initial start shared) before).plain
          (.put worker key (view (acts s digest (.initial start shared) before).memory r))).1 := put.plain
    rw [stepped] at rest calm now
    rw [now] at fresh ⊢
    rw [reading_get apart, rest, find_own kept spared calm fresh allowStale]
    rfl
  · rintro before worker text d after rfl named
    dsimp only
    intro nothing key n same below allowStale
    obtain ⟨first, -⟩ := follows_acts s digest (apart_initial start shared) before
    have flush : Follows s digest _ _ (act s digest _ _) := follows_act first (.flush worker (some text))
    obtain ⟨-, rest⟩ := follows_acts s digest flush.apart after
    have read : readDomain (some text) = some (some d) := by
      rw [readDomain, Option.mapM_some, named]
      rfl
    rw [acts_append] at apart ⊢
    have stepped : (act s digest (acts s digest (.initial start shared) before)
        (.flush worker (some text))).1.plain =
          (step s digest (acts s digest (.initial start shared) before).plain
            (.flush worker (some text))).1 := flush.plain
    rw [stepped] at rest nothing
    rw [reading_get apart, rest]
    have flushed (w : World) : Flushed worker (some d) (step s digest w (.flush worker (some text))).1 :=
      flushed_step read
    have blank := (flushed _).run nothing
    rw [blank.miss (reaches_of_below same below) allowStale]
    rfl
  · intro worker
    have small := sourced.bounded worker
    rwa [Shop.plain, Dict.size_mapValues] at small
  · intro others same worker key allowStale
    obtain ⟨apart', plain'⟩ := follows_acts s digest (apart_initial start shared) others
    rw [same, ← plain] at plain'
    rw [reading_get apart, reading_get apart', plain']

end

/-- A caller makes a message, puts it and gets it back. -/
def handedOut : List Action :=
  [.make .questions [], .make .records [address 300], .make .records [],
    .make .message ⟨0, 0x8180, 0, 1, 2, 2, none⟩, .put 0 rootKey 3, .get 0 rootKey false]

/-- That it then empties the answers it was given is not seen by the next one. -/
theorem edited_unseen :
    reading (getObject {} (fun _ => 0) (acts {} (fun _ => 0) (.initial 0 none)
      (handedOut ++ [.write .records 10 []])) 0 rootKey false) =
    reading (getObject {} (fun _ => 0) (acts {} (fun _ => 0) (.initial 0 none) handedOut) 0 rootKey false) := by
  have laws := lawful_acts {} (fun _ => 0) {rootKey} (Set.injOn_singleton _ _) 0 none handedOut (by
    intro call listed
    rcases List.mem_cons.mp listed with rfl | listed
    · rfl
    · rcases List.mem_cons.mp listed with rfl | listed
      · rfl
      · cases listed)
  exact laws.edits (handedOut ++ [.write .records 10 []]) rfl 0 rootKey false

/-- A failure is not stored, however long its records last. -/
theorem failure_unfound : ¬ ∀ (s : Settings) (digest : Digest) (start : ℚ) (shared : Option SharedCache)
    (before : List Call) (worker : Nat) (key : CacheKey) (m : Message),
    let w := run s digest (World.initial start shared) before
    let last := (step s digest w (.put worker key m)).1
    (worker, key) ∉ evicted s digest w (.put worker key m) → last.now < w.now + deriveTtl s m →
      (get s digest last.now (last.stores worker) last.shared key false).1 =
        some (withTtl m (wholeSeconds (w.now + deriveTtl s m - last.now)), false) := by
  intro claim
  let failure : Message := { glued 300 with flags := 0x8182 }
  have found := claim {} (fun _ => 0) 0 none [] 0 rootKey failure (by decide +kernel) (by decide +kernel)
  exact absurd (congrArg Option.isSome found) (by decide +kernel)

end Trench.Cache
