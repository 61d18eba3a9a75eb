import Mathlib
import Trench.Cache.Lifetimes
import Trench.Wire.NameOrder

set_option autoImplicit false

/- What becomes of an entry over a run of calls: it stays until it is replaced, evicted or
flushed, and after a flush nothing under the name comes back by itself. -/
namespace Trench.Cache

open Wire

/-- The keys that a call drops for want of room. -/
def evicted (s : Settings) (digest : Digest) (w : World) : Call → List (Nat × CacheKey)
  | .put worker key m =>
      if keeps s m then
        (overflow s (inserted (w.stores worker) key (freshEntry s w.now m))).map fun e => (worker, e.1)
      else []
  | .get worker key allowStale =>
      if s.enabled = false then []
      else
        match ownGet s w.now (w.stores worker) key allowStale, sharedFind digest w.now w.shared key with
        | (none, store), some (m, remaining) =>
            (overflow s (store.set key (entryOf s w.now remaining m))).map fun e => (worker, e.1)
        | _, _ => []
  | _ => []

/-- A flush, read from its text, that reaches the key. -/
def Reaches (domain : Option Name) (key : CacheKey) : Prop :=
  ∀ d, domain = some d → Name.keyIsUnder key.qname d.key = true

def readDomain (domain : Option Text) : Option (Option Name) :=
  domain.mapM fun text => (Name.fromText text).toOption

/-- What ends the life of a worker's entry before its time. -/
inductive Disturbs (s : Settings) (digest : Digest) (w : World) (worker : Nat) (key : CacheKey) :
    Call → Prop
  | replaced (m : Message) (kept : keeps s m = true) : Disturbs s digest w worker key (.put worker key m)
  | evicted (call : Call) (gone : (worker, key) ∈ evicted s digest w call) :
      Disturbs s digest w worker key call
  | flushed (domain : Option Text) (d : Option Name) (named : readDomain domain = some d)
      (reached : Reaches d key) : Disturbs s digest w worker key (.flush worker domain)

/-- No call of a run does. -/
def Undisturbed (s : Settings) (digest : Digest) (worker : Nat) (key : CacheKey) :
    World → List Call → Prop
  | _, [] => True
  | w, call :: rest => ¬Disturbs s digest w worker key call ∧
      Undisturbed s digest worker key (step s digest w call).1 rest

/-- The worker's own put is in its store. -/
def Holds (s : Settings) (w : World) (p : Stored) : Prop :=
  (w.stores p.worker).get? p.key = some (freshEntry s p.time p.msg)

section

variable {s : Settings} {digest : Digest} {w : World} {p : Stored}

theorem withStore_self (w : World) (worker : Nat) (store : Store) :
    (w.withStore worker store).stores worker = store := Function.update_self ..

theorem withStore_other (w : World) {worker other : Nat} (apart : other ≠ worker) (store : Store) :
    (w.withStore worker store).stores other = w.stores other := Function.update_of_ne apart ..

/-- Time only moves on. -/
theorem now_le_step (s : Settings) (digest : Digest) (w : World) (call : Call) :
    w.now ≤ (step s digest w call).1.now := by
  cases call with
  | put worker key m => exact le_refl _
  | get worker key allowStale => exact le_refl _
  | flush worker domain =>
      rw [step]
      split <;> exact le_refl _
  | wait seconds => exact le_add_of_nonneg_right (le_max_left 0 seconds)

theorem now_le_run (s : Settings) (digest : Digest) (w : World) (calls : List Call) :
    w.now ≤ (run s digest w calls).now := by
  induction calls generalizing w with
  | nil => exact le_refl _
  | cons call rest ih => exact (now_le_step s digest w call).trans (ih _)

/-! ### An entry that nothing disturbs -/

/-- A fresh entry is found before the shared table is asked. -/
theorem ownGet_of_fresh {now : ℚ} {store : Store} (held : store.get? p.key =
    some (freshEntry s p.time p.msg)) (fresh : now < p.expires s) (allowStale : Bool) :
    ownGet s now store p.key allowStale =
      (some ⟨p.msg, wholeSeconds (p.expires s - now), false⟩, moveToEnd store p.key) := by
  have left : (freshEntry s p.time p.msg).ttl - (now - (freshEntry s p.time p.msg).inserted) =
      p.expires s - now := by
    change ((deriveTtl s p.msg : Int) : ℚ) - (now - p.time) = _
    rw [Stored.expires]
    ring
  rw [ownGet, held]
  dsimp only
  rw [left, if_pos (by linarith)]
  rfl

/-- What another key's get does to the entry before the shared table is asked. -/
theorem get?_ownGet {now : ℚ} {store : Store} {key k : CacheKey} (apart : key ≠ k) (allowStale : Bool) :
    (ownGet s now store key allowStale).2.get? k = store.get? k := by
  rw [ownGet]
  split
  · rfl
  · dsimp only
    split
    · exact get?_moveToEnd store key k
    · split
      · split
        · exact get?_moveToEnd store key k
        · rfl
      · rw [Dict.get?_erase_eq, if_neg apart]

theorem Holds.get (held : Holds s w p) (fresh : w.now < p.expires s) (key : CacheKey)
    (allowStale : Bool) (spared : (p.worker, p.key) ∉ evicted s digest w (.get p.worker key allowStale)) :
    (find s digest w.now (w.stores p.worker) w.shared key allowStale).2.get? p.key =
      some (freshEntry s p.time p.msg) := by
  rw [evicted] at spared
  rw [find]
  split
  · exact held
  · next enabled =>
      rw [if_neg enabled] at spared
      by_cases same : key = p.key
      · rw [same, ownGet_of_fresh held fresh]
        exact (get?_moveToEnd _ _ _).trans held
      · have other : (ownGet s w.now _ key allowStale).2.get? _ = _ :=
          (get?_ownGet same allowStale).trans held
        split
        · next hit store found =>
            rw [found] at other
            exact other
        · next store missed =>
            rw [missed] at spared other
            rw [sharedGet]
            cases found : sharedFind digest w.now w.shared key with
            | none => exact other
            | some hit =>
                rw [found] at spared
                dsimp only at spared ⊢
                rw [get?_trim, Dict.get?_set_eq, if_neg same]
                · exact other
                · intro e gone here
                  exact spared (List.mem_map.mpr ⟨e, gone, by rw [here]⟩)

theorem Holds.step (held : Holds s w p) (fresh : w.now < p.expires s) {call : Call}
    (calm : ¬Disturbs s digest w p.worker p.key call) : Holds s (step s digest w call).1 p := by
  have spared : (p.worker, p.key) ∉ evicted s digest w call := fun gone => calm (.evicted call gone)
  cases call with
  | put worker key m =>
      change ((w.withStore worker (Cache.put s digest w.now (w.stores worker) w.shared key m).1).stores
        p.worker).get? p.key = _
      by_cases own : p.worker = worker
      · subst own
        rw [withStore_self, Cache.put]
        rw [evicted] at spared
        split
        · next kept =>
            rw [if_pos kept] at spared
            have other : key ≠ p.key := by
              rintro rfl
              exact calm (.replaced m kept)
            rw [get?_trim, get?_inserted, if_neg other]
            · exact held
            · intro e gone here
              exact spared (List.mem_map.mpr ⟨e, gone, by rw [here]⟩)
        · exact held
      · rw [withStore_other w own]
        exact held
  | get worker key allowStale =>
      change ((w.withStore worker
        (find s digest w.now (w.stores worker) w.shared key allowStale).2).stores p.worker).get? p.key = _
      by_cases own : p.worker = worker
      · subst own
        rw [withStore_self]
        exact held.get fresh key allowStale spared
      · rw [withStore_other w own]
        exact held
  | flush worker domain =>
      rw [Cache.step]
      split
      · exact held
      · next d named =>
          by_cases own : p.worker = worker
          · subst own
            have away : ¬Reaches d p.key := fun reached => calm (.flushed domain d named reached)
            change ((w.withStore _ (Cache.flush digest (w.stores p.worker) w.shared d).1).stores
              p.worker).get? p.key = _
            rw [withStore_self]
            cases d with
            | none => exact absurd (fun d none => by cases none) away
            | some d =>
                rw [get?_flush, if_neg]
                · exact held
                · intro under
                  exact away fun d' same => Option.some.inj same ▸ under
          · change ((w.withStore _ _).stores p.worker).get? p.key = _
            rw [withStore_other w own]
            exact held
  | wait seconds => exact held

theorem Holds.run {calls : List Call} (held : Holds s w p)
    (calm : Undisturbed s digest p.worker p.key w calls)
    (fresh : (run s digest w calls).now < p.expires s) : Holds s (run s digest w calls) p := by
  induction calls generalizing w with
  | nil => exact held
  | cons call rest ih =>
      have early := (now_le_step s digest w call).trans (now_le_run s digest _ rest)
      exact ih (held.step (early.trans_lt fresh) calm.1) calm.2 fresh

/-- A put that is stored and not evicted by its own trim is held. -/
theorem holds_put {worker : Nat} {key : CacheKey} {m : Message} (kept : keeps s m = true)
    (spared : (worker, key) ∉ evicted s digest w (.put worker key m)) :
    Holds s (Cache.step s digest w (.put worker key m)).1 ⟨worker, key, m, w.now⟩ := by
  change ((w.withStore worker (Cache.put s digest w.now (w.stores worker) w.shared key m).1).stores
    worker).get? key = _
  rw [evicted, if_pos kept] at spared
  rw [withStore_self, Cache.put, if_pos kept, get?_trim, get?_inserted, if_pos rfl]
  intro e gone here
  exact spared (List.mem_map.mpr ⟨e, gone, by rw [here]⟩)

/-- The worker's own latest put is what a get returns. -/
theorem find_own {worker : Nat} {key : CacheKey} {m : Message} (kept : keeps s m = true)
    (spared : (worker, key) ∉ evicted s digest w (.put worker key m)) {calls : List Call}
    (calm : Undisturbed s digest worker key (Cache.step s digest w (.put worker key m)).1 calls)
    (fresh : (run s digest (Cache.step s digest w (.put worker key m)).1 calls).now <
      w.now + deriveTtl s m) (allowStale : Bool) :
    let last := run s digest (Cache.step s digest w (.put worker key m)).1 calls
    (find s digest last.now (last.stores worker) last.shared key allowStale).1 =
      some ⟨m, wholeSeconds (w.now + deriveTtl s m - last.now), false⟩ := by
  have held := (holds_put kept spared).run calm fresh
  have enabled : s.enabled = true := by
    rw [keeps, Bool.and_eq_true, Bool.and_eq_true] at kept
    exact kept.1.1
  dsimp only
  rw [find, if_neg (by simp [enabled]), ownGet_of_fresh held fresh]
  rfl

/-! ### After a flush -/

/-- Nothing that the flush reaches is in the worker's store, and the shared table is blank. -/
structure Flushed (worker : Nat) (domain : Option Name) (w : World) : Prop where
  own : ∀ key, Reaches domain key → (w.stores worker).get? key = none
  shared : ∀ c, w.shared = some c → ∀ b, c.table b = .blank

theorem flushed_step {worker : Nat} {domain : Option Text} {d : Option Name}
    (named : readDomain domain = some d) :
    Flushed worker d (Cache.step s digest w (.flush worker domain)).1 := by
  rw [Cache.step]
  rw [readDomain] at named
  rw [named]
  refine ⟨fun key reached => ?_, blank_flush digest _ _ d⟩
  change ((w.withStore worker (Cache.flush digest (w.stores worker) w.shared d).1).stores
    worker).get? key = none
  rw [withStore_self]
  cases d with
  | none => rfl
  | some d => rw [get?_flush, if_pos (reached d rfl)]

variable {worker : Nat} {domain : Option Name}

theorem Flushed.sharedFind (flushed : Flushed worker domain w) (key : CacheKey) :
    sharedFind digest w.now w.shared key = none := by
  rw [Cache.sharedFind]
  cases held : w.shared with
  | none => rfl
  | some c =>
      change (c.get w.now (key64 digest key) >>= _) = none
      rw [SharedCache.get_blank (flushed.shared c held)]
      rfl

/-- No get brings anything back. -/
theorem Flushed.find (flushed : Flushed worker domain w) (other : Nat) (key : CacheKey)
    (allowStale : Bool) :
    find s digest w.now (w.stores other) w.shared key allowStale =
      if s.enabled = false then (none, w.stores other)
      else ownGet s w.now (w.stores other) key allowStale := by
  rw [Cache.find]
  split
  · rfl
  · split
    · next hit store found => exact found.symm
    · next store missed =>
        rw [sharedGet, flushed.sharedFind, missed]

theorem get?_ownGet_none {now : ℚ} {store : Store} {key k : CacheKey} (absent : store.get? k = none)
    (allowStale : Bool) : (ownGet s now store key allowStale).2.get? k = none := by
  by_cases same : key = k
  · rw [ownGet, same, absent]
    exact absent
  · rw [get?_ownGet same, absent]

theorem Flushed.step (flushed : Flushed worker domain w) {call : Call}
    (nothing : stored s w call = none) : Flushed worker domain (step s digest w call).1 := by
  cases call with
  | put other key m =>
      have dropped : ¬keeps s m = true := fun kept => by
        rw [stored, if_pos kept] at nothing
        cases nothing
      change Flushed worker domain
        ({ w.withStore other (Cache.put s digest w.now (w.stores other) w.shared key m).1 with
          shared := (Cache.put s digest w.now (w.stores other) w.shared key m).2 } : World)
      rw [Cache.put, if_neg dropped]
      refine ⟨fun k reached => ?_, flushed.shared⟩
      by_cases own : worker = other
      · subst own
        exact (congrArg (Dict.get? · k) (withStore_self w worker _)).trans (flushed.own k reached)
      · exact (congrArg (Dict.get? · k) (withStore_other w own _)).trans (flushed.own k reached)
  | get other key allowStale =>
      refine ⟨fun k reached => ?_, flushed.shared⟩
      change ((w.withStore other
        (Cache.find s digest w.now (w.stores other) w.shared key allowStale).2).stores worker).get? k = none
      by_cases own : worker = other
      · subst own
        rw [withStore_self, flushed.find]
        split
        · exact flushed.own k reached
        · exact get?_ownGet_none (flushed.own k reached) allowStale
      · rw [withStore_other w own]
        exact flushed.own k reached
  | flush other text =>
      rw [Cache.step]
      split
      · exact flushed
      · next d named =>
          refine ⟨fun k reached => ?_, blank_flush digest _ _ d⟩
          change ((w.withStore other (Cache.flush digest (w.stores other) w.shared d).1).stores
            worker).get? k = none
          by_cases own : worker = other
          · subst own
            rw [withStore_self]
            cases d with
            | none => rfl
            | some d =>
                rw [get?_flush, flushed.own k reached, ite_self]
          · rw [withStore_other w own]
            exact flushed.own k reached
  | wait seconds => exact ⟨flushed.own, flushed.shared⟩

theorem Flushed.run (flushed : Flushed worker domain w) {calls : List Call}
    (nothing : puts s digest w calls = []) : Flushed worker domain (run s digest w calls) := by
  induction calls generalizing w with
  | nil => exact flushed
  | cons call rest ih =>
      obtain ⟨first, later⟩ := List.append_eq_nil_iff.mp nothing
      have none : stored s w call = none := Option.toList_eq_nil_iff.mp first
      exact ih (flushed.step none) later

/-- A get of what was flushed is a miss. -/
theorem Flushed.miss (flushed : Flushed worker domain w) {key : CacheKey} (reached : Reaches domain key)
    (allowStale : Bool) :
    (Cache.find s digest w.now (w.stores worker) w.shared key allowStale).1 = none := by
  rw [flushed.find]
  split
  · rfl
  · rw [ownGet, flushed.own key reached]

/-- A flush of a name reaches the keys of the name itself and of the names below it. -/
theorem reaches_of_below {d n : Name} {key : CacheKey} (same : key.qname = n.key)
    (below : d.lower <:+ n.lower) : Reaches (some d) key := by
  rintro _ ⟨⟩
  rw [same]
  exact Name.isSubdomainOf_iff.mpr below

end

end Trench.Cache
