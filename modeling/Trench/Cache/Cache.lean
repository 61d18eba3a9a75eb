import Mathlib
import Trench.Cache.Shared
import Trench.Lib.Dict

set_option autoImplicit false

/- The answer cache of a worker, and several workers with their shared table. -/
namespace Trench.Cache

open Wire

/-- TTL on a served-stale answer. -/
def staleTtl : Int := 30

structure Entry (μ : Type) where
  msg : μ
  inserted : ℚ
  ttl : ℚ
  staleUntil : ℚ

structure Settings where
  maxEntries : Nat := 100000
  minTtl : Int := 0
  maxTtl : Int := 86400
  negativeTtl : Int := 900
  serveStale : Bool := true
  serveStaleMax : Nat := 86400
  enabled : Bool := true

/-- The least recently used first. -/
abbrev Store := Dict CacheKey (Entry Message)

def keyFor (m : Message) (ecs view : Text) : Option CacheKey :=
  m.question.map fun q =>
    ⟨q.name.key, q.rtype, q.rclass, m.wantsDnssec, ecs, m.has flagCd, view⟩

/-! ### Lifetimes -/

def clamp (s : Settings) (ttl : Int) : Int := max s.minTtl (min s.maxTtl ttl)

/-- One round of `min_ttl`. -/
def shorter (best : Option Int) (rr : RR) : Option Int :=
  if rr.rtype ≠ RRType.opt ∧ best.all fun t => rr.ttl < t then some rr.ttl else best

/-- `Message.min_ttl`. -/
def messageMinTtl (m : Message) : Option Int := m.authority.foldl shorter (m.answers.foldl shorter none)

/-- `min(rr.ttl, getattr(rr.rdata, "minimum", rr.ttl))`. -/
def soaTtl (rr : RR) : Int :=
  match rr.rdata with
  | .soa d => min rr.ttl d.minimum
  | _ => rr.ttl

def deriveTtl (s : Settings) (m : Message) : Int :=
  if (m.rcode = Engine.Rcode.nxdomain ∨ m.rcode = Engine.Rcode.noerror) ∧ m.answers = [] then
    let soa := m.authority.filter fun rr => rr.rtype = RRType.soa
    let base := (soa.map soaTtl).min?.getD s.negativeTtl
    clamp s (min base s.negativeTtl)
  else clamp s ((messageMinTtl m).getD s.minTtl)

def retimed (ttl : Int) (rrs : List RR) : List RR := rrs.map fun rr => { rr with ttl }

/-- `_with_ttl`. -/
def withTtl (m : Message) (ttl : Int) : Message :=
  { m with
    answers := retimed ttl m.answers
    authority := retimed ttl m.authority
    additional := retimed ttl m.additional }

/-- Whole seconds of a lifetime. -/
def wholeSeconds (remaining : ℚ) : Int := max 0 ⌊remaining⌋

/-! ### The store -/

section

variable {κ μ ν : Type} [DecidableEq κ]

/-- What goes where there are too many. -/
def overflow (s : Settings) (store : Dict κ ν) : List (κ × ν) :=
  store.entries.take (store.size - s.maxEntries)

/-- The loop that trims. -/
def trim (s : Settings) (store : Dict κ ν) : Dict κ ν :=
  store.dropFirst (store.size - s.maxEntries)

def moveToEnd (store : Dict κ ν) (key : κ) : Dict κ ν :=
  match store.get? key with
  | some entry => (store.erase key).set key entry
  | none => store

/-- The entry of a put, before the trim. -/
def inserted (store : Dict κ ν) (key : κ) (entry : ν) : Dict κ ν :=
  moveToEnd (store.set key entry) key

def entryOf (s : Settings) (now ttl : ℚ) (m : μ) : Entry μ := ⟨m, now, ttl, now + ttl + s.serveStaleMax⟩

/-- A stored message, the lifetime it gets, and whether it is stale. -/
structure Hit (μ : Type) where
  msg : μ
  ttl : Int
  stale : Bool

/-- The part of `get` before the shared table. -/
def ownGet (s : Settings) (now : ℚ) (store : Dict κ (Entry μ)) (key : κ)
    (allowStale : Bool) : Option (Hit μ) × Dict κ (Entry μ) :=
  match store.get? key with
  | none => (none, store)
  | some entry =>
      let remaining := entry.ttl - (now - entry.inserted)
      if 0 < remaining then
        (some ⟨entry.msg, wholeSeconds remaining, false⟩, moveToEnd store key)
      else if s.serveStale ∧ now < entry.staleUntil then
        if allowStale then (some ⟨entry.msg, staleTtl, true⟩, moveToEnd store key)
        else (none, store)
      else (none, store.erase key)

end

/-- Whether a message is stored at all. -/
def keeps (s : Settings) (m : Message) : Bool :=
  s.enabled && (m.rcode == Engine.Rcode.noerror || m.rcode == Engine.Rcode.nxdomain) &&
    !(deriveTtl s m ≤ 0 && m.rcode == Engine.Rcode.noerror && !m.answers.isEmpty)

def freshEntry (s : Settings) (now : ℚ) (m : Message) : Entry Message := entryOf s now (deriveTtl s m) m

/-- The write to the shared table. -/
def sharedPut (s : Settings) (digest : Digest) (now : ℚ) (shared : Option SharedCache)
    (key : CacheKey) (m : Message) : Option SharedCache :=
  shared.map fun c =>
    match m.toWire with
    | .ok wire => c.put now (key64 digest key) wire (deriveTtl s m)
    | .error _ => c

def put (s : Settings) (digest : Digest) (now : ℚ) (store : Store) (shared : Option SharedCache)
    (key : CacheKey) (m : Message) : Store × Option SharedCache :=
  if keeps s m then
    (trim s (inserted store key (freshEntry s now m)), sharedPut s digest now shared key m)
  else (store, shared)

/-- The response of another worker, for `_shared_get`. -/
def sharedFind (digest : Digest) (now : ℚ) (shared : Option SharedCache) (key : CacheKey) :
    Option (Message × ℚ) := do
  let c ← shared
  let (wire, remaining) ← c.get now (key64 digest key)
  let m ← (Message.parse wire).toOption
  return (m, remaining)

/-- `_shared_get`. -/
def sharedGet (s : Settings) (digest : Digest) (now : ℚ) (store : Store)
    (shared : Option SharedCache) (key : CacheKey) : Option (Hit Message) × Store :=
  match sharedFind digest now shared key with
  | none => (none, store)
  | some (m, remaining) =>
      (some ⟨m, wholeSeconds remaining, false⟩, trim s (store.set key (entryOf s now remaining m)))

def find (s : Settings) (digest : Digest) (now : ℚ) (store : Store) (shared : Option SharedCache)
    (key : CacheKey) (allowStale : Bool) : Option (Hit Message) × Store :=
  if s.enabled = false then (none, store)
  else
    match ownGet s now store key allowStale with
    | (some hit, store) => (some hit, store)
    | (none, store) => sharedGet s digest now store shared key

/-- The response and whether it is stale. -/
def get (s : Settings) (digest : Digest) (now : ℚ) (store : Store) (shared : Option SharedCache)
    (key : CacheKey) (allowStale : Bool) : Option (Message × Bool) × Store :=
  let (hit, store) := find s digest now store shared key allowStale
  (hit.map fun hit => (withTtl hit.msg hit.ttl, hit.stale), store)

/-- Nothing at all, or the name and what is below it, after the name was read. -/
def flush {ν : Type} (digest : Digest) (store : Dict CacheKey ν) (shared : Option SharedCache)
    (domain : Option Name) : Dict CacheKey ν × Option SharedCache :=
  match domain with
  | none => (.empty, shared.map SharedCache.clear)
  | some d =>
      let victims := (store.entries.map Prod.fst).filter fun k => Name.keyIsUnder k.qname d.key
      (victims.foldl Dict.erase store, shared.map fun c =>
        (victims.foldl (fun c k => c.delete (key64 digest k)) c).clear)

/-! ### What the store holds after a change -/

section

variable {κ ν : Type} [DecidableEq κ]

theorem size_trim_le (s : Settings) (store : Dict κ ν) : (trim s store).size ≤ s.maxEntries := by
  rw [trim, Dict.size_dropFirst]
  omega

theorem get?_of_trim {s : Settings} {store : Dict κ ν} {k : κ} {e : ν}
    (found : (trim s store).get? k = some e) : store.get? k = some e := Dict.get?_of_dropFirst found

theorem get?_trim {s : Settings} {store : Dict κ ν} {k : κ}
    (spared : ∀ e ∈ overflow s store, e.1 ≠ k) : (trim s store).get? k = store.get? k :=
  Dict.get?_dropFirst fun e gone => beq_eq_false_iff_ne.mpr (spared e gone)

/-- The order of the entries is all that changes. -/
theorem get?_moveToEnd (store : Dict κ ν) (k l : κ) :
    (moveToEnd store k).get? l = store.get? l := by
  rw [moveToEnd]
  split
  · next e found =>
      rw [Dict.get?_set_eq, Dict.get?_erase_eq]
      split
      · next same => rw [← same, found]
      · rfl
  · rfl

theorem get?_inserted (store : Dict κ ν) (k l : κ) (e : ν) :
    (inserted store k e).get? l = if k = l then some e else store.get? l := by
  rw [inserted, get?_moveToEnd, Dict.get?_set_eq]

/-- A trim that leaves room for one entry leaves the last. -/
theorem spared_inserted {s : Settings} (room : 0 < s.maxEntries) (store : Dict κ ν)
    (k : κ) (entry : ν) : ∀ e ∈ overflow s (inserted store k entry), e.1 ≠ k := by
  intro e gone
  have found : (store.set k entry).get? k = some entry := by
    rw [Dict.get?_set_eq, if_pos rfl]
  rw [overflow, Dict.size, inserted, moveToEnd, found] at gone
  dsimp only at gone
  rw [Dict.entries_set_erase, List.length_append, List.length_singleton,
    List.take_append_of_le_length (by omega)] at gone
  have left := (List.mem_filter.mp (List.mem_of_mem_take gone)).2
  simpa using left

theorem size_moveToEnd_le (store : Dict κ ν) (k : κ) :
    (moveToEnd store k).size ≤ store.size := by
  rw [moveToEnd]
  split
  · next e found =>
      have held : store.contains k = true := by
        rw [Dict.contains_iff, found]
        rfl
      exact (Dict.size_set_le _ _ _).trans (Dict.size_erase_lt held)
  · exact Nat.le_refl _

end

section

variable {ν : Type}

/-- Erasing what a filter keeps: those keys are gone, and all others are as before. -/
theorem get?_foldl_erase (victims : List CacheKey) (store : Dict CacheKey ν) (k : CacheKey) :
    (victims.foldl Dict.erase store).get? k = if k ∈ victims then none else store.get? k := by
  induction victims generalizing store with
  | nil => rfl
  | cons first rest ih =>
      have listed : k ∈ first :: rest ↔ k = first ∨ k ∈ rest := List.mem_cons
      rw [List.foldl_cons, ih, Dict.get?_erase_eq]
      by_cases later : k ∈ rest
      · rw [if_pos later, if_pos (listed.mpr (.inr later))]
      · rw [if_neg later]
        by_cases here : first = k
        · rw [if_pos here, if_pos (listed.mpr (.inl here.symm))]
        · rw [if_neg here, if_neg fun held => (listed.mp held).elim (fun same => here same.symm) later]

theorem size_foldl_erase_le (victims : List CacheKey) (store : Dict CacheKey ν) :
    (victims.foldl Dict.erase store).size ≤ store.size := by
  induction victims generalizing store with
  | nil => exact Nat.le_refl _
  | cons first rest ih => exact (ih _).trans (Dict.size_erase_le _ _)

/-- A flush takes exactly the keys under the name. -/
theorem get?_flush (digest : Digest) (store : Dict CacheKey ν) (shared : Option SharedCache) (d : Name)
    (k : CacheKey) : (flush digest store shared (some d)).1.get? k =
      if Name.keyIsUnder k.qname d.key then none else store.get? k := by
  change (List.foldl Dict.erase store
    ((store.entries.map Prod.fst).filter fun k => Name.keyIsUnder k.qname d.key)).get? k = _
  rw [get?_foldl_erase]
  by_cases under : Name.keyIsUnder k.qname d.key = true
  · rw [if_pos under]
    split
    · rfl
    · next absent =>
        rw [Dict.get?_eq_none]
        intro e held
        rw [beq_eq_false_iff_ne]
        rintro rfl
        exact absent (List.mem_filter.mpr ⟨List.mem_map_of_mem held, under⟩)
  · rw [if_neg under, if_neg]
    intro listed
    exact under (List.mem_filter.mp listed).2

/-- No slot of the shared table survives a flush. -/
theorem blank_flush (digest : Digest) (store : Dict CacheKey ν) (shared : Option SharedCache)
    (domain : Option Name) : ∀ c, (flush digest store shared domain).2 = some c →
      ∀ b, c.table b = .blank := by
  intro c flushed b
  cases domain with
  | none =>
      obtain ⟨old, -, rfl⟩ := Option.map_eq_some_iff.mp flushed
      rfl
  | some d =>
      obtain ⟨old, -, rfl⟩ := Option.map_eq_some_iff.mp flushed
      rfl

end

/-! ### Workers -/

structure World where
  now : ℚ
  stores : Nat → Store
  shared : Option SharedCache

/-- Before the first call. -/
def World.initial (now : ℚ) (shared : Option SharedCache) : World :=
  ⟨now, fun _ => .empty, shared.map SharedCache.clear⟩

inductive Call where
  | put (worker : Nat) (key : CacheKey) (m : Message)
  | get (worker : Nat) (key : CacheKey) (allowStale : Bool)
  | flush (worker : Nat) (domain : Option Text)
  | wait (seconds : ℚ)

def World.withStore (w : World) (worker : Nat) (store : Store) : World :=
  { w with stores := Function.update w.stores worker store }

/-- One call; a flush of a text that is no name raises and does nothing. -/
def step (s : Settings) (digest : Digest) (w : World) : Call → World × Option (Message × Bool)
  | .put worker key m =>
      let (store, shared) := put s digest w.now (w.stores worker) w.shared key m
      ({ w.withStore worker store with shared }, none)
  | .get worker key allowStale =>
      let (found, store) := get s digest w.now (w.stores worker) w.shared key allowStale
      (w.withStore worker store, found)
  | .flush worker domain =>
      match domain.mapM fun text => (Name.fromText text).toOption with
      | none => (w, none)
      | some d =>
          let (store, shared) := flush digest (w.stores worker) w.shared d
          ({ w.withStore worker store with shared }, none)
  | .wait seconds => ({ w with now := w.now + max 0 seconds }, none)

def run (s : Settings) (digest : Digest) (w : World) (calls : List Call) : World :=
  calls.foldl (fun w c => (step s digest w c).1) w

end Trench.Cache
