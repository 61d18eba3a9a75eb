import Mathlib
import Trench.Cache.Lifetimes
import Trench.Wire.Address
import Trench.Wire.MessageRoundTrip

set_option autoImplicit false

/- The cache written to a file and read back by the next process. -/
namespace Trench.Cache

open Wire

/-- What `json.loads` gives, and what `json.dumps` is given. -/
inductive Json where
  | null
  | bool (b : Bool)
  | int (n : Int)
  | real (q : ℚ)
  | str (t : Text)
  | list (xs : List Json)
  | obj (fields : List (Text × Json))

/-! ### Keys in the file -/

/-- A key field as a dictionary compares it: `True` is 1. -/
inductive Scalar where
  | none
  | number (q : ℚ)
  | text (t : Text)
  deriving DecidableEq

/-- A key as it is read, whatever its fields are. -/
structure FileKey where
  qname : Octets
  fields : List Scalar
  deriving DecidableEq

def CacheKey.file (key : CacheKey) : FileKey :=
  ⟨key.qname, [.number key.qtype.toNat, .number key.qclass.toNat, .number key.dnssecOk.toNat,
    .text key.ecs, .number key.cd.toNat, .text key.view]⟩

/-- `bytes.hex`. -/
def hex (data : Octets) : Text :=
  data.flatMap fun b => [Nat.digitChar (b.toNat / 16), Nat.digitChar (b.toNat % 16)]

def isAsciiSpace (c : Char) : Bool := c ∈ [' ', '\t', '\n', '\x0b', '\x0c', '\r']

/-- The octets from here on, where the high half of the first may have been read. -/
def fromHexAfter : Option Nat → Text → Option Octets
  | none, [] => some []
  | some _, [] => none
  | none, c :: rest =>
      if isAsciiSpace c then fromHexAfter none rest
      else (hexValue c).bind fun high => fromHexAfter (some high) rest
  | some high, c :: rest => do
      let low ← hexValue c
      let more ← fromHexAfter none rest
      return UInt8.ofNat (high * 16 + low) :: more

/-- `bytes.fromhex`, which skips blanks between octets. -/
def fromHex (t : Text) : Option Octets := fromHexAfter none t

/-! ### Dump -/

/-- `int` of a number. -/
def truncate (q : ℚ) : Int := if 0 ≤ q then ⌊q⌋ else ⌈q⌉

/-- What is left of an entry's life. -/
def remaining {μ : Type} (now : ℚ) (e : Entry μ) : ℚ := e.ttl - (now - e.inserted)

def keyItem (key : CacheKey) : Json :=
  .list [.str (hex key.qname), .int key.qtype.toNat, .int key.qclass.toNat, .bool key.dnssecOk,
    .str key.ecs, .bool key.cd, .str key.view]

def dumpItem (now : ℚ) (key : CacheKey) (e : Entry Message) : Option Json :=
  let rem := truncate (remaining now e)
  if rem ≤ 0 then none
  else
    match e.msg.toWire with
    | .error _ => none
    | .ok wire => some (.list [keyItem key, .str (hex wire), .int rem])

/-- `_serialize`. -/
def serialize (now : ℚ) (store : Store) : List Json :=
  store.entries.filterMap fun e => dumpItem now e.1 e.2

/-! ### Load -/

/-- Python's iteration of a value, where it can be iterated. -/
def Json.iterate : Json → Option (List Json)
  | .list xs => some xs
  | .str t => some (t.map fun c => .str [c])
  | .obj fields => some (fields.map fun f => .str f.1)
  | _ => none

/-- A value as a field of a key; lists and objects have no hash. -/
def Json.hashable : Json → Option Scalar
  | .null => some .none
  | .bool b => some (.number b.toNat)
  | .int n => some (.number n)
  | .real q => some (.number q)
  | .str t => some (.text t)
  | .list _ | .obj _ => none

/-- `CacheKey(bytes.fromhex(key_list[0]), *key_list[1:])`, without the defaults. -/
def readKey (keyList : Json) : Option (Octets × List Json) := do
  let (first, args) ← match keyList with
    | .list (.str t :: args) => some (t, args)
    | .str (c :: cs) => some ([c], cs.map fun c => Json.str [c])
    | _ => none
  let qname ← fromHex first
  if 3 ≤ args.length ∧ args.length ≤ 6 then some (qname, args) else none

def readMessage : Json → Option Message
  | .str t => do
      let wire ← fromHex t
      (Message.parse wire).toOption
  | _ => none

/-- The defaults of the fields that are not there. -/
def withDefaults (fields : List Scalar) : List Scalar :=
  fields ++ [Scalar.text [], .number 0, .text []].drop (fields.length - 3)

/-- What one round of the loop comes to. -/
inductive Item where
  | skip
  | raise
  | entry (key : FileKey) (m : Message) (ttl : Int)

/-- The key is hashed where the entry is stored, behind the guard. -/
def readItem (s : Settings) (x : Json) : Item :=
  match x.iterate with
  | some [keyList, wire, .int ttl] =>
      match readKey keyList, readMessage wire with
      | some (qname, args), some m =>
          if ttl ≤ 0 then .skip
          else
            match args.mapM Json.hashable with
            | none => .raise
            | some fields => .entry ⟨qname, withDefaults fields⟩ m (min ttl s.maxTtl)
      | _, _ => .skip
  | _ => .skip

/-- The restored store, and whether the loop raised. -/
def loadItems (s : Settings) (now : ℚ) :
    Dict FileKey (Entry Message) → List Json → Dict FileKey (Entry Message) × Bool
  | store, [] => (trim s store, false)
  | store, x :: rest =>
      match readItem s x with
      | .skip => loadItems s now store rest
      | .raise => (store, true)
      | .entry key m ttl => loadItems s now (store.set key (entryOf s now ttl m)) rest

/-- `load` in a new process. -/
def load (s : Settings) (now : ℚ) (file : Json) : Dict FileKey (Entry Message) × Bool :=
  match file.iterate with
  | none => (.empty, true)
  | some items => loadItems s now .empty items

/-- `get` in the new process, whose shared table is new as well. -/
def restoredGet (s : Settings) (now : ℚ) (store : Dict FileKey (Entry Message)) (key : CacheKey)
    (allowStale : Bool) : Option (Message × Bool) :=
  if s.enabled = false then none
  else (ownGet s now store key.file allowStale).1.map fun hit => (withTtl hit.msg hit.ttl, hit.stale)

/-! ### Keys and messages come back -/

theorem file_inj {k l : CacheKey} (same : k.file = l.file) : k = l := by
  obtain ⟨qname, qtype, qclass, dnssecOk, ecs, cd, view⟩ := k
  obtain ⟨qname', qtype', qclass', dnssecOk', ecs', cd', view'⟩ := l
  simp only [CacheKey.file, FileKey.mk.injEq, List.cons.injEq, Scalar.number.injEq, Scalar.text.injEq,
    Nat.cast_inj, UInt16.toNat_inj, and_true] at same
  obtain ⟨rfl, rfl, rfl, dnssec, rfl, checking, rfl⟩ := same
  obtain rfl : dnssecOk = dnssecOk' := by
    cases dnssecOk <;> cases dnssecOk' <;> first | rfl | cases dnssec
  obtain rfl : cd = cd' := by
    cases cd <;> cases cd' <;> first | rfl | cases checking
  rfl

theorem not_space_digitChar (d : Nat) (small : d < 16) : isAsciiSpace (Nat.digitChar d) = false := by
  revert d
  decide

theorem fromHex_hex (data : Octets) : fromHex (hex data) = some data := by
  induction data with
  | nil => rfl
  | cons b rest ih =>
      have range := b.toNat_lt
      have high : b.toNat / 16 < 16 := by omega
      have low : b.toNat % 16 < 16 := Nat.mod_lt _ (by decide)
      have whole : b.toNat / 16 * 16 + b.toNat % 16 = b.toNat := by omega
      change fromHexAfter none (hex rest) = some rest at ih
      change fromHexAfter none (Nat.digitChar (b.toNat / 16) :: Nat.digitChar (b.toNat % 16) :: hex rest) = _
      rw [fromHexAfter, not_space_digitChar _ high, hexValue_digitChar _ high]
      change fromHexAfter (some (b.toNat / 16)) (Nat.digitChar (b.toNat % 16) :: hex rest) = _
      rw [fromHexAfter, hexValue_digitChar _ low, ih]
      change some (UInt8.ofNat (b.toNat / 16 * 16 + b.toNat % 16) :: rest) = _
      rw [whole, UInt8.ofNat_toNat]

theorem readKey_keyItem (key : CacheKey) : readKey (keyItem key) = some (key.qname,
    [.int key.qtype.toNat, .int key.qclass.toNat, .bool key.dnssecOk, .str key.ecs, .bool key.cd,
      .str key.view]) := by
  change (fromHex (hex key.qname)).bind _ = _
  rw [fromHex_hex]
  rfl

theorem readMessage_hex (wire : Octets) :
    readMessage (.str (hex wire)) = (Message.parse wire).toOption := by
  rw [readMessage, fromHex_hex]
  rfl

/-- The entry that comes of one, where it comes back at all. -/
def restored (s : Settings) (before now : ℚ) (e : Entry Message) : Option (Entry Message) :=
  let rem := truncate (remaining before e)
  if rem ≤ 0 then none
  else
    match e.msg.toWire with
    | .error _ => none
    | .ok wire => (Message.parse wire).toOption.map fun back => entryOf s now (min rem s.maxTtl : Int) back

/-- What a round of the loop makes of an item that was dumped. -/
theorem loadItems_dumpItem (s : Settings) (before now : ℚ) (store : Dict FileKey (Entry Message))
    (key : CacheKey) (e : Entry Message) (rest : List Json) :
    loadItems s now store ((dumpItem before key e).toList ++ rest) =
      loadItems s now ((restored s before now e).elim store fun r => store.set key.file r) rest := by
  rw [dumpItem, restored]
  split
  · rfl
  · next left =>
      cases e.msg.toWire with
      | error err => rfl
      | ok wire =>
          have round : readItem s (.list [keyItem key, .str (hex wire), .int (truncate (remaining before e))]) =
              match (Message.parse wire).toOption with
              | none => .skip
              | some m => .entry key.file m (min (truncate (remaining before e)) s.maxTtl) := by
            rw [readItem, Json.iterate]
            dsimp only
            rw [readKey_keyItem, readMessage_hex]
            cases (Message.parse wire).toOption with
            | none => rfl
            | some m =>
                dsimp only
                rw [if_neg left]
                rfl
          change loadItems s now store (_ :: rest) = _
          rw [loadItems, round]
          dsimp only
          cases (Message.parse wire).toOption <;> rfl

/-- A dumped store is read back entry by entry. -/
theorem loadItems_serialize (s : Settings) (before now : ℚ) (entries : List (CacheKey × Entry Message))
    (store : Dict FileKey (Entry Message)) :
    loadItems s now store (entries.filterMap fun e => dumpItem before e.1 e.2) =
      (trim s (entries.foldl (fun store e =>
        (restored s before now e.2).elim store fun r => store.set e.1.file r) store), false) := by
  induction entries generalizing store with
  | nil => rfl
  | cons e rest ih =>
      have split : (e :: rest).filterMap (fun e => dumpItem before e.1 e.2) =
          (dumpItem before e.1 e.2).toList ++ rest.filterMap fun e => dumpItem before e.1 e.2 := by
        rw [List.filterMap_cons]
        cases dumpItem before e.1 e.2 <;> rfl
      rw [split, loadItems_dumpItem, ih, List.foldl_cons]

theorem get?_foldl_restored (s : Settings) (before now : ℚ) (key : CacheKey)
    {entries : List (CacheKey × Entry Message)}
    (distinct : entries.Pairwise fun a b => (a.1 == b.1) = false) (store : Dict FileKey (Entry Message)) :
    (entries.foldl (fun store e => (restored s before now e.2).elim store fun r =>
      store.set e.1.file r) store).get? key.file =
      ((entries.find? fun e => e.1 == key).bind fun e => restored s before now e.2).or
        (store.get? key.file) := by
  induction entries generalizing store with
  | nil => rfl
  | cons e rest ih =>
      obtain ⟨first, others⟩ := List.pairwise_cons.mp distinct
      rw [List.foldl_cons, ih others, List.find?_cons]
      by_cases same : e.1 = key
      · have absent : (rest.find? fun e => e.1 == key) = none := by
          rw [List.find?_eq_none]
          intro other held
          rw [← same, Bool.not_eq_true, beq_eq_false_iff_ne]
          exact fun again => absurd (first other held) (by simp [again])
        rw [absent, beq_iff_eq.mpr same]
        cases found : restored s before now e.2 with
        | none => simp only [Option.bind_none, Option.bind_some, Option.none_or, Option.elim_none, found]
        | some r =>
            simp only [Option.bind_none, Option.bind_some, Option.none_or, Option.some_or,
              Option.elim_some, found]
            rw [Dict.get?_set_eq, if_pos (congrArg CacheKey.file same)]
      · rw [beq_eq_false_iff_ne.mpr same]
        have kept : ((restored s before now e.2).elim store fun r => store.set e.1.file r).get? key.file =
            store.get? key.file := by
          cases restored s before now e.2 with
          | none => rfl
          | some r =>
              dsimp only [Option.elim_some]
              rw [Dict.get?_set_eq, if_neg fun again => same (file_inj again)]
        rw [kept]

theorem size_foldl_restored (s : Settings) (before now : ℚ) (entries : List (CacheKey × Entry Message))
    (store : Dict FileKey (Entry Message)) :
    (entries.foldl (fun store e => (restored s before now e.2).elim store fun r =>
      store.set e.1.file r) store).size ≤ store.size + entries.length := by
  induction entries generalizing store with
  | nil => exact Nat.le_refl _
  | cons e rest ih =>
      have one : ((restored s before now e.2).elim store fun r => store.set e.1.file r).size ≤
          store.size + 1 := by
        cases restored s before now e.2 with
        | none => exact Nat.le_succ _
        | some r => exact Dict.size_set_le _ _ _
      have all := ih ((restored s before now e.2).elim store fun r => store.set e.1.file r)
      rw [List.foldl_cons, List.length_cons]
      omega

theorem trim_of_le {κ ν : Type} [DecidableEq κ] {s : Settings} {store : Dict κ ν}
    (small : store.size ≤ s.maxEntries) : trim s store = store := by
  rw [trim, Nat.sub_eq_zero_of_le small]
  rfl

/-- What a restart finds under a key. -/
theorem get?_load (s : Settings) (before now : ℚ) {store : Store} (small : store.size ≤ s.maxEntries)
    (key : CacheKey) : (load s now (.list (serialize before store))).1.get? key.file =
      (store.get? key).bind (restored s before now) := by
  have size := size_foldl_restored s before now store.entries .empty
  rw [load, Json.iterate]
  dsimp only
  rw [serialize, loadItems_serialize, trim_of_le (by
    have empty : (Dict.empty : Dict FileKey (Entry Message)).size = 0 := rfl
    have whole : store.entries.length = store.size := rfl
    omega), get?_foldl_restored s before now key store.distinct, Dict.get?_empty, Option.or_none,
    Dict.get?, Option.bind_map]
  rfl

/-! ### Fresh responses before and after -/

theorem ownGet_fresh_iff {κ μ : Type} [DecidableEq κ] {s : Settings} {now : ℚ}
    {store : Dict κ (Entry μ)} {key : κ} {allowStale : Bool} {hit : Hit μ} :
    ((ownGet s now store key allowStale).1 = some hit ∧ hit.stale = false) ↔
      ∃ e, store.get? key = some e ∧ 0 < remaining now e ∧
        hit = ⟨e.msg, wholeSeconds (remaining now e), false⟩ := by
  rw [ownGet]
  cases store.get? key with
  | none =>
      constructor
      · rintro ⟨same, -⟩
        cases same
      · rintro ⟨_, same, -⟩
        cases same
  | some e =>
      dsimp only
      rw [show e.ttl - (now - e.inserted) = remaining now e from rfl]
      split
      · next fresh =>
          constructor
          · rintro ⟨same, -⟩
            exact ⟨e, rfl, fresh, (Option.some.inj same).symm⟩
          · rintro ⟨e, ⟨⟩, -, rfl⟩
            exact ⟨rfl, rfl⟩
      · next spent =>
          constructor
          · split
            · split
              · rintro ⟨⟨⟩, fresh⟩
                cases fresh
              · rintro ⟨same, -⟩
                cases same
            · rintro ⟨same, -⟩
              cases same
          · rintro ⟨e, ⟨⟩, fresh, -⟩
            exact absurd fresh spent

/-- Equal messages, whatever the lifetimes of their records. -/
def SameButTtl (a b : Message) : Prop := (withTtl a 0).fold = (withTtl b 0).fold

theorem withTtl_withTtl (m : Message) (t u : Int) : withTtl (withTtl m t) u = withTtl m u := by
  simp only [withTtl, retimed, List.map_map, Message.mk.injEq, List.map_inj_left, Function.comp_apply,
    implies_true, and_self]

theorem sameButTtl_withTtl {a b : Message} {t u : Int} :
    SameButTtl (withTtl a t) (withTtl b u) ↔ SameButTtl a b := by
  rw [SameButTtl, SameButTtl, withTtl_withTtl, withTtl_withTtl]

/-- After `d` seconds between the dump and the load, a fresh response is one that the cache of
before would still give, for no longer. -/
def NotRevived (s : Settings) (digest : Digest) (shared : Option SharedCache) (store : Store)
    (before d : ℚ) : Prop :=
  ∀ (key : CacheKey) (later : ℚ) (allowStale : Bool) (m : Message), 0 ≤ later →
    restoredGet s (before + d + later) (load s (before + d) (.list (serialize before store))).1 key
      allowStale = some (m, false) →
    ∃ was, (get s digest (before + d + later) store shared key allowStale).1 = some (was, false) ∧
      SameButTtl m was ∧ NoLonger was m 0

/-- The time that the file has passed over is made up for by what the dump cut off each lifetime,
and each message that can be read back reads the same. -/
def Aged (s : Settings) (store : Store) (before d : ℚ) : Prop :=
  s.enabled = true → ∀ e ∈ store.entries, ∀ wire back, e.2.msg.toWire = .ok wire →
    Message.parse wire = .ok back → 0 < min (truncate (remaining before e.2)) s.maxTtl →
      d ≤ remaining before e.2 - (min (truncate (remaining before e.2)) s.maxTtl : Int) ∧
        SameButTtl back e.2.msg

theorem restoredGet_iff {s : Settings} {now : ℚ} {store : Dict FileKey (Entry Message)} {key : CacheKey}
    {allowStale : Bool} {m : Message} : restoredGet s now store key allowStale = some (m, false) ↔
      s.enabled = true ∧ ∃ e, store.get? key.file = some e ∧ 0 < remaining now e ∧
        m = withTtl e.msg (wholeSeconds (remaining now e)) := by
  rw [restoredGet]
  split
  · next off => exact ⟨nofun, fun on => absurd (off.symm.trans on.1) Bool.false_ne_true⟩
  · next on =>
      rw [Bool.not_eq_false] at on
      constructor
      · intro found
        obtain ⟨hit, held, same⟩ := Option.map_eq_some_iff.mp found
        obtain ⟨rfl, notStale⟩ := Prod.mk.inj same
        obtain ⟨e, listed, fresh, rfl⟩ := ownGet_fresh_iff.mp ⟨held, notStale⟩
        exact ⟨on, e, listed, fresh, rfl⟩
      · rintro ⟨-, e, listed, fresh, rfl⟩
        rw [(ownGet_fresh_iff.mpr ⟨e, listed, fresh, rfl⟩).1]
        rfl

/-- A fresh entry answers whatever the shared table holds. -/
theorem get_of_fresh {s : Settings} (on : s.enabled = true) (digest : Digest) {now : ℚ} {store : Store}
    (shared : Option SharedCache) {key : CacheKey} (allowStale : Bool) {e : Entry Message}
    (held : store.get? key = some e) (fresh : 0 < remaining now e) :
    (get s digest now store shared key allowStale).1 =
      some (withTtl e.msg (wholeSeconds (remaining now e)), false) := by
  have own : (ownGet s now store key allowStale).1 = some ⟨e.msg, wholeSeconds (remaining now e), false⟩ :=
    (ownGet_fresh_iff.mpr ⟨e, held, fresh, rfl⟩).1
  rcases found : ownGet s now store key allowStale with ⟨hit, store'⟩
  rw [found] at own
  cases own
  rw [get, find, if_neg (by simp [on]), found]
  rfl

/-- Without a shared table only a fresh entry answers. -/
theorem fresh_of_get {s : Settings} {digest : Digest} {now : ℚ} {store : Store} {key : CacheKey}
    {allowStale : Bool} {m : Message}
    (found : (get s digest now store none key allowStale).1 = some (m, false)) :
    ∃ e, store.get? key = some e ∧ 0 < remaining now e ∧
      m = withTtl e.msg (wholeSeconds (remaining now e)) := by
  obtain ⟨hit, held, same⟩ : ∃ hit, (find s digest now store none key allowStale).1 = some hit ∧
      (withTtl hit.msg hit.ttl, hit.stale) = (m, false) := Option.map_eq_some_iff.mp found
  obtain ⟨rfl, notStale⟩ := Prod.mk.inj same
  rw [find] at held
  split at held
  · cases held
  · split at held
    · next other store' own =>
        cases held
        obtain ⟨e, listed, fresh, rfl⟩ := ownGet_fresh_iff.mp ⟨congrArg Prod.fst own, notStale⟩
        exact ⟨e, listed, fresh, rfl⟩
    · cases held

theorem restored_eq_some {s : Settings} {before now : ℚ} {e r : Entry Message} :
    restored s before now e = some r ↔ 0 < truncate (remaining before e) ∧ ∃ wire back,
      e.msg.toWire = .ok wire ∧ Message.parse wire = .ok back ∧
        r = entryOf s now (min (truncate (remaining before e)) s.maxTtl : Int) back := by
  rw [restored]
  split
  · next spent => exact ⟨nofun, fun left => absurd left.1 (by omega)⟩
  · next left =>
      rw [and_iff_right (by omega)]
      cases written : e.msg.toWire with
      | error err => exact ⟨nofun, nofun⟩
      | ok wire =>
          dsimp only
          cases read : Message.parse wire with
          | error err =>
              refine ⟨nofun, ?_⟩
              rintro ⟨wire', back, ⟨⟩, again, -⟩
              rw [read] at again
              cases again
          | ok back =>
              constructor
              · intro same
                exact ⟨wire, back, rfl, read, (Option.some.inj same).symm⟩
              · rintro ⟨wire', back', ⟨⟩, again, rfl⟩
                rw [read] at again
                cases again
                rfl

theorem noLonger_retime {m back : Message} {t u : Int} (short : t ≤ u) :
    NoLonger (withTtl m u) (withTtl back t) 0 := by
  have each (rrs : List RR) : ∀ rr ∈ retimed u rrs, t ≤ rr.ttl - 0 := by
    intro rr held
    obtain ⟨old, -, rfl⟩ := List.mem_map.mp held
    simpa using short
  exact ⟨within_retimed (each _), within_retimed (each _), within_retimed (each _)⟩

theorem notRevived_of_aged {s : Settings} (digest : Digest) (shared : Option SharedCache) {store : Store}
    (small : store.size ≤ s.maxEntries) {before d : ℚ} (aged : Aged s store before d) :
    NotRevived s digest shared store before d := by
  intro key later allowStale m positive found
  obtain ⟨on, r, held, fresh, rfl⟩ := restoredGet_iff.mp found
  rw [get?_load s before _ small] at held
  obtain ⟨e, listed, came⟩ := Option.bind_eq_some_iff.mp held
  obtain ⟨left, wire, back, written, read, rfl⟩ := restored_eq_some.mp came
  have span : remaining (before + d + later) (entryOf s (before + d)
      (min (truncate (remaining before e)) s.maxTtl : Int) back) =
        (min (truncate (remaining before e)) s.maxTtl : Int) - later := by
    change ((min (truncate (remaining before e)) s.maxTtl : Int) : ℚ) -
      (before + d + later - (before + d)) = _
    ring
  rw [span] at fresh ⊢
  have lasts : 0 < min (truncate (remaining before e)) s.maxTtl := by
    have : (0 : ℚ) < (min (truncate (remaining before e)) s.maxTtl : Int) := by linarith
    exact_mod_cast this
  obtain ⟨entry, member, hit, rfl⟩ := Dict.get?_eq_some.mp listed
  obtain ⟨spent, same⟩ := aged on entry member wire back written read lasts
  have onward : remaining (before + d + later) entry.2 = remaining before entry.2 - d - later := by
    rw [remaining, remaining]
    ring
  have still : 0 < remaining (before + d + later) entry.2 := by
    rw [onward]
    linarith
  refine ⟨_, get_of_fresh on digest shared allowStale listed still, sameButTtl_withTtl.mpr same,
    noLonger_retime ?_⟩
  apply max_le_max_left
  apply Int.floor_le_floor
  rw [onward]
  linarith

theorem aged_of_notRevived {s : Settings} {digest : Digest} {store : Store}
    (small : store.size ≤ s.maxEntries) {before d : ℚ}
    (notRevived : NotRevived s digest none store before d) : Aged s store before d := by
  intro on entry member wire back written read lasts
  have listed : store.get? entry.1 = some entry.2 := Dict.get?_eq_some.mpr ⟨entry, member, BEq.rfl, rfl⟩
  let t : Int := min (truncate (remaining before entry.2)) s.maxTtl
  have left : 0 < truncate (remaining before entry.2) := lasts.trans_le (min_le_left _ _)
  have held : (load s (before + d) (.list (serialize before store))).1.get? entry.1.file =
      some (entryOf s (before + d) t back) := by
    rw [get?_load s before _ small, listed]
    exact restored_eq_some.mpr ⟨left, wire, back, written, read, rfl⟩
  have span (later : ℚ) : remaining (before + d + later) (entryOf s (before + d) t back) = t - later := by
    change (t : ℚ) - (before + d + later - (before + d)) = _
    ring
  have onward (later : ℚ) : remaining (before + d + later) entry.2 =
      remaining before entry.2 - d - later := by
    rw [remaining, remaining]
    ring
  have positive : (0 : ℚ) < t := by exact_mod_cast lasts
  have kept (later : ℚ) (zero : 0 ≤ later) (fresh : later < t) :
      0 < remaining before entry.2 - d - later ∧ SameButTtl back entry.2.msg := by
    obtain ⟨was, found, same, -⟩ := notRevived entry.1 later false _ zero
      (restoredGet_iff.mpr ⟨on, _, held, by rw [span]; linarith, rfl⟩)
    obtain ⟨e, again, still, rfl⟩ := fresh_of_get found
    obtain rfl : entry.2 = e := Option.some.inj (listed.symm.trans again)
    rw [onward] at still
    exact ⟨still, sameButTtl_withTtl.mp same⟩
  refine ⟨?_, (kept 0 le_rfl positive).2⟩
  -- a get between the two ends of life would tell them apart
  by_contra short
  rw [not_le] at short
  have gap : max 0 (remaining before entry.2 - d) < t := max_lt positive (by linarith)
  have still := (kept _ (le_max_left 0 _) gap).1
  have past := le_max_right 0 (remaining before entry.2 - d)
  linarith

/-! ### Items that are no entry -/

/-- A list or an object stands among the key's fields; the rest of the item is in order. -/
def Unhashable (x : Json) : Prop :=
  ∃ key wire ttl name fields m, x.iterate = some [key, wire, .int ttl] ∧
    readKey key = some (name, fields) ∧ readMessage wire = some m ∧ 0 < ttl ∧
      ∃ field ∈ fields, field.hashable = none

/-- Nothing that a query could ask for comes of the item. -/
def Spoilt (s : Settings) (x : Json) : Prop :=
  ∀ (key : CacheKey) (m : Message) (ttl : Int), readItem s x ≠ .entry key.file m ttl

/-- In every file that fits the cache, the others are read as without it. -/
def CostsItself (s : Settings) (x : Json) : Prop :=
  ∀ (now : ℚ) (items more : List Json), (items ++ x :: more).length ≤ s.maxEntries →
    (load s now (.list (items ++ x :: more))).2 = (load s now (.list (items ++ more))).2 ∧
      ∀ key : CacheKey, (load s now (.list (items ++ x :: more))).1.get? key.file =
        (load s now (.list (items ++ more))).1.get? key.file

theorem mapM_eq_none {α β : Type} {f : α → Option β} {xs : List α} :
    xs.mapM f = none ↔ ∃ x ∈ xs, f x = none := by
  induction xs with
  | nil => exact ⟨nofun, nofun⟩
  | cons x rest ih =>
      rw [List.mapM_cons, List.exists_mem_cons_iff]
      cases first : f x with
      | none => exact ⟨fun _ => .inl rfl, fun _ => rfl⟩
      | some y =>
          rw [← ih]
          cases rest.mapM f with
          | none => exact ⟨fun _ => .inr rfl, fun _ => rfl⟩
          | some ys => exact ⟨nofun, fun none => none.elim nofun nofun⟩

theorem readItem_raise {s : Settings} {x : Json} : readItem s x = .raise ↔ Unhashable x := by
  rw [readItem]
  split
  · next keyList wire ttl parts =>
      constructor
      · intro raised
        split at raised
        · next name args m keyed read =>
            split at raised
            · cases raised
            · next positive =>
                split at raised
                · next unhashed =>
                    exact ⟨keyList, wire, ttl, name, args, m, parts, keyed, read, by omega,
                      mapM_eq_none.mp unhashed⟩
                · cases raised
        · cases raised
      · rintro ⟨key, wire', ttl', name, fields, m, parts', keyed, read, positive, unhashed⟩
        rw [parts] at parts'
        cases parts'
        rw [keyed, read]
        dsimp only
        rw [if_neg (by omega), mapM_eq_none.mpr unhashed]
  · next other =>
      refine ⟨nofun, ?_⟩
      rintro ⟨key, wire, ttl, name, fields, m, parts, -⟩
      exact absurd parts (other key wire ttl)

/-- What the keys of queries find is the same. -/
def Agrees (a b : Dict FileKey (Entry Message)) : Prop :=
  ∀ key : CacheKey, a.get? key.file = b.get? key.file

theorem Agrees.set {a b : Dict FileKey (Entry Message)} (agrees : Agrees a b) (key : FileKey)
    (e : Entry Message) : Agrees (a.set key e) (b.set key e) := by
  intro k
  rw [Dict.get?_set_eq, Dict.get?_set_eq, agrees k]

theorem Agrees.loadItems {s : Settings} (now : ℚ) (items : List Json)
    {a b : Dict FileKey (Entry Message)} (agrees : Agrees a b)
    (room : a.size + items.length ≤ s.maxEntries) (space : b.size + items.length ≤ s.maxEntries) :
    (loadItems s now a items).2 = (loadItems s now b items).2 ∧
      Agrees (loadItems s now a items).1 (loadItems s now b items).1 := by
  induction items generalizing a b with
  | nil =>
      refine ⟨rfl, ?_⟩
      rw [Cache.loadItems, Cache.loadItems, trim_of_le room, trim_of_le space]
      exact agrees
  | cons x rest ih =>
      rw [List.length_cons] at room space
      rw [Cache.loadItems, Cache.loadItems]
      cases readItem s x with
      | skip => exact ih agrees (by omega) (by omega)
      | raise => exact ⟨rfl, agrees⟩
      | entry key m ttl =>
          have grown := a.size_set_le key (entryOf s now ttl m)
          have larger := b.size_set_le key (entryOf s now ttl m)
          exact ih (agrees.set key _) (by omega) (by omega)

theorem loadItems_spoilt {s : Settings} {x : Json} (spoilt : Spoilt s x) (sound : readItem s x ≠ .raise)
    (now : ℚ) (items more : List Json) (store : Dict FileKey (Entry Message))
    (room : store.size + (items ++ x :: more).length ≤ s.maxEntries) :
    (loadItems s now store (items ++ x :: more)).2 = (loadItems s now store (items ++ more)).2 ∧
      Agrees (loadItems s now store (items ++ x :: more)).1 (loadItems s now store (items ++ more)).1 := by
  induction items generalizing store with
  | nil =>
      rw [List.nil_append, List.nil_append, Cache.loadItems]
      rw [List.nil_append, List.length_cons] at room
      cases read : readItem s x with
      | skip => exact ⟨rfl, fun _ => rfl⟩
      | raise => exact absurd read sound
      | entry key m ttl =>
          have grown := store.size_set_le key (entryOf s now ttl m)
          refine Agrees.loadItems now more (fun k => ?_) (by omega) (by omega)
          rw [Dict.get?_set_eq, if_neg]
          rintro rfl
          exact spoilt k m ttl read
  | cons y rest ih =>
      rw [List.cons_append, List.cons_append, Cache.loadItems, Cache.loadItems]
      rw [List.cons_append, List.length_cons] at room
      cases readItem s y with
      | skip => exact ih store (by omega)
      | raise => exact ⟨rfl, fun _ => rfl⟩
      | entry key m ttl =>
          have grown := store.size_set_le key (entryOf s now ttl m)
          exact ih _ (by omega)

theorem costsItself_iff {s : Settings} (room : 0 < s.maxEntries) {x : Json} (spoilt : Spoilt s x) :
    CostsItself s x ↔ ¬Unhashable x := by
  constructor
  · intro costs unhashable
    have raised : loadItems s 0 .empty [x] = (.empty, true) := by
      rw [loadItems, readItem_raise.mpr unhashable]
    have alone : (loadItems s 0 .empty [x]).2 = (loadItems s 0 .empty []).2 := (costs 0 [] [] room).1
    rw [raised] at alone
    cases alone
  · intro hashable now items more fits
    apply loadItems_spoilt spoilt (fun raised => hashable (readItem_raise.mp raised)) now items more
    have empty : (Dict.empty : Dict FileKey (Entry Message)).size = 0 := rfl
    omega

/-- A restart ages no response backwards exactly where the downtime is made up for, and a spoilt
item costs itself only exactly where its key can be hashed. -/
theorem restart_iff (s : Settings) (digest : Digest) :
    (∀ (store : Store) (before d : ℚ), 0 ≤ d → store.size ≤ s.maxEntries →
      (NotRevived s digest none store before d ↔ Aged s store before d) ∧
        (Aged s store before d → ∀ shared, NotRevived s digest shared store before d)) ∧
    ∀ x, Spoilt s x → 0 < s.maxEntries → (CostsItself s x ↔ ¬Unhashable x) :=
  ⟨fun _ _ _ _ small => ⟨⟨aged_of_notRevived small, notRevived_of_aged digest none small⟩,
    fun aged shared => notRevived_of_aged digest shared small aged⟩,
    fun _ spoilt room => costsItself_iff room spoilt⟩

/-- A cache with one answer of five minutes. -/
def oneAnswer : Store := Dict.empty.set rootKey (freshEntry {} 0 (glued 300))

theorem reread_glued {wire : Octets} {back : Message} (written : (glued 300).toWire = .ok wire)
    (read : Message.parse wire = .ok back) : back = glued 300 := by
  have whole : (glued 300).toWire.toOption.bind (fun wire => (Message.parse wire).toOption) =
      some (glued 300) := by decide +kernel
  rw [written] at whole
  change (Message.parse wire).toOption = _ at whole
  rw [read] at whole
  exact Option.some.inj whole

/-- Loaded at once, the answer lasts as long as before; a bare text in the file costs itself. -/
theorem oneAnswer_restart : NotRevived {} (fun _ => 0) none oneAnswer 0 0 ∧ CostsItself {} (.str []) := by
  have aged : Aged {} oneAnswer 0 0 := by
    intro _ e listed wire back written read _
    obtain rfl : e = (rootKey, freshEntry {} 0 (glued 300)) := List.mem_singleton.mp listed
    rw [reread_glued written read]
    exact ⟨by decide +kernel, rfl⟩
  have laws := restart_iff {} fun _ => 0
  have small : oneAnswer.size ≤ 100000 := by decide
  refine ⟨((laws.1 oneAnswer 0 0 le_rfl small).1).mpr aged, ?_⟩
  refine (laws.2 (.str []) nofun (by decide)).mpr ?_
  rintro ⟨key, wire, ttl, name, fields, m, parts, -⟩
  cases parts

/-- After four hundred seconds of downtime the five minutes begin again. -/
theorem oneAnswer_revived : ¬ ∀ (s : Settings) (digest : Digest) (shared : Option SharedCache)
    (store : Store) (before d : ℚ), 0 ≤ d → store.size ≤ s.maxEntries →
      NotRevived s digest shared store before d := by
  intro claim
  obtain ⟨was, still, -⟩ := claim {} (fun _ => 0) none oneAnswer 0 400 (by decide +kernel) (by decide)
    rootKey 0 false (withTtl (glued 300) 300) le_rfl (by decide +kernel)
  have gone : (get {} (fun _ => 0) (0 + 400 + 0) oneAnswer none rootKey false).1 = none := by
    decide +kernel
  rw [gone] at still
  cases still

end Trench.Cache
