import Mathlib
import Trench.Engine.QueryKey
import Trench.Lib.Dict

set_option autoImplicit false

/- Replies recorded as octets and replayed, and the changes of policy that drop them. -/
namespace Trench.Engine.FastPath

open Wire

/-! ### Places in a message -/

/-- `_skip_name`: the place past a name, nothing where it is malformed. -/
def skipName (blob : Octets) : Nat → Nat → Option Nat
  | 0, _ => none
  | fuel + 1, p =>
      match blob.drop p with
      | [] => none
      | ln :: _ =>
          if ln = 0 then some (p + 1)
          else if ln &&& 0xC0 = 0xC0 then (if p + 2 ≤ blob.length then some (p + 2) else none)
          else if ln &&& 0xC0 ≠ 0 then none
          else skipName blob fuel (p + ln.toNat + 1)

def u16At (blob : Octets) (p : Nat) : Nat := (join16 (blob.getD p 0) (blob.getD (p + 1) 0)).toNat

def u32At (blob : Octets) (p : Nat) : Nat := u16At blob p * 65536 + u16At blob (p + 2)

/-- Past the questions. -/
def skipQuestions (blob : Octets) : Nat → Nat → Option Nat
  | 0, p => some p
  | qd + 1, p => do
      let p ← skipName blob blob.length p
      if blob.length < p + 4 then none else skipQuestions blob qd (p + 4)

/-- Over the records, where the TTLs stand; an OPT has none. -/
def recordTtls (blob : Octets) : Nat → Nat → Option (List Nat)
  | 0, _ => some []
  | n + 1, p => do
      let p ← skipName blob blob.length p
      if blob.length < p + 10 then none
      else
        let next := p + 10 + u16At blob (p + 8)
        if blob.length < next then none
        else
          let rest ← recordTtls blob n next
          some (if u16At blob p ≠ RRType.opt.toNat then (p + 4) :: rest else rest)

/-- `ttl_offsets`. -/
def ttlOffsets (blob : Octets) : Option (List Nat) :=
  if blob.length < 12 then none
  else do
    let p ← skipQuestions blob (u16At blob 4) 12
    recordTtls blob (u16At blob 6 + u16At blob 8 + u16At blob 10) p

/-- The loop of `edns_option` over the options of an OPT. -/
def optionAt (blob : Octets) (code stop : Nat) : Nat → Nat → Option (Nat × Nat)
  | 0, _ => none
  | fuel + 1, q =>
      if stop < q + 4 then none
      else
        let olen := u16At blob (q + 2)
        if u16At blob q = code then (if q + 4 + olen ≤ stop then some (q + 4, olen) else none)
        else optionAt blob code stop fuel (q + 4 + olen)

/-- Its loop over the sections, `qd` questions first. -/
def optionIn (blob : Octets) (code : Nat) : Nat → Nat → Nat → Option (Nat × Nat)
  | qd + 1, n, p => do
      let p ← skipName blob blob.length p
      optionIn blob code qd n (p + 4)
  | 0, 0, _ => none
  | 0, n + 1, p => do
      let p ← skipName blob blob.length p
      if blob.length < p + 10 then none
      else
        let body := p + 10
        let rdlen := u16At blob (p + 8)
        if u16At blob p = RRType.opt.toNat then
          optionAt blob code (min blob.length (body + rdlen)) blob.length body
        else optionIn blob code 0 n (body + rdlen)

/-- `edns_option`: where the value stands, and its length. -/
def ednsOption (blob : Octets) (code : Nat) : Option (Nat × Nat) :=
  if blob.length < 12 then none
  else optionIn blob code (u16At blob 4) (u16At blob 6 + u16At blob 8 + u16At blob 10) 12

/-! ### The table -/

/-- Of what a context carries as its action, those that may be recorded, and the others. -/
inductive Action where
  | cached
  | forwarded
  | blocked
  | other
  deriving DecidableEq

inductive EcsMode where
  | off
  | strip
  | forward
  deriving DecidableEq

/-- The settings that are read; `clients` and `cookies` where they are in use. -/
structure Settings (π : Type) where
  enabled : Bool
  filtering : Bool
  pluginsActive : Bool
  ecs : EcsMode
  maxEntries : Nat
  clients : Option (Text → Text → π)
  cookies : Option (Octets → Text → Octets)

/-- A recorded reply. `decided` is how many changes the run behind it had seen at its verdict. -/
structure WireAnswer where
  blob : Octets
  ttls : List Nat
  original : List Nat
  baseTtl : Nat
  inserted : ℚ
  qend : Nat
  action : Action
  cookieAt : Option (Nat × Nat)
  refreshing : Bool := false
  decided : Nat
  deriving DecidableEq

/-- A query on its way through the pipeline. -/
structure Resolving where
  data : Octets
  clientIp : Text
  clientId : Text
  decided : Option Nat := none

/-- The pipeline's rules and pauses, the table, and how many changes there have been. -/
structure World (π : Type) [DecidableEq π] where
  now : ℚ
  pausedUntil : ℚ := 0
  clientPause : Dict Text ℚ := .empty
  filterRules : Bool := false
  groupRules : List Bool := []
  anyClientRules : Bool := false
  table : Dict Octets WireAnswer := .empty
  policyIds : Dict π Octets := .empty
  runs : Nat → Option Resolving := fun _ => none
  changes : Nat := 0

variable {π : Type} [DecidableEq π]

namespace World

def initial (start : ℚ≥0) : World π := { now := start }

/-- `clear`, at the end of a change. -/
def clear (w : World π) : World π :=
  { w with table := .empty, policyIds := .empty, changes := w.changes + 1 }

def pause (w : World π) (seconds : ℚ) (client : Text) : World π :=
  let stop := w.now + max 0 seconds
  (if client ≠ [] then { w with clientPause := w.clientPause.set client stop }
    else { w with pausedUntil := stop }).clear

def resume (w : World π) (client : Text) : World π :=
  (if client ≠ [] then { w with clientPause := w.clientPause.erase client }
    else { w with pausedUntil := 0 }).clear

/-- `paused`, with the marks it takes down. -/
def paused (w : World π) (clientIp : Text) : Bool × World π :=
  if w.pausedUntil = 0 ∧ w.clientPause.size = 0 then (false, w)
  else if w.now < w.pausedUntil then (true, w)
  else
    let w := { w with pausedUntil := 0 }
    if clientIp = [] then (false, w)
    else
      match w.clientPause.get? clientIp with
      | none => (false, w)
      | some stop =>
          if w.now < stop then (true, w)
          else (false, { w with clientPause := w.clientPause.erase clientIp })

def pausedAny (w : World π) : Bool :=
  if w.pausedUntil = 0 ∧ w.clientPause.size = 0 then false
  else decide (w.now < w.pausedUntil) || w.clientPause.entries.any fun e => decide (w.now < e.2)

def refreshClientRules (w : World π) : World π :=
  { w with anyClientRules := w.filterRules || w.groupRules.any id }

/-- The filter setter, for an engine with `$client` rules or without. -/
def setFilter (w : World π) (clientRules : Bool) : World π :=
  ({ w with filterRules := clientRules }.refreshClientRules).clear

def setGroupFilters (w : World π) (clientRules : List Bool) : World π :=
  ({ w with groupRules := clientRules }.refreshClientRules).clear

/-- How many pauses end within the time. -/
def ending (w : World π) (seconds : ℚ) : Nat :=
  ((if w.pausedUntil = 0 then [] else [w.pausedUntil]) ++ w.clientPause.entries.map Prod.snd).countP
    fun stop => decide (w.now < stop) && decide (stop ≤ w.now + seconds)

def wait (w : World π) (seconds : ℚ) : World π :=
  { w with now := w.now + max 0 seconds, changes := w.changes + w.ending (max 0 seconds) }

def usable (s : Settings π) (w : World π) : Bool :=
  s.enabled && s.filtering && !w.pausedAny && !s.pluginsActive && !w.anyClientRules &&
    decide (s.ecs ≠ .forward)

/-- `_policy_tag`, with the tags given out so far. -/
def policyTag (s : Settings π) (w : World π) (clientIp clientId : Text) : Dict π Octets × Octets :=
  match s.clients with
  | none => (w.policyIds, [0, 0])
  | some identify =>
      let policy := identify clientIp clientId
      match w.policyIds.get? policy with
      | some tag => (w.policyIds, tag)
      | none =>
          let tag := octets16 (UInt16.ofNat (w.policyIds.size + 1))
          (w.policyIds.set policy tag, tag)

/-- The place of the cookies in reply and query; nothing where there is one that cannot be
computed anew. -/
def cookiePlaces (s : Settings π) (data blob : Octets) : Option (Option (Nat × Nat)) :=
  if s.cookies.isSome then
    match ednsOption blob EdnsOption.cookie.toNat with
    | none => some none
    | some inReply =>
        match ednsOption data EdnsOption.cookie.toNat with
        | none => none
        | some inQuery =>
            if inReply.2 = 16 ∧ 8 ≤ inQuery.2 then some (some (inReply.1, inQuery.1)) else none
  else some none

/-- What `store` would record, and under which octets of the query. -/
def recorded (s : Settings π) (w : World π) (r : Resolving) (decided : Nat) (blob : Octets)
    (action : Action) (timeDependent : Bool) : Option (Octets × WireAnswer) := do
  if w.usable s = false ∨ action = .other ∨ timeDependent = true then none
  else
    let (key, qend) ← queryKey r.data
    let ttls ← ttlOffsets blob
    let original := ttls.map (u32At blob)
    let baseTtl ← original.min?
    if baseTtl < 1 then none
    else
      let cookieAt ← cookiePlaces s r.data blob
      some (key, { blob, ttls, original, baseTtl, inserted := w.now, qend, action, cookieAt, decided })

/-- Room for one more: the oldest go. -/
def room (s : Settings π) (table : Dict Octets WireAnswer) : Dict Octets WireAnswer :=
  table.dropFirst (table.size + 1 - s.maxEntries)

/-- `store`. -/
def store (s : Settings π) (w : World π) (r : Resolving) (decided : Nat) (blob : Octets)
    (action : Action) (timeDependent : Bool) : World π :=
  match w.recorded s r decided blob action timeDependent with
  | none => w
  | some (key, answer) =>
      let (policyIds, tag) := w.policyTag s r.clientIp r.clientId
      { w with policyIds, table := (room s w.table).set (key ++ tag) answer }

/-! ### Replay -/

/-- `out[at:at + len(new)] = new`. -/
def patch (out : Octets) (place : Nat) (new : Octets) : Octets :=
  out.take place ++ new ++ out.drop (place + new.length)

def replay (s : Settings π) (e : WireAnswer) (data : Octets) (qend : Nat) (clientIp : Text)
    (remaining : ℚ) : Octets :=
  let out := patch (patch e.blob 0 (data.take 2)) 12 ((data.take qend).drop 12)
  let elapsed := (e.baseTtl : ℚ) - remaining
  let out := (e.ttls.zip e.original).foldl (fun out field =>
    patch out field.1 (octets32 (UInt32.ofNat (max 1 ⌈(field.2 : ℚ) - elapsed⌉).toNat))) out
  match e.cookieAt, s.cookies with
  | some (inReply, inQuery), some makeResponse =>
      patch out inReply (makeResponse ((data.drop inQuery).take 8) clientIp)
  | _, _ => out

def prefetchWindow : ℚ := 30

/-- `serve`, with the entry it replays. `gates` is what the access list, the rate limiter and the
detectors say. -/
def serve (s : Settings π) (w : World π) (data : Octets) (clientIp clientId : Text) (gates : Bool) :
    World π × Option (Octets × WireAnswer) :=
  if w.usable s = false then (w, none)
  else
    match queryKey data with
    | none => (w, none)
    | some (key, qend) =>
        let (policyIds, tag) := w.policyTag s clientIp clientId
        let w := { w with policyIds }
        match w.table.get? (key ++ tag) with
        | none => (w, none)
        | some e =>
            let remaining := (e.baseTtl : ℚ) - (w.now - e.inserted)
            if remaining ≤ 0 ∨ gates = false then (w, none)
            else
              let e' := if remaining ≤ prefetchWindow ∧ e.refreshing = false ∧ e.action ≠ .blocked then
                { e with refreshing := true } else e
              ({ w with table := w.table.set (key ++ tag) e' },
                some (replay s e data qend clientIp remaining, e))

end World

/-! ### What can happen -/

inductive Event where
  | waits (seconds : ℚ)
  | pauses (seconds : ℚ) (client : Text)
  | resumes (client : Text)
  | swaps (clientRules : Bool)
  | groups (clientRules : List Bool)
  | flushes
  /-- A datagram that is not replayed. -/
  | arrives (r : Nat) (data : Octets) (clientIp clientId : Text)
  /-- Its run reads whether it is paused, and its rules. -/
  | decides (r : Nat)
  /-- The run is through, and its reply offered to the table. -/
  | finishes (r : Nat) (blob : Octets) (action : Action) (timeDependent : Bool)
  | serves (data : Octets) (clientIp clientId : Text) (gates : Bool)

namespace World

/-- Nothing where it cannot happen. -/
def step (s : Settings π) (w : World π) : Event → Option (World π)
  | .waits seconds => some (w.wait seconds)
  | .pauses seconds client => some (w.pause seconds client)
  | .resumes client => some (w.resume client)
  | .swaps clientRules => some (w.setFilter clientRules)
  | .groups clientRules => some (w.setGroupFilters clientRules)
  | .flushes => some w.clear
  | .arrives r data clientIp clientId =>
      if (w.runs r).isNone then
        some { w with runs := Function.update w.runs r (some { data, clientIp, clientId }) }
      else none
  | .decides r => do
      let run ← w.runs r
      if run.decided.isNone then
        let w := (w.paused run.clientIp).2
        some { w with runs := Function.update w.runs r (some { run with decided := some w.changes }) }
      else none
  | .finishes r blob action timeDependent => do
      let run ← w.runs r
      let decided ← run.decided
      some { w.store s run decided blob action timeDependent with
        runs := Function.update w.runs r none }
  | .serves data clientIp clientId gates => some (w.serve s data clientIp clientId gates).1

end World

end Trench.Engine.FastPath
