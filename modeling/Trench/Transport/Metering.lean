import Mathlib
import Trench.Transport.Base
import Trench.Engine.RateLimit
import Trench.Engine.FastPath
import Trench.Lib.Machine

set_option autoImplicit false

/- Where a datagram meets the rate limiter: before it is replayed, and again where it is not. -/
namespace Trench.Transport.Metering

open Wire Engine Engine.FastPath

/-- The access list and the detectors in use, over a state of theirs, and which messages the zones
claim. -/
structure Gates (δ : Type) where
  allows : δ → Text → Bool × δ
  dga : Option (δ → WireAnswer → Text → Bool × δ)
  tunnel : Option (δ → WireAnswer → Text → Bool × δ)
  claims : Message → Bool

/-- `took` has an entry for every token, the number of the query it was taken for; `asked` has one
for every query that was let through or refused, its client and the moment. -/
structure Server (π δ : Type) [DecidableEq π] where
  limiter : RateLimiter
  world : World π
  gates : δ
  waiting : Nat → Option (Octets × Text) := fun _ => none
  arrived : Nat := 0
  took : List Nat := []
  asked : List (Text × ℚ) := []

/-- A recorded reply that may be replayed, and where it is kept. -/
structure Found where
  place : Octets
  qend : Nat
  answer : WireAnswer

variable {π δ : Type} [DecidableEq π]

/-- A detector that is in use looks at the name and type of the recorded reply. -/
def detects (detector : Option (δ → WireAnswer → Text → Bool × δ)) (d : δ) (answer : WireAnswer)
    (clientIp : Text) : Bool × δ :=
  match detector with
  | none => (false, d)
  | some check => check d answer clientIp

/-- The second is not asked where the first is suspicious. -/
def Gates.suspicious (g : Gates δ) (d : δ) (answer : WireAnswer) (clientIp : Text) : Bool × δ :=
  let first := detects g.dga d answer clientIp
  if first.1 then first else detects g.tunnel first.2 answer clientIp

namespace Found

def remaining (f : Found) (now : ℚ) : ℚ := (f.answer.baseTtl : ℚ) - (now - f.answer.inserted)

/-- Due for an early refresh. -/
def due (f : Found) (now : ℚ) : Bool :=
  decide (f.remaining now ≤ World.prefetchWindow) && !f.answer.refreshing && decide (f.answer.action ≠ .blocked)

end Found

def parses (data : Octets) : Bool :=
  match Message.parse data with
  | .error _ => false
  | .ok _ => true

/-- Whether what is handled in a task comes to the rate limiter: a claim of the zones, or a
standard query with a question. -/
def consults (g : Gates δ) (data : Octets) : Bool :=
  if notAQuery data then false
  else
    match Message.parse data with
    | .error _ => false
    | .ok query => g.claims query || (decide (headerError query = none) && query.question.isSome)

namespace Server

variable (s : Settings π) (g : Gates δ)

/-- `not (rl.enabled and not rl.allow(client_ip))`. -/
def meter (v : Server π δ) (id : Nat) (clientIp : Text) : Bool × Server π δ :=
  let allowed := v.limiter.allow clientIp v.world.now
  (allowed.1, { v with
    limiter := allowed.2
    took := if v.limiter.enabled && allowed.1 then id :: v.took else v.took })

def decided (v : Server π δ) (clientIp : Text) : Server π δ :=
  { v with asked := (clientIp, v.world.now) :: v.asked }

/-- `serve`, up to the access list. -/
def lookup (v : Server π δ) (data : Octets) (clientIp : Text) : Option Found × Server π δ :=
  if v.world.usable s = false then (none, v)
  else
    match queryKey data with
    | none => (none, v)
    | some (key, qend) =>
        let (policyIds, tag) := v.world.policyTag s clientIp []
        let v := { v with world := { v.world with policyIds } }
        match v.world.table.get? (key ++ tag) with
        | none => (none, v)
        | some answer =>
            let f : Found := ⟨key ++ tag, qend, answer⟩
            if f.remaining v.world.now ≤ 0 then (none, v)
            else
              let (allows, gates) := g.allows v.gates clientIp
              (if allows then some f else none, { v with gates })

/-- `serve`, behind the detectors. -/
def replayed (v : Server π δ) (f : Found) (data : Octets) (clientIp : Text) : Option Octets × Server π δ :=
  let due := f.due v.world.now
  let answer := if due then { f.answer with refreshing := true } else f.answer
  let world := { v.world with table := v.world.table.set f.place answer }
  -- Parsing the query for the refresh may raise, and the datagram falls through.
  (if due && !parses data then none
    else some (World.replay s f.answer data f.qend clientIp (f.remaining v.world.now)), { v with world })

/-- `FastPath.serve`, for the datagram of a number. -/
def serve (v : Server π δ) (id : Nat) (data : Octets) (clientIp : Text) : Option Octets × Server π δ :=
  match v.lookup s g data clientIp with
  | (none, v) => (none, v)
  | (some f, v) =>
      let (allowed, v) := v.meter id clientIp
      if allowed = false then (none, v)
      else
        let (suspicious, gates) := g.suspicious v.gates f.answer clientIp
        let v := { v with gates }
        if suspicious then (none, v) else (v.decided clientIp).replayed s f data clientIp

/-- `datagram_received`; `room` is whether another task fits. -/
def datagramReceived (v : Server π δ) (data : Octets) (clientIp : Text) (room : Bool) : Server π δ :=
  let id := v.arrived
  let (out, v) := v.serve s g id data clientIp
  let waiting := if out.isNone && room then Function.update v.waiting id (some (data, clientIp)) else v.waiting
  { v with waiting, arrived := id + 1 }

/-- `_handle` and `_run` up to the rate limiter, with what it says. -/
def handle (v : Server π δ) (id : Nat) (data : Octets) (clientIp : Text) : Option Bool × Server π δ :=
  if consults g data then
    let (allowed, v) := v.meter id clientIp
    (some allowed, v.decided clientIp)
  else (none, v)

end Server

/-! ### What can happen -/

inductive Event (π δ : Type) [DecidableEq π] where
  | receives (data : Octets) (clientIp : Text) (room : Bool)
  /-- The task of a datagram comes to its turn. -/
  | runs (id : Nat)
  /-- A query on another transport comes to the rate limiter. -/
  | asks (clientIp : Text)
  | sweeps (idle : ℚ)
  /-- Time passes, replies are recorded and dropped, and the access list and the detectors learn. -/
  | becomes (world : World π) (gates : δ)

namespace Server

variable (s : Settings π) (g : Gates δ)

/-- Nothing where it cannot happen. -/
def step (v : Server π δ) : Event π δ → Option (Server π δ)
  | .receives data clientIp room => some (v.datagramReceived s g data clientIp room)
  | .runs id => do
      let (data, clientIp) ← v.waiting id
      let v := (v.handle g id data clientIp).2
      some { v with waiting := Function.update v.waiting id none }
  | .asks clientIp =>
      some { (v.meter v.arrived clientIp).2.decided clientIp with arrived := v.arrived + 1 }
  | .sweeps idle => some { v with limiter := v.limiter.gc v.world.now idle }
  | .becomes world gates => if v.world.now ≤ world.now then some { v with world, gates } else none

/-- The client whose query the rate limiter refuses. -/
def refuses (v : Server π δ) : Event π δ → Option Text
  | .runs id => do
      let (data, clientIp) ← v.waiting id
      if (v.handle g id data clientIp).1 = some false then some clientIp else none
  | .asks clientIp => if (v.meter v.arrived clientIp).1 = false then some clientIp else none
  | _ => none

/-- How many queries of a client have been decided from a moment on. -/
def askedSince (v : Server π δ) (clientIp : Text) (start : ℚ) : Nat :=
  v.asked.countP fun a => decide (a.1 = clientIp) && decide (start ≤ a.2)

/-- From every moment on, the queries of a client are within what the bucket holds and what comes in. -/
def Within (v : Server π δ) (clientIp : Text) : Prop :=
  ∀ start, start ≤ v.world.now →
    (v.askedSince clientIp start : ℚ) ≤ v.limiter.burst + (v.world.now - start) * v.limiter.rate

/-- A client within its share is not refused. -/
def Fair (v : Server π δ) (e : Event π δ) (v' : Server π δ) : Prop :=
  ∀ clientIp, v'.Within clientIp → v.refuses g e ≠ some clientIp

/-- Where a datagram that could be replayed has found a token, no detector flags it. -/
def Unflagged (v : Server π δ) : Event π δ → Prop
  | .receives data clientIp _ => ∀ f v', v.lookup s g data clientIp = (some f, v') →
      v.limiter.enabled = true → (v.limiter.allow clientIp v.world.now).1 = true →
      (g.suspicious v'.gates f.answer clientIp).1 = false
  | _ => True

end Server

end Trench.Transport.Metering
