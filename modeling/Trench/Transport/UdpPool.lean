import Mathlib
import Trench.Lib.Dict
import Trench.Wire.Name

set_option autoImplicit false

/- The sockets that carry queries to an upstream over UDP, as what happens on one event
loop: queries begin, datagrams arrive, timers go off, tasks resume. -/
namespace Trench.Transport

open Wire

/-- `(wire[0] << 8) | wire[1]`. -/
def txid (wire : Octets) : UInt16 := (wire.getD 0 0).toUInt16 <<< 8 ||| (wire.getD 1 0).toUInt16

/-- Where the labels of the question end; nothing at a compressed one. -/
def labelsEnd (wire : Octets) : Nat → Nat → Option Nat
  | 0, i => some i
  | fuel + 1, i =>
      if wire.length ≤ i ∨ wire.getD i 0 = 0 then some i
      else if 0xC0 ≤ wire.getD i 0 then none
      else labelsEnd wire fuel (i + (wire.getD i 0).toNat + 1)

/-- `_question_of`. -/
def questionOf (wire : Octets) : Octets :=
  if wire.length < 12 ∨ (wire.drop 4).take 2 = [0, 0] then []
  else
    match labelsEnd wire wire.length 12 with
    | none => []
    | some i => if i + 5 ≤ wire.length then ((wire.drop 12).take (i + 5 - 12)).map lowerOctet else []

/-- The check of a reply against the question that is expected. -/
def answersQuestion (question data : Octets) : Bool :=
  question = [] || (data.drop 4).take 2 = [0, 0] ||
    ((data.drop 12).take question.length).map lowerOctet = question

inductive Future where
  | waiting
  | result (data : Octets)
  /-- Whether the exception is a `TimeoutError`. -/
  | failed (timeout : Bool)
  | cancelled
  deriving DecidableEq

/-- What a query returns; of a reply held back, for which query it was. -/
inductive QueryOutcome where
  | reply (data : Octets)
  | stray (data : Octets) (holder : Nat)
  | error
  deriving DecidableEq

/-- A call of `query`, which has an outcome once its task has been through the cleanup. -/
structure Query where
  wire : Octets
  sock : Nat
  future : Future := .waiting
  expired : Bool := false
  cancelled : Bool := false
  outcome : Option QueryOutcome := none
  deriving DecidableEq

/-- Beside a reply that is held back stands the query that waited for that id then. -/
structure Socket where
  pending : Dict UInt16 Nat := .empty
  questions : Dict UInt16 Octets := .empty
  rejected : Dict UInt16 (Octets × Nat) := .empty
  pooled : Bool := true
  closed : Bool := false
  closing : Bool := false
  left : Int

/-- `refill` is the list that `_ensure` is extending, under its lock. -/
structure Pool where
  size : Nat
  target : Nat
  socks : List Nat
  refill : Option (List Nat)
  opened : Nat
  sockets : Nat → Socket
  queries : Nat → Option Query

def Pool.initial (size : Nat) : Pool := ⟨size, size, [], none, 0, fun _ => { left := 1 }, fun _ => none⟩

/-! ### One socket -/

namespace Socket

def expect (s : Socket) (wire : Octets) (q : Nat) : Socket :=
  { s with
    pending := s.pending.set (txid wire) q
    questions := s.questions.set (txid wire) (questionOf wire) }

def forget (s : Socket) (id : UInt16) : Socket :=
  { s with
    pending := s.pending.erase id
    questions := s.questions.erase id
    rejected := s.rejected.erase id }

def clear (s : Socket) : Socket := { s with pending := .empty, questions := .empty, rejected := .empty }

/-- The cleanup of a query: a socket out of the pool is closed behind the last one. -/
def cleanup (s : Socket) (id : UInt16) : Socket :=
  let s := s.forget id
  if s.pooled = false ∧ s.pending.size = 0 then { s with closing := true } else s

end Socket

/-! ### What can happen -/

inductive Event where
  /-- `query` up to its wait, on the socket it picks; whether the send succeeds. -/
  | begins (q : Nat) (wire : Octets) (s : Nat) (sent : Bool)
  | datagram (s : Nat) (data : Octets)
  /-- The timer of the wait, and the cancellation of its task. -/
  | expires (q : Nat)
  | cancels (q : Nat)
  /-- The task goes on; `late` where it is a `TimeoutError` that it sees. -/
  | resumes (q : Nat) (late : Bool)
  | lost (s : Nat)
  | errs (s : Nat) (timeout : Bool)
  /-- `_ensure`: under the lock, one socket more, out of descriptors, and the end of it. -/
  | refills
  | opens (lifetime : Nat)
  | caps
  | refilled

namespace Pool

def setSocket (p : Pool) (s : Nat) (socket : Socket) : Pool :=
  { p with sockets := Function.update p.sockets s socket }

def setQuery (p : Pool) (q : Nat) (query : Query) : Pool :=
  { p with queries := Function.update p.queries q (some query) }

/-- Sets an exception on every future that waits on the socket. -/
def fail (p : Pool) (s : Nat) (timeout : Bool) : Nat → Option Query := fun q =>
  (p.queries q).map fun r =>
    if (p.sockets s).pending.entries.any (fun e => e.2 == q) && r.future == .waiting then
      { r with future := .failed timeout }
    else r

def begins (p : Pool) (q : Nat) (wire : Octets) (s : Nat) (sent : Bool) : Pool :=
  let socket := p.sockets s
  let left := socket.left - 1
  let spent := decide (left ≤ 0)
  let socket := { socket with left, pooled := socket.pooled && !spent }
  let p := { p with socks := if spent then p.socks.erase s else p.socks }
  if sent then (p.setSocket s (socket.expect wire q)).setQuery q { wire, sock := s }
  else
    (p.setSocket s ((socket.expect wire q).cleanup (txid wire))).setQuery q
      { wire, sock := s, future := .cancelled, outcome := some .error }

/-- `datagram_received`. -/
def datagram (p : Pool) (s : Nat) (data : Octets) : Pool :=
  let socket := p.sockets s
  if data.length < 12 then p
  else
    match socket.pending.get? (txid data) with
    | none => p
    | some q =>
        match p.queries q with
        | none => p
        | some r =>
            if r.future ≠ .waiting then p
            else if answersQuestion ((socket.questions.get? (txid data)).getD []) data then
              (p.setSocket s (socket.forget (txid data))).setQuery q { r with future := .result data }
            else
              p.setSocket s { socket with rejected := socket.rejected.setDefault (txid data) (data, q) }

/-- What the wait returns or raises. -/
def waited (p : Pool) (r : Query) (late : Bool) : QueryOutcome :=
  if late then
    match (p.sockets r.sock).rejected.get? (txid r.wire) with
    | none => .error
    | some (data, holder) => .stray data holder
  else
    match r.future with
    | .result data => .reply data
    | _ => .error

/-- Nothing where it cannot happen. -/
def step (p : Pool) : Event → Option Pool
  | .begins q wire s sent =>
      if s ∈ p.socks ∧ p.queries q = none ∧ (p.sockets s).pending.get? (txid wire) = none then
        some (p.begins q wire s sent)
      else none
  | .datagram s data => if (p.sockets s).closed then none else some (p.datagram s data)
  | .expires q => do
      let r ← p.queries q
      if r.outcome = none then
        some (p.setQuery q { r with
          expired := true, future := if r.future = .waiting then .cancelled else r.future })
      else none
  | .cancels q => do
      let r ← p.queries q
      if r.outcome = none then
        some (p.setQuery q { r with
          cancelled := true, future := if r.future = .waiting then .cancelled else r.future })
      else none
  | .resumes q late => do
      let r ← p.queries q
      if r.outcome = none ∧ r.future ≠ .waiting ∧
          (late = true → r.expired = true ∨ r.future = .failed true) then
        some ((p.setSocket r.sock ((p.sockets r.sock).cleanup (txid r.wire))).setQuery q
          { r with outcome := some (p.waited r late) })
      else none
  | .lost s =>
      some { p.setSocket s { (p.sockets s).clear with closed := true } with
        socks := if (p.sockets s).pooled then p.socks.erase s else p.socks
        queries := p.fail s false }
  | .errs s timeout =>
      some { p.setSocket s (p.sockets s).clear with queries := p.fail s timeout }
  | .refills =>
      if p.refill = none ∧ p.socks.length < p.target then some { p with refill := some p.socks } else none
  | .opens lifetime => do
      let socks ← p.refill
      some { p.setSocket p.opened { left := lifetime } with
        refill := some (socks ++ [p.opened]), opened := p.opened + 1 }
  | .caps => do
      let socks ← p.refill
      if socks = [] then some { p with refill := none } else some { p with target := socks.length }
  | .refilled => do
      let socks ← p.refill
      some { p with socks, refill := none }

end Pool

end Trench.Transport
