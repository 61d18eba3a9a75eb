import Mathlib
import Trench.Cache.Objects
import Trench.Engine.Pipeline

set_option autoImplicit false

/- Clients that ask the same question at one moment, as tasks on one event loop that share
an upstream query. -/
namespace Trench.Engine.Coalesce

open Wire
open Cache (CacheKey Kind EdnsObject build buildEdns detach view reach)

/-- An exception that is no cancellation. -/
inductive Fault (ε : Type) where
  | upstreamError (text : Text)
  | raised (e : ε)

/-- How `_fetch` ends. -/
inductive Ended (ε : Type) where
  | answer (a : Answer)
  | raised (e : ε)
  | cancelled

/-- `_Answer`, its message an object. -/
inductive Handed where
  | resp (r : Nat)
  | block (b : Block)

inductive Future (ε : Type) where
  | waiting
  | result (a : Handed)
  | failed (e : Fault ε)

inductive Outcome (ε : Type) where
  | answer (a : Handed)
  | raised (e : Fault ε)
  | cancelled

inductive Role where
  | alone
  | leads
  | follows (leader : Nat)
  deriving DecidableEq

/-- A call of `_fetch_coalesced`, with how its own `_fetch` ended. -/
structure Task (ε : Type) where
  key : Option CacheKey
  role : Role
  cancelled : Bool := false
  ended : Option (Ended ε) := none
  outcome : Option (Outcome ε) := none

/-- A future goes by the number of the task that made it. -/
structure Loop (ε : Type) where
  memory : Cache.Memory
  inflight : Dict CacheKey Nat
  futures : Nat → Future ε
  tasks : Nat → Option (Task ε)

variable {ε : Type}

def Future.done : Future ε → Bool
  | .waiting => false
  | _ => true

def Handed.object : Handed → Option Nat
  | .resp r => some r
  | .block _ => none

def Future.object : Future ε → Option Nat
  | .result a => a.object
  | _ => none

def Outcome.object : Outcome ε → Option Nat
  | .answer a => a.object
  | _ => none

/-! ### Between two waits -/

/-- A follower's copy: `detach` where there is a message. -/
def detached (memory : Cache.Memory) : Handed → Cache.Memory × Handed
  | .resp r =>
      let (memory, dup) := detach memory r
      (memory, .resp dup)
  | .block b => (memory, .block b)

/-- What `_fetch` returns or raises. -/
def handed (memory : Cache.Memory) : Ended ε → Cache.Memory × Outcome ε
  | .answer (.resp m) =>
      let (memory, r) := build memory m
      (memory, .answer (.resp r))
  | .answer (.block b) => (memory, .answer (.block b))
  | .raised e => (memory, .raised (.raised e))
  | .cancelled => (memory, .cancelled)

/-- What the followers are told of it. -/
def told (memory : Cache.Memory) : Outcome ε → Cache.Memory × Future ε
  | .answer a =>
      let (memory, dup) := detached memory a
      (memory, .result dup)
  | .raised e => (memory, .failed e)
  | .cancelled => (memory, .failed (.upstreamError "upstream query cancelled".toList))

namespace Loop

def initial : Loop ε := ⟨.blank, .empty, fun _ => .waiting, fun _ => none⟩

def setTask (w : Loop ε) (c : Nat) (t : Task ε) : Loop ε :=
  { w with tasks := Function.update w.tasks c (some t) }

def setFuture (w : Loop ε) (c : Nat) (f : Future ε) : Loop ε :=
  { w with futures := Function.update w.futures c f }

def lead (w : Loop ε) (c : Nat) (key : CacheKey) : Loop ε :=
  { w.setFuture c .waiting with inflight := w.inflight.set key c }.setTask c
    { key := some key, role := .leads }

/-- `_fetch_coalesced` up to its first wait. -/
def arrives (w : Loop ε) (c : Nat) : Option CacheKey → Loop ε
  | none => w.setTask c { key := none, role := .alone }
  | some key =>
      match w.inflight.get? key with
      | some leader =>
          if (w.futures leader).done then w.lead c key
          else w.setTask c { key := some key, role := .follows leader }
      | none => w.lead c key

/-- The `except` and `else` of a leader. -/
def tell (w : Loop ε) (c : Nat) (outcome : Outcome ε) : Loop ε :=
  if (w.futures c).done then w
  else
    let (memory, future) := told w.memory outcome
    { w with memory }.setFuture c future

/-- Its `finally`. -/
def leave (w : Loop ε) (c : Nat) (key : CacheKey) : Loop ε :=
  let w := if (w.futures c).done then w
    else w.setFuture c (.failed (.upstreamError "coalesced fetch failed".toList))
  if w.inflight.get? key = some c then { w with inflight := w.inflight.erase key } else w

def ends (w : Loop ε) (c : Nat) (t : Task ε) (how : Ended ε) : Loop ε :=
  let (memory, outcome) := handed w.memory how
  let w := { w with memory }.setTask c { t with ended := some how, outcome := some outcome }
  match t.role, t.key with
  | .leads, some key => (w.tell c outcome).leave c key
  | _, _ => w

/-- A follower goes on. -/
def resumes (w : Loop ε) (c : Nat) (t : Task ε) (leader : Nat) : Option (Loop ε) :=
  if t.cancelled then some (w.setTask c { t with outcome := some .cancelled })
  else
    match w.futures leader with
    | .waiting => none
    | .result a =>
        let (memory, dup) := detached w.memory a
        some ({ w with memory }.setTask c { t with outcome := some (.answer dup) })
    | .failed e => some (w.setTask c { t with outcome := some (.raised e) })

/-- Who holds a message: tasks that are through, and futures. -/
def holds (w : Loop ε) : Nat ⊕ Nat → Option Nat
  | .inl c => ((w.tasks c).bind Task.outcome).bind Outcome.object
  | .inr f => (w.futures f).object

end Loop

/-- The objects that a value refers to. -/
def pointers : (k : Kind) → k.Value → List Nat
  | .edns, e => [e.options]
  | .message, m => [m.questions, m.answers, m.authority, m.additional] ++ m.edns.toList
  | .questions, _ => []
  | .records, _ => []
  | .options, _ => []

inductive Event (ε : Type) where
  | arrives (c : Nat) (key : Option CacheKey)
  /-- The `_fetch` of a task that does not follow. -/
  | ends (c : Nat) (how : Ended ε)
  | cancels (c : Nat)
  | resumes (c : Nat)
  /-- A caller edits what it was handed: a list or a header, and its OPT as a whole. -/
  | writes (c : Nat) (k : Kind) (cell : Nat) (v : k.Value)
  | rewrites (c : Nat) (edns : Option Edns)

namespace Loop

/-- Nothing where it cannot happen. -/
def step (w : Loop ε) : Event ε → Option (Loop ε)
  | .arrives c key => if (w.tasks c).isNone then some (w.arrives c key) else none
  | .ends c how => do
      let t ← w.tasks c
      match t.role with
      | .follows _ => none
      | _ => if t.outcome.isNone then some (w.ends c t how) else none
  | .cancels c => do
      let t ← w.tasks c
      if t.outcome.isNone then some (w.setTask c { t with cancelled := true }) else none
  | .resumes c => do
      let t ← w.tasks c
      match t.role with
      | .follows leader => if t.outcome.isNone then w.resumes c t leader else none
      | _ => none
  | .writes c k cell v => do
      let r ← w.holds (.inl c)
      if cell ∈ reach w.memory r ∧ pointers k v = pointers k (w.memory.cell k cell) then
        some { w with memory := w.memory.set k cell v }
      else none
  | .rewrites c edns => do
      let r ← w.holds (.inl c)
      let (memory, edns) := buildEdns w.memory edns
      some { w with memory := memory.set .message r { memory.cell .message r with edns } }

end Loop

end Trench.Engine.Coalesce
