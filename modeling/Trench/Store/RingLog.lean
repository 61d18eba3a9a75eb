import Mathlib
import Trench.Lib.Memory
import Trench.Lib.Machine
import Trench.Wire.Name

set_option autoImplicit false

/- The ring that hands records of the workers to the one that writes them. -/
namespace Trench.Store.RingLog

open Wire

/-- A column of a row: a string, or anything else that JSON has. -/
inductive Column (β : Type) where
  | text (s : Text)
  | other (v : β)

/-- `json.dumps` and `json.loads` of rows; what is written is read. -/
structure Json (β ρ : Type) where
  dumps : List (Column β) → Option Octets
  loads : Octets → Option ρ
  loads_dumps : ∀ row payload, dumps row = some payload → (loads payload).isSome = true

/-- How the memory is laid out; `own` is the lane of the process that drains. -/
structure Layout where
  lanes : Nat
  slots : Nat
  slotBytes : Nat
  own : Nat

/-- `_LANE_HDR.size`. -/
def headerSize : Nat := 24

/-- `_LEN.size`. -/
def lenSize : Nat := 2

namespace Layout

def laneSize (g : Layout) : Nat := headerSize + g.slots * g.slotBytes

/-- `_lane_off`. -/
def laneOff (g : Layout) (lane : Nat) : Nat := lane * g.laneSize

/-- `_slot_off`. -/
def slotOff (g : Layout) (lane index : Nat) : Nat :=
  g.laneOff lane + headerSize + index % g.slots * g.slotBytes

end Layout

/-- Head, tail, dropped. -/
structure Header where
  head : Nat
  tail : Nat
  dropped : Nat
  deriving DecidableEq

/-- `_LANE_HDR.unpack_from`. -/
def header (mem : Memory) (off : Nat) : Header :=
  ⟨Memory.valueOf (mem.read off 8), Memory.valueOf (mem.read (off + 8) 8), Memory.valueOf (mem.read (off + 16) 8)⟩

/-- `_LANE_HDR.pack_into`, which raises where a number has more than eight octets. -/
def packHeader (mem : Memory) (off : Nat) (h : Header) : Option Memory :=
  if h.head < 2 ^ 64 ∧ h.tail < 2 ^ 64 ∧ h.dropped < 2 ^ 64 then
    some (mem.write off (Memory.octetsOf 8 h.head ++ Memory.octetsOf 8 h.tail ++ Memory.octetsOf 8 h.dropped))
  else none

variable {β ρ : Type}

/-- `_shrink`, before its length is checked: without the answers. -/
def shrunk (row : List (Column β)) : List (Column β) := row.map fun
  | .text s => if s.head? = some '[' then .text ['[', ']'] else .text s
  | .other v => .other v

/-- What is to be published of a row; nothing where it cannot be. -/
def payloadOf (j : Json β ρ) (g : Layout) (row : List (Column β)) : Option Octets := do
  let payload ← j.dumps row
  if payload.length + lenSize ≤ g.slotBytes then some payload
  else
    let payload ← j.dumps (shrunk row)
    if payload.length + lenSize ≤ g.slotBytes then some payload else none

/-- A length, and as many octets. -/
def writeFrame (mem : Memory) (slot : Nat) (payload : Octets) : Memory :=
  (mem.write slot (Memory.octetsOf lenSize payload.length)).write (slot + lenSize) payload

def readFrame (mem : Memory) (slot : Nat) : Octets :=
  mem.read (slot + lenSize) (Memory.valueOf (mem.read slot lenSize))

/-- The critical section of `push`: true with the memory where the row is published. -/
def publish (g : Layout) (lane : Nat) (payload : Octets) (mem : Memory) : Bool × Memory :=
  let off := g.laneOff lane
  let h := header mem off
  if h.tail + g.slots ≤ h.head then
    (false, (packHeader mem off { h with dropped := h.dropped + 1 }).getD mem)
  else if 2 ^ 16 ≤ payload.length then (false, mem)
  else
    let mem := writeFrame mem (g.slotOff lane h.head) payload
    match packHeader mem off { h with head := h.head + 1 } with
    | none => (false, mem)
    | some mem => (true, mem)

/-- A `drain` on its way. -/
structure Drain (ρ : Type) where
  limit : Nat
  lane : Nat := 0
  rows : List ρ := []

/-- The memory, the drain that is going on, and what has been: the payloads accepted in each lane,
the rows drained from it, and the drains that have returned. -/
structure Ring (ρ : Type) where
  mem : Memory := Memory.blank
  draining : Option (Drain ρ) := none
  accepted : Nat → List Octets := fun _ => []
  drained : Nat → List ρ := fun _ => []
  returned : List (Drain ρ) := []

/-- The next row of a lane, with the memory behind the critical section; nothing where there is none. -/
def take (g : Layout) (lane : Nat) (mem : Memory) : Option (Octets × Memory) :=
  let off := g.laneOff lane
  let h := header mem off
  if h.head ≤ h.tail then none
  else
    let raw := readFrame mem (g.slotOff lane h.tail)
    some (raw, (packHeader mem off { h with tail := h.tail + 1 }).getD mem)

inductive Event (β : Type) where
  /-- The writer of a lane pushes a row; `held` is whether it got the lock. -/
  | pushes (lane : Nat) (row : List (Column β)) (held : Bool)
  | drains (limit : Nat)
  /-- The drain goes on to its next critical section, with the lock or without. -/
  | goesOn (held : Bool)

namespace Ring

variable (j : Json β ρ) (g : Layout)

def push (r : Ring ρ) (lane : Nat) (row : List (Column β)) (held : Bool) : Ring ρ :=
  match payloadOf j g row with
  | none => r
  | some payload =>
      if held = false then r
      else
        let (published, mem) := publish g lane payload r.mem
        { r with
          mem
          accepted := if published then Function.update r.accepted lane (r.accepted lane ++ [payload])
            else r.accepted }

/-- One turn of the loops of `drain` and `_drain_lane`. -/
def goOn (r : Ring ρ) (d : Drain ρ) (held : Bool) : Ring ρ :=
  if g.lanes ≤ d.lane then { r with draining := none, returned := d :: r.returned }
  else if d.lane = g.own ∧ 1 < g.lanes then { r with draining := some { d with lane := d.lane + 1 } }
  else if d.limit ≤ d.rows.length then { r with draining := none, returned := d :: r.returned }
  else if held = false then { r with draining := some { d with lane := d.lane + 1 } }
  else
    match take g d.lane r.mem with
    | none => { r with draining := some { d with lane := d.lane + 1 } }
    | some (raw, mem) =>
        match j.loads raw with
        | none => { r with mem }
        | some row =>
            { r with
              mem
              draining := some { d with rows := d.rows ++ [row] }
              drained := Function.update r.drained d.lane (r.drained d.lane ++ [row]) }

/-- Nothing where it cannot happen. -/
def step (r : Ring ρ) : Event β → Option (Ring ρ)
  | .pushes lane row held => if lane < g.lanes then some (r.push j g lane row held) else none
  | .drains limit => if r.draining.isNone then some { r with draining := some { limit } } else none
  | .goesOn held => r.draining.map fun d => r.goOn j g d held

/-- In every lane, the rows drained are the payloads accepted first, each once and in their order, and
there are as many more as the lane has slots at most; no drain returns more rows than it may. -/
structure Faithful (r : Ring ρ) : Prop where
  drained : ∀ lane, lane < g.lanes → (r.drained lane).length ≤ (r.accepted lane).length ∧
    (r.drained lane).map some = ((r.accepted lane).take (r.drained lane).length).map j.loads
  within : ∀ lane, lane < g.lanes → (header r.mem (g.laneOff lane)).tail ≤ (header r.mem (g.laneOff lane)).head ∧
    (header r.mem (g.laneOff lane)).head ≤ (header r.mem (g.laneOff lane)).tail + g.slots
  limited : ∀ d ∈ r.returned, d.rows.length ≤ d.limit

/-- A slot that is not drained yet is left as it is. -/
def Undisturbed (r : Ring ρ) (r' : Ring ρ) : Prop :=
  ∀ lane index, lane < g.lanes → (header r.mem (g.laneOff lane)).tail ≤ index →
    index < (header r.mem (g.laneOff lane)).head →
      r'.mem.read (g.slotOff lane index) g.slotBytes = r.mem.read (g.slotOff lane index) g.slotBytes

end Ring

end Trench.Store.RingLog
