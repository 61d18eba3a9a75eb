import Mathlib
import Trench.Wire.Reply
import Trench.AuthZone.Transfer
import Trench.AuthZone.Update

set_option autoImplicit false

/- The messages of a transfer, whole or incremental, and what a secondary makes of
the records in them. -/
namespace Trench.AuthZone

open Wire
open Rdata (TextError)

def rrsPerMsg : Nat := 100
def maxMsgBytes : Nat := 60000

/-- Serial numbers compare around the circle of 2^32. -/
def serialGt (a b : Int) : Bool :=
  if a = b then false else decide ((a < b ∧ b - a > 2 ^ 31) ∨ (a > b ∧ a - b < 2 ^ 31))

/-! ### Messages -/

/-- The response that carries one batch. -/
def envelope (query : Message) (batch : List RR) : Message :=
  { query.reply.setFlag flagAa with answers := batch }

/-- One batch as one message, or halved until it fits; a batch is never empty. -/
def flush (query : Message) (batch : List RR) : Except EmitError (List Message) :=
  if batch.length ≤ 1 then return [envelope query batch]
  else do
    let wire ← (envelope query batch).toWire
    if wire.length ≤ maxMsgBytes then return [envelope query batch]
    else
      let front ← flush query (batch.take (batch.length / 2))
      let back ← flush query (batch.drop (batch.length / 2))
      return front ++ back
termination_by batch.length
decreasing_by
  · rw [List.length_take]
    omega
  · rw [List.length_drop]
    omega

/-- The loop of `_chunk_into_messages`, with the batch under way. -/
def chunkFrom (query : Message) : List RR → List RR → Except EmitError (List Message)
  | batch, [] => if batch = [] then return [] else flush query batch
  | batch, rr :: rest => do
      if (batch ++ [rr]).length < rrsPerMsg then chunkFrom query (batch ++ [rr]) rest
      else
        let full ← flush query (batch ++ [rr])
        let more ← chunkFrom query [] rest
        return full ++ more

def chunkIntoMessages (query : Message) (records : List RR) : Except EmitError (List Message) :=
  if records = [] then return [query.reply] else chunkFrom query [] records

namespace Zone

/-- `_soa_serial_rr`. -/
def soaSerialRecord (z : Zone) (soa : SoaData) (serial : Int) : RR :=
  ⟨z.origin, RRType.soa, RRClass.in, z.ttlOf z.origin RRType.soa, .soa { soa with serial }⟩

/-- The journal from the client's serial on, where it reaches back that far. -/
def journalDelta (z : Zone) (clientSerial : Int) : Option (List JournalStep) :=
  match z.journal.dropWhile fun step => step.fromSerial ≠ clientSerial with
  | [] => none
  | delta => some delta

/-- The records of one step of a delta. -/
def stepRecords (z : Zone) (soa : SoaData) (step : JournalStep) : List RR :=
  z.soaSerialRecord soa step.fromSerial :: step.delete ++
    z.soaSerialRecord soa step.toSerial :: step.add

/-- `_ixfr_records`. -/
def ixfrRecords (z : Zone) (soa : SoaData) (delta : List JournalStep) : List RR :=
  let marker := z.soaSerialRecord soa soa.serial
  marker :: delta.flatMap (z.stepRecords soa) ++ [marker]

def axfrMessages (z : Zone) (query : Message) : Option (Except EmitError (List Message)) :=
  z.axfrRecords.map (chunkIntoMessages query)

/-- A zone without an apex SOA is never asked for messages. -/
def ixfrMessages (z : Zone) (query : Message) (clientSerial : Int) :
    Option (Except EmitError (List Message)) := do
  let soa ← z.soa
  if !serialGt soa.serial clientSerial then
    -- the client is up to date
    return .ok [envelope query [z.soaSerialRecord soa soa.serial]]
  else
    -- the journal of a signed zone lacks what signing again changed
    match if z.signed then none else z.journalDelta clientSerial with
    | none => z.axfrMessages query
    | some delta => return chunkIntoMessages query (z.ixfrRecords soa delta)

end Zone

/-! ### Completion -/

/-- The attribute `serial` of a record's data. -/
def serialOf (rr : RR) : Except LookupError Int :=
  match rr.rdata with
  | .soa data => .ok data.serial
  | _ => .error .attribute

/-- How many SOA records have the serial. -/
def countSerial (serial : Int) : List RR → Except LookupError Nat
  | [] => return 0
  | rr :: rest =>
      if rr.rtype = RRType.soa then do
        let here ← serialOf rr
        let more ← countSerial serial rest
        return if here = serial then more + 1 else more
      else countSerial serial rest

/-- Whether the records make up a whole response. -/
def ixfrComplete (records : List RR) : Except LookupError Bool :=
  match records with
  | [] => return false
  | head :: rest =>
      if head.rtype ≠ RRType.soa then return false
      else do
        let first ← serialOf head
        let nFirst ← countSerial first records
        match rest with
        | [] => return true
        | second :: _ =>
            if records.getLast?.any fun rr => rr.rtype ≠ RRType.soa then return false
            else if second.rtype = RRType.soa then do
              let serial ← serialOf second
              return decide ((if serial ≠ first then 3 else 2) ≤ nFirst)
            else return decide (2 ≤ nFirst)

/-! ### What a secondary makes of the records -/

/-- Why a response is not applied. -/
inductive ApplyError where
  | lookup (e : LookupError)
  | text (e : TextError)
  | noLeadingSoa
  | nothingHeld
  | deltaForNothing
  | truncatedDelta
  | soaRemoved
  deriving DecidableEq

def liftLookup {α : Type} : Except LookupError α → Except ApplyError α
  | .ok v => .ok v
  | .error e => .error (.lookup e)

def liftText {α : Type} : Except TextError α → Except ApplyError α
  | .ok v => .ok v
  | .error e => .error (.text e)

namespace Zone

/-- `_remove_rr`. -/
def removeRr (z : Zone) (rr : RR) : Except TextError Zone :=
  match z.records.get? rr.name with
  | none => .ok z
  | some node =>
      match node.get? rr.rtype with
      | none => .ok z
      | some rds => do
          let text ← rr.rdata.toText
          let keep ← keepOthers (.ok text) rds
          return if keep = [] then z.putNode rr.name (node.erase rr.rtype)
            else { z with records := z.records.set rr.name (node.set rr.rtype keep) }

/-- The steps of a delta, from inside a section of deletions or of additions; the SOA
that ends the additions closes the delta or opens the next deletions. -/
def applySteps (serial : Int) : Bool → Zone → List RR → Except ApplyError Zone
  | true, _, [] => .error .truncatedDelta
  | false, z, [] => .ok z
  | true, z, rr :: rest =>
      if rr.rtype = RRType.soa then applySteps serial false z rest
      else do
        let z ← liftText (z.removeRr rr)
        applySteps serial true z rest
  | false, z, rr :: rest =>
      if rr.rtype = RRType.soa then do
        let here ← liftLookup (serialOf rr)
        if here = serial then return z else applySteps serial true z rest
      else applySteps serial false (z.add rr.name rr.rtype rr.rdata rr.ttl) rest

/-- The delta part of `apply_ixfr`, on a copy of the zone held. -/
def applyDelta (z : Zone) (serial : Int) (steps : List RR) : Except ApplyError Zone := do
  let z ← z.applySteps serial false steps
  if z.soa.isNone then .error .soaRemoved
  else return z.setSerial serial

end Zone

/-- Whether a second record opens a delta, being an SOA of another serial. -/
def opensDelta (head second : RR) : Except LookupError Bool :=
  if second.rtype ≠ RRType.soa then return false
  else do
    let here ← serialOf second
    let first ← serialOf head
    return decide (here ≠ first)

/-- `apply_ixfr`. -/
def applyIxfr (current : Option Zone) (records : List RR) (origin : Name) : Except ApplyError Zone :=
  match records with
  | [] => .error .noLeadingSoa
  | head :: rest =>
      if head.rtype ≠ RRType.soa then .error .noLeadingSoa
      else
        match rest with
        | [] =>
            match current with
            | none => .error .nothingHeld
            | some z => .ok z
        | second :: _ => do
            let delta ← liftLookup (opensDelta head second)
            if !delta then liftLookup (Zone.zoneFromRecords records origin)
            else
              match current with
              | none => .error .deltaForNothing
              | some z => do
                  let serial ← liftLookup (serialOf head)
                  z.applyDelta serial rest

end Trench.AuthZone
