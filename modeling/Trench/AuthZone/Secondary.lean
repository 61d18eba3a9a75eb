import Mathlib
import Trench.AuthZone.TransferMessages
import Trench.AuthZone.TsigChain

set_option autoImplicit false

/- A secondary zone: what it accepts from its primary, and what it then serves. -/
namespace Trench.AuthZone

open Wire
open Rdata (TextError)

def maxXfrRecords : Nat := 2000000
def maxXfrBytes : Nat := 64 * 1024 * 1024
def maxXfrEnvelopes : Nat := 100000

/-- `build_xfr_query`. -/
def buildXfrQuery (origin : Name) (qtype : RRType) (clientSerial : Option Int) (msgid : UInt16) :
    Message :=
  let m : Message := { id := msgid, questions := [⟨origin, qtype, RRClass.in⟩] }
  match clientSerial with
  | some serial =>
      if qtype = RRType.ixfr then
        let soa : SoaData := ⟨Name.root, Name.root, serial, 0, 0, 0, 0⟩
        { m with authority := [⟨origin, RRType.soa, RRClass.in, 0, .soa soa⟩] }
      else m
  | none => m

/-- Why a refresh fails: what is raised on the way to a new zone. -/
inductive RefreshError where
  | emit (e : EmitError)
  | verify (e : VerifyError)
  | wire (e : WireError)
  | notOurs
  | otherQuestion
  | refused (rcode : Nat)
  | overLimits
  | dropped
  | empty
  | apply (e : ApplyError)
  deriving DecidableEq

def raised {ε α : Type} (wrap : ε → RefreshError) : Except ε α → Except RefreshError α
  | .ok v => .ok v
  | .error e => .error (wrap e)

/-- `_check_envelope`. -/
def checkEnvelope (msg : Message) (msgid : UInt16) (origin : Name) (qtype : RRType) :
    Except RefreshError Unit :=
  if !msg.has flagQr ∨ msg.id ≠ msgid then .error .notOurs
  else
    match msg.question with
    | none => .ok ()
    | some q => if !(q.name == origin) ∨ q.rtype ≠ qtype then .error .otherQuestion else .ok ()

/-- What the loop of `transfer_records` has so far. -/
structure Intake where
  records : List RR
  bytes : Nat
  envelopes : Nat
  requestMac : Option Octets

def Intake.exceeded (i : Intake) : Bool :=
  decide (i.records.length > maxXfrRecords ∨ i.bytes > maxXfrBytes ∨ i.envelopes > maxXfrEnvelopes)

/-- The records of a message, without a signature. -/
def carried (msg : Message) : List RR := msg.answers.filter fun rr => rr.rtype ≠ RRType.tsig

/-- The MAC that the next message is chained to, where the transfer is signed. -/
def Intake.verify (hmac : Hmac) (key : Option TsigKey) (i : Intake) (a : Arrival) :
    Except RefreshError (Option Octets) :=
  match key with
  | none => .ok i.requestMac
  | some key => some <$> raised .verify (verifyEnvelope hmac key i.requestMac (i.envelopes == 0) a)

/-- The body of the loop. -/
def Intake.take (hmac : Hmac) (key : Option TsigKey) (msgid : UInt16) (origin : Name)
    (qtype : RRType) (i : Intake) (a : Arrival) : Except RefreshError Intake := do
  let requestMac ← i.verify hmac key a
  let msg ← raised .wire (Message.parse a.wire)
  checkEnvelope msg msgid origin qtype
  if msg.rcode ≠ noError then throw (.refused msg.rcode)
  let records := i.records ++ carried msg
  if records = [] then throw .empty
  return ⟨records, i.bytes + a.wire.length, i.envelopes + 1, requestMac⟩

/-- The head of the loop: whether the records are complete, within the limits. -/
def Intake.done (i : Intake) : Except RefreshError Bool := do
  if ← raised (RefreshError.apply ∘ ApplyError.lookup) (ixfrComplete i.records) then return true
  else if i.exceeded then throw .overLimits
  else return false

/-- The loop of `transfer_records`. The list of arrivals ends where the primary drops the
connection, or falls silent, or the deadline passes. -/
def collect (hmac : Hmac) (key : Option TsigKey) (msgid : UInt16) (origin : Name) (qtype : RRType) :
    Intake → List Arrival → Except RefreshError (List RR)
  | i, [] => do
      if ← i.done then return i.records else throw .dropped
  | i, a :: rest => do
      if ← i.done then return i.records
      else
        let next ← i.take hmac key msgid origin qtype a
        collect hmac key msgid origin qtype next rest

/-- One exchange with the primary: the id drawn, the clock when the query is signed, and
the messages that come back. -/
structure Exchange where
  msgid : UInt16
  time : BitVec 48
  arrivals : List Arrival

/-- The MAC of the query, where it is signed. -/
def openingMac (hmac : Hmac) (key : Option TsigKey) (wire : Octets) (time : BitVec 48) :
    Except RefreshError (Option Octets) :=
  match key with
  | none => .ok none
  | some key => (some ∘ Prod.snd) <$> raised .verify (signWire hmac wire key none time)

/-- `transfer_records`. -/
def transferRecords (hmac : Hmac) (key : Option TsigKey) (origin : Name) (qtype : RRType)
    (clientSerial : Option Int) (x : Exchange) : Except RefreshError (List RR) := do
  let wire ← raised .emit (buildXfrQuery origin qtype clientSerial x.msgid).toWire
  let requestMac ← openingMac hmac key wire x.time
  collect hmac key x.msgid origin qtype ⟨[], 0, 0, requestMac⟩ x.arrivals

/-- `SecondaryZone`, without its timers. -/
structure Secondary where
  origin : Name
  key : Option TsigKey
  zone : Option Zone

/-- How a call of `refresh_once` ends. -/
inductive Outcome where
  | raised (e : LookupError)
  | failed (e : RefreshError)
  | refreshed (changed : Bool)
  deriving DecidableEq

namespace Secondary

def fresh (origin : Name) (key : Option TsigKey) : Secondary := ⟨origin, key, none⟩

def serial (s : Secondary) : Int :=
  match s.zone.bind Zone.soa with
  | some soa => soa.serial
  | none => 0

/-- The records that the primary hands over. -/
def stream (s : Secondary) (hmac : Hmac) (x : Exchange) : Except RefreshError (List RR) :=
  match s.zone with
  | some _ => transferRecords hmac s.key s.origin RRType.ixfr (some s.serial) x
  | none => transferRecords hmac s.key s.origin RRType.axfr none x

/-- The guarded part of `refresh_once`. -/
def pull (s : Secondary) (hmac : Hmac) (x : Exchange) : Except RefreshError Zone := do
  let records ← s.stream hmac x
  match s.zone with
  | some _ => raised .apply (applyIxfr s.zone records s.origin)
  | none => raised (RefreshError.apply ∘ ApplyError.lookup) (Zone.zoneFromRecords records s.origin)

def refreshOnce (s : Secondary) (hmac : Hmac) (x : Exchange) : Secondary × Outcome :=
  match s.pull hmac x with
  | .error e => (s, .failed e)
  | .ok new =>
      match s.zone with
      | none => ({ s with zone := some new }, .refreshed true)
      | some _ =>
          -- the comparison stands behind the guard
          match new.soa with
          | none => (s, .raised .attribute)
          | some soa => ({ s with zone := some new }, .refreshed (decide (soa.serial ≠ s.serial)))

end Secondary

end Trench.AuthZone
