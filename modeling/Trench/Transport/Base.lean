import Mathlib
import Trench.Engine.Pipeline

set_option autoImplicit false

/- From the octets of a query to the octets of its reply, and the framing on a stream. -/
namespace Trench.Transport

open Wire

inductive Proto where
  | udp
  | tcp
  | tls
  | https
  | quic
  | h3
  deriving DecidableEq

/-- `PADDED`. -/
def padded : List Proto := [.tls, .https, .quic, .h3]

def padBlock : Nat := 468

/-- What can come out of the pipeline or the serializer instead of a reply. -/
inductive ReplyError where
  | text (e : Rdata.TextError)
  | emit (e : EmitError)

def liftText {α : Type} : Except Rdata.TextError α → Except ReplyError α
  | .ok v => .ok v
  | .error e => .error (.text e)

def liftEmit {α : Type} : Except EmitError α → Except ReplyError α
  | .ok v => .ok v
  | .error e => .error (.emit e)

/-- `apply_padding`. -/
def applyPadding (response : Message) : Except EmitError Message := do
  let edns : Edns := response.edns.getD { udpSize := 1232 }
  let response := { response with edns := some edns }
  let base ← response.toWire
  return { response with edns := some (edns.setPadding padBlock base.length) }

/-- `not_a_query`. -/
def notAQuery (data : Octets) : Bool := 2 < data.length && data.getD 2 0 &&& 0x80 != 0

/-- `_formerr`: a header without sections. -/
def formerr (data : Octets) : Octets :=
  data.take 2 ++ octets16 (flagQr ||| UInt16.ofNat Engine.Rcode.formerr) ++ List.replicate 8 0

def formerrMsg (data : Octets) : Option Message :=
  if data.length < 2 ∨ notAQuery data = true then none
  else some (Message.setRcode { id := join16 (data.getD 0 0) (data.getD 1 0), flags := flagQr }
    Engine.Rcode.formerr)

/-- `pipeline.resolve` for one client. -/
abbrev Resolve := Message → Except Rdata.TextError Message

/-- `resolve_wire`; nothing where the packet gets no reply. -/
def resolveWire (resolve : Resolve) (proto : Proto) (data : Octets) :
    Except ReplyError (Option Message) :=
  if notAQuery data then .ok none
  else
    match Message.parse data with
    | .error _ => .ok (formerrMsg data)
    | .ok query => do
        let response ← liftText (resolve query)
        if proto ∈ padded ∧ query.edns.isSome = true then
          return some (← liftEmit (applyPadding response))
        else return some response

/-- `process_query` on a stream. -/
def processQuery (resolve : Resolve) (data : Octets) : Except ReplyError (Option Octets) :=
  if notAQuery data then .ok none
  else
    match Message.parse data with
    | .error _ => if 2 ≤ data.length then .ok (some (formerr data)) else .ok none
    | .ok query => do
        let response ← liftText (resolve query)
        let out ← liftEmit response.toWire
        return some out

/-- The responders of the stream transports; every other transport has none. -/
def respond (resolve : Resolve) (proto : Proto) (data : Octets) : Except ReplyError (List Octets) :=
  match proto with
  | .tcp =>
      if notAQuery data then .ok []
      else do
        let out ← processQuery resolve data
        return out.toList.filter fun out => out ≠ []
  | .tls => do
      match ← resolveWire resolve proto data with
      | none => return []
      | some resp => return [← liftEmit resp.toWire]
  | _ => .ok []

/-- `len(out).to_bytes(2, "big") + out`, which raises where two octets do not hold the length. -/
def frame (out : Octets) : Option Octets :=
  if out.length < 2 ^ 16 then some (octets16 (UInt16.ofNat out.length) ++ out) else none

/-- What `_answer` writes: the framed replies, or nothing where anything raised. -/
def answer (resolve : Resolve) (proto : Proto) (data : Octets) : Octets :=
  match respond resolve proto data with
  | .error _ => []
  | .ok outs => ((outs.mapM frame).map List.flatten).getD []

end Trench.Transport
