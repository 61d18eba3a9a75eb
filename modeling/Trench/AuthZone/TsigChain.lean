import Mathlib
import Trench.AuthZone.TsigReplay

set_option autoImplicit false

/- Signing, and the chain of signatures over the messages of a transfer. -/
namespace Trench.AuthZone

open Wire
open Wire.Name (labelOctets fromText lowerText)

def defaultFudge : UInt16 := 300

/-! ### Signing -/

/-- `_append_tsig_rr`; a message without a header has no count to raise. -/
def appendTsigRr (message : Octets) (key : TsigKey) (tsig : TsigData) :
    Except VerifyError Octets := do
  if message.length < 12 then throw .pack
  let owner ← liftWire (fromText key.name)
  let w := Writer.empty.raw (labelOctets owner.labels ++ [0])
  let w := ((w.u16 RRType.tsig).u16 RRClass.any).u32 0
  let (lenpos, w) := w.reserveU16
  let bodyStart := w.tell
  let w := Rdata.emitTsig tsig w
  let w := w.patchU16 lenpos (UInt16.ofNat (w.tell - bodyStart))
  return message.take 10 ++ octets16 (headerField message 10 + 1) ++ message.drop 12 ++ w.buf

/-- `sign_wire`: the signed message, and its MAC. -/
def signWire (hmac : Hmac) (message : Octets) (key : TsigKey) (requestMac : Option Octets)
    (time : BitVec 48) (fudge : UInt16 := defaultFudge) (originalId : Option UInt16 := none)
    (error : UInt16 := 0) (other : Octets := []) (timersOnly : Bool := false) :
    Except VerifyError (Octets × Octets) := do
  if originalId.isNone ∧ message.length < 2 then throw .pack
  let algorithm ← liftWire (fromText key.algorithm)
  let mac ← digest hmac key message algorithm time fudge error other requestMac timersOnly
  let signed ← appendTsigRr message key
    ⟨algorithm, time, fudge, mac, originalId.getD (headerField message 0), error, other⟩
  return (signed, mac)

/-- One message that is sent, and the clock when it is signed. -/
structure Departure where
  message : Octets
  time : BitVec 48

/-- The signing loop of `handle_transfer`: each message is chained to the MAC before
it, and all but the first digest only the timers. -/
def signChain (hmac : Hmac) (key : TsigKey) : Option Octets → Bool → List Departure →
    Except VerifyError (List (Octets × Octets))
  | _, _, [] => return []
  | prevMac, timersOnly, d :: rest => do
      let (wire, mac) ← signWire hmac d.message key prevMac d.time defaultFudge none 0 [] timersOnly
      let more ← signChain hmac key (some mac) true rest
      return (wire, mac) :: more

/-! ### Verifying -/

/-- One message that arrives; the clock is read again where it is verified again. -/
structure Arrival where
  wire : Octets
  now : Int
  later : Int

/-- `_verify_envelope`: after the first message only the timers are digested, or by
earlier signers the full variables. -/
def verifyEnvelope (hmac : Hmac) (key : TsigKey) (prevMac : Option Octets) (first : Bool)
    (a : Arrival) : Except VerifyError Octets := do
  let ring : Dict Text TsigKey := Dict.empty.set key.name key
  let verify (now : Int) (timersOnly : Bool) := do
    let ((mac, _), _) ← verifyWire hmac ring a.wire prevMac now defaultFudge.toNat none timersOnly
    return mac
  if first then verify a.now false
  else
    match verify a.now true with
    | .error (.tsig _) => verify a.later false
    | outcome => outcome

/-- The envelopes of a transfer verified in order. -/
def verifyChain (hmac : Hmac) (key : TsigKey) : Option Octets → Bool → List Arrival →
    Except VerifyError (List Octets)
  | _, _, [] => return []
  | prevMac, first, a :: rest => do
      let mac ← verifyEnvelope hmac key prevMac first a
      let more ← verifyChain hmac key (some mac) false rest
      return mac :: more

end Trench.AuthZone
