import Mathlib
import Trench.Lib.Dict
import Trench.Wire.NameText
import Trench.Wire.RdataRoundTrip

set_option autoImplicit false

/- Verification of signed messages and the replay window. The keyed digest itself is
a parameter; everything fed into it is modelled. -/
namespace Trench.AuthZone

open Wire
open Wire.Name (labelOctets fromText lowerText)
open Cursor (Ensures)

theorem bind_eq_ok {ε α β : Type} {x : Except ε α} {f : α → Except ε β} {w : β} :
    x >>= f = .ok w ↔ ∃ v, x = .ok v ∧ f v = .ok w := by
  cases x with
  | error e => exact ⟨fun h => (by cases h), fun ⟨v, h, _⟩ => (by cases h)⟩
  | ok v => exact ⟨fun h => ⟨v, rfl, h⟩, fun ⟨_, h, rest⟩ => (by cases h; exact rest)⟩

/-- The hash constructors of `_ALGOS`. -/
inductive Hash where
  | sha256
  | sha512
  | sha384
  | sha224
  | sha1
  | md5
  deriving DecidableEq

/-- `_ALGOS`. -/
def algos : List (Text × Hash) :=
  [("hmac-sha256.".toList, .sha256), ("hmac-sha512.".toList, .sha512),
   ("hmac-sha384.".toList, .sha384), ("hmac-sha224.".toList, .sha224),
   ("hmac-sha1.".toList, .sha1), ("hmac-md5.sig-alg.reg.int.".toList, .md5)]

structure TsigKey where
  name : Text
  secret : Octets
  algorithm : Text
  deriving DecidableEq

/-- The messages of `TSIGError`. -/
inductive TsigFailure where
  | unknownAlgorithm (algorithm : Text)
  | noTsig
  | notFinal
  | unknownKey (owner : Text)
  | badMacLength
  | macFailed
  | reportsError (error : UInt16)
  | clockSkew
  | replayed
  | older
  deriving DecidableEq

/-- `TSIGError`; its response code is always NOTAUTH. -/
structure TsigError where
  failure : TsigFailure
  tsigError : Nat := 0
  key : Option TsigKey := none
  tsig : Option TsigData := none
  deriving DecidableEq

/-- What verification can raise; `struct.pack` refuses a request MAC too long to count. -/
inductive VerifyError where
  | wire (e : WireError)
  | tsig (e : TsigError)
  | pack
  deriving DecidableEq

def badSig : Nat := 16
def badKey : Nat := 17
def badTime : Nat := 18

/-- `hmac.new(secret, digestmod=hash)` over some octets. -/
abbrev Hmac := Hash → Octets → Octets → Octets

def liftWire {α : Type} : Except WireError α → Except VerifyError α
  | .ok v => .ok v
  | .error e => .error (.wire e)

def TsigKey.hashmod (key : TsigKey) : Except VerifyError Hash :=
  match algos.lookup (lowerText key.algorithm) with
  | some hash => .ok hash
  | none => .error (.tsig { failure := .unknownAlgorithm key.algorithm, tsigError := badKey })

/-- `_canon_name`: lowercase and uncompressed. -/
def canonName (name : Name) : Octets := labelOctets name.canonicalize.labels ++ [0]

/-- The 48-bit time as two packed fields. -/
def timeOctets (time : BitVec 48) : Octets :=
  octets16 (UInt16.ofNat (time.toNat / 2 ^ 32)) ++ octets32 (UInt32.ofNat (time.toNat % 2 ^ 32))

/-- The request's MAC, which a response is chained to. -/
def priorOctets : Option Octets → Except VerifyError Octets
  | none => .ok []
  | some mac =>
      if mac.length ≤ 65535 then .ok (octets16 (UInt16.ofNat mac.length) ++ mac) else .error .pack

/-- `_digest`: the MAC over the message and the TSIG variables. -/
def digest (hmac : Hmac) (key : TsigKey) (message : Octets) (algorithm : Name) (time : BitVec 48)
    (fudge error : UInt16) (other : Octets) (requestMac : Option Octets) (timersOnly : Bool) :
    Except VerifyError Octets := do
  let hash ← key.hashmod
  let prior ← priorOctets requestMac
  if timersOnly then
    .ok (hmac hash key.secret (prior ++ message ++ timeOctets time ++ octets16 fudge))
  else
    let keyName ← liftWire (fromText key.name)
    return hmac hash key.secret
      (prior ++ message ++ canonName keyName ++ octets16 RRClass.any ++ octets32 0 ++
        canonName algorithm ++ timeOctets time ++ octets16 fudge ++ octets16 error ++
        octets16 (UInt16.ofNat other.length) ++ other)

/-! ### Finding the record -/

/-- The header field at an even offset. -/
def headerField (wire : Octets) (i : Nat) : UInt16 := join16 (wire.getD i 0) (wire.getD (i + 1) 0)

/-- The last record walked over, and the last TSIG data met. -/
structure Located where
  final : Option (Nat × RRType × Name)
  data : Option TsigData

/-- The data of a TSIG record, kept over the records that follow it. -/
def locateData (rtype : RRType) (rdlen : UInt16) (data : Option TsigData) :
    Read (Option TsigData) :=
  if rtype = RRType.tsig then some <$> Rdata.parseTsig rdlen.toNat else pure data

/-- The loop of `_locate_tsig`: `left` entries remain, the first `questions` of
them are questions. -/
def locateLoop : Nat → Nat → Located → Read Located
  | 0, _, found => pure found
  | left + 1, questions, found => do
      let start ← Reader.tell
      let owner ← Reader.readName
      let rtype ← Reader.u16
      let _ ← Reader.u16
      match questions with
      | questions + 1 => locateLoop left questions found
      | 0 =>
          let _ ← Reader.u32
          let rdlen ← Reader.u16
          let rdStart ← Reader.tell
          let data ← locateData rtype rdlen found.data
          Reader.seek (rdStart + rdlen.toNat)
          locateLoop left 0 ⟨some (start, rtype, owner), data⟩

def locateTsig (wire : Octets) : Except VerifyError (Nat × TsigData × Name) :=
  if wire.length < 12 then .error (.wire .shortMessage)
  else if headerField wire 10 = 0 then .error (.tsig { failure := .noTsig })
  else
    let questions := (headerField wire 4).toNat
    let total := questions + (headerField wire 6).toNat + (headerField wire 8).toNat +
      (headerField wire 10).toNat
    match locateLoop total questions ⟨none, none⟩ ⟨wire, 12⟩ with
    | .error e => .error (.wire e)
    | .ok (⟨some (start, rtype, owner), some data⟩, _) =>
        if rtype = RRType.tsig then .ok (start, data, owner)
        else .error (.tsig { failure := .notFinal })
    | .ok _ => .error (.tsig { failure := .notFinal })

/-! ### The replay window -/

/-- Per key name, the latest time accepted and the MACs accepted with their times. -/
structure ReplayWindow where
  high : Dict Text Int
  seen : Dict Text (List (Int × Octets))
  maxKeys : Nat

namespace ReplayWindow

def fresh (maxKeys : Nat) : ReplayWindow := ⟨Dict.empty, Dict.empty, maxKeys⟩

/-- The second half of `check`, after the first has settled what is still remembered. -/
def enter (r : ReplayWindow) (keyName : Text) (time : Int) (mac : Octets) (window : Int)
    (seen : List (Int × Octets)) : Except TsigError ReplayWindow :=
  if (r.high.get? keyName).any fun high => time < high - window then
    .error { failure := .older, tsigError := badTime }
  else
    .ok { r with
      seen := r.seen.set keyName (seen ++ [(time, mac)])
      high := r.high.set keyName (max ((r.high.get? keyName).getD 0) time) }

def clear (r : ReplayWindow) : ReplayWindow := { r with high := Dict.empty, seen := Dict.empty }

/-- `check`; what it raises leaves the window as it was, since a cleared table has
no high-water mark to raise from. -/
def check (r : ReplayWindow) (keyName : Text) (time : Int) (mac : Octets) (window now : Int) :
    Except TsigError ReplayWindow :=
  match r.seen.get? keyName with
  | some seen =>
      let seen := seen.filter fun e => now - window ≤ e.1
      if seen.any fun e => e.2 == mac then .error { failure := .replayed, tsigError := badSig }
      else r.enter keyName time mac window seen
  | none =>
      let r := if r.maxKeys ≤ r.seen.size then r.clear else r
      r.enter keyName time mac window []

end ReplayWindow

/-! ### Verification -/

/-- The keyring lookup: the lowered owner text, or else the first configured name
that denotes the same owner. -/
def lookupKey (keyring : Dict Text TsigKey) (owner : Name) : Option TsigKey :=
  match keyring.get? (lowerText owner.toText) with
  | some key => some key
  | none =>
      (keyring.entries.find? fun cand =>
        match fromText cand.1 with
        | .ok name => lowerText name.toText == lowerText owner.toText
        | .error _ => false).map Prod.snd

/-- The message as it was signed: without the TSIG record, one additional record
fewer, and under the original id. -/
def unsigned (wire : Octets) (start : Nat) (originalId : UInt16) : Octets :=
  octets16 originalId ++ (wire.take 10).drop 2 ++ octets16 (headerField wire 10 - 1) ++
    (wire.take start).drop 12

/-- What a signed message presents, once its key is known. -/
structure Presentation where
  keyName : Text
  key : TsigKey
  message : Octets
  tsig : TsigData
  deriving DecidableEq

/-- The part of `verify_wire` before the MAC. -/
def identify (keyring : Dict Text TsigKey) (wire : Octets) : Except VerifyError Presentation := do
  let (start, tsig, owner) ← locateTsig wire
  let unknown : VerifyError :=
    .tsig { failure := .unknownKey owner.toText, tsigError := badKey }
  match lookupKey keyring owner with
  | none => .error unknown
  | some key =>
      let algorithm ← liftWire (fromText key.algorithm)
      if algorithm == tsig.algorithm then
        return ⟨lowerText owner.toText, key, unsigned wire start tsig.originalId, tsig⟩
      else .error unknown

/-- The test of a MAC that may be cut down to half its length, or to ten octets. -/
def checkMac (p : Presentation) (expected : Octets) : Except VerifyError Unit :=
  let got := p.tsig.mac
  if expected.length < got.length ∨ got.length < max 10 (expected.length / 2) then
    .error (.tsig { failure := .badMacLength, tsigError := badSig })
  else if expected.take got.length ≠ got then
    .error (.tsig ⟨.macFailed, badSig, some p.key, some p.tsig⟩)
  else if p.tsig.error ≠ 0 then
    .error (.tsig ⟨.reportsError p.tsig.error, badSig, some p.key, some p.tsig⟩)
  else .ok ()

/-- The narrower of the sender's fudge and the verifier's own limit. -/
def windowOf (p : Presentation) (fudgeMax : Int) : Int := min (p.tsig.fudge.toNat : Int) fudgeMax

/-- `verify_wire`, with the replay window as it leaves it. -/
def verifyWire (hmac : Hmac) (keyring : Dict Text TsigKey) (wire : Octets)
    (requestMac : Option Octets) (now fudgeMax : Int) (replay : Option ReplayWindow)
    (timersOnly : Bool) :
    Except VerifyError ((Octets × TsigKey × TsigData) × Option ReplayWindow) := do
  let p ← identify keyring wire
  let expected ← digest hmac p.key p.message p.tsig.algorithm p.tsig.timeSigned p.tsig.fudge
    p.tsig.error p.tsig.other requestMac timersOnly
  checkMac p expected
  let time : Int := p.tsig.timeSigned.toNat
  let window := windowOf p fudgeMax
  if window < |now - time| then
    .error (.tsig ⟨.clockSkew, badTime, some p.key, some p.tsig⟩)
  else
    match replay with
    | none => return ((p.tsig.mac, p.key, p.tsig), none)
    | some r =>
        match r.check p.keyName time p.tsig.mac window now with
        | .error e => .error (.tsig e)
        | .ok r => return ((p.tsig.mac, p.key, p.tsig), some r)

end Trench.AuthZone
