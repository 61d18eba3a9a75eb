import Mathlib
import Trench.Wire.Edns
import Trench.Wire.RdataCodec

set_option autoImplicit false

/- The DNS message, its reader and its writer. -/
namespace Trench.Wire

open Cursor (raiseIf)
open Reader

structure Question where
  name : Name
  rtype : RRType
  rclass : RRClass
  deriving DecidableEq

/-- The time to live may come from a zone file or a rewrite rule, so it is any number. -/
structure RR where
  name : Name
  rtype : RRType
  rclass : RRClass
  ttl : Int
  rdata : Rdata
  deriving DecidableEq

structure Message where
  id : UInt16 := 0
  flags : UInt16 := 0
  questions : List Question := []
  answers : List RR := []
  authority : List RR := []
  additional : List RR := []
  edns : Option Edns := none
  deriving DecidableEq

def headerLen : Nat := 12

/-- `Flags.TC`. -/
def flagTc : UInt16 := 0x0200

/-! ### Parse -/

def readQuestion : Read Question := do
  let name ← readName
  let rtype ← u16
  let rclass ← u16
  return ⟨name, rtype, rclass⟩

def readQuestions : Nat → Read (List Question)
  | 0 => pure []
  | n + 1 => do
      let question ← readQuestion
      let more ← readQuestions n
      return question :: more

/-- The fields of a record before its data. -/
structure RRHead where
  name : Name
  rtype : RRType
  rclass : RRClass
  ttl : UInt32
  rdlen : UInt16
  deriving DecidableEq

def readHead : Read RRHead := do
  let name ← readName
  let rtype ← u16
  let rclass ← u16
  let ttl ← u32
  let rdlen ← u16
  return ⟨name, rtype, rclass, ttl, rdlen⟩

/-- The data of an OPT record at the root, the only one of its message. -/
def readOpt (head : RRHead) (edns : Option Edns) : Read Edns := do
  let start ← tell
  raiseIf (edns.isSome = true ∨ head.name.labels ≠ []) .misplacedOpt
  let data ← read head.rdlen.toNat
  seek (start + head.rdlen.toNat)
  let (extRcode, version, flags) := parseOptTtl head.ttl
  return ⟨head.rclass, extRcode, version, flags, parseOptions data⟩

/-- The data of any other record, with the resync to its stated end. -/
def readBody (head : RRHead) : Read RR := do
  let start ← tell
  let rdata ← Rdata.parseRdata head.rtype head.rdlen.toNat
  seek (start + head.rdlen.toNat)
  return ⟨head.name, head.rtype, head.rclass, head.ttl.toNat, rdata⟩

/-- `_read_rrs`; `owner` tells whether OPT goes into the message's EDNS field. -/
def readRRs (owner : Bool) : Nat → Option Edns → Read (List RR × Option Edns)
  | 0, edns => pure ([], edns)
  | n + 1, edns => do
      let head ← readHead
      if head.rtype = RRType.opt ∧ owner then
        let opt ← readOpt head edns
        readRRs owner n (some opt)
      else
        let rr ← readBody head
        let (more, edns) ← readRRs owner n edns
        return (rr :: more, edns)

/-- The six header fields. -/
structure Header where
  id : UInt16
  flags : UInt16
  qd : UInt16
  an : UInt16
  ns : UInt16
  ar : UInt16

def readHeader : Read Header := do
  let id ← u16
  let flags ← u16
  let qd ← u16
  let an ← u16
  let ns ← u16
  let ar ← u16
  return ⟨id, flags, qd, an, ns, ar⟩

def readMessage : Read Message := do
  let header ← readHeader
  let questions ← readQuestions header.qd.toNat
  let (answers, _) ← readRRs false header.an.toNat none
  let (authority, _) ← readRRs false header.ns.toNat none
  let (additional, edns) ← readRRs true header.ar.toNat none
  return ⟨header.id, header.flags, questions, answers, authority, additional, edns⟩

def Message.parse (buf : Octets) : Except WireError Message :=
  if buf.length < headerLen then .error .shortHeader
  else match readMessage ⟨buf, 0⟩ with
    | .ok (m, _) => .ok m
    | .error e => .error e

/-! ### Serialize -/

def writeQuestion (compress : Bool) (w : Writer) (q : Question) : Writer :=
  ((w.writeName q.name compress).u16 q.rtype).u16 q.rclass

def writeRR (compress : Bool) (w : Writer) (rr : RR) : Except EmitError Writer := do
  let w := (((w.writeName rr.name compress).u16 rr.rtype).u16 rr.rclass).int32 rr.ttl
  let (lenpos, w) := w.reserveU16
  let bodyStart := w.tell
  let w ← rr.rdata.emit w
  return w.patchU16 lenpos (UInt16.ofNat (w.tell - bodyStart))

def writeRRs (compress : Bool) : Writer → List RR → Except EmitError Writer
  | w, [] => .ok w
  | w, rr :: rest => do
      let w ← writeRR compress w rr
      writeRRs compress w rest

def writeOpt (w : Writer) (edns : Edns) : Writer :=
  let w := (((w.u8 0).u16 RRType.opt).u16 edns.udpSize).u32
    (buildOptTtl edns.extRcode edns.version edns.flags)
  let (lenpos, w) := w.reserveU16
  let bodyStart := w.tell
  let w := emitOptions w edns.options
  w.patchU16 lenpos (UInt16.ofNat (w.tell - bodyStart))

namespace Message

/-- The additional records that are written beside the OPT of the EDNS field. -/
def plainAdditional (m : Message) : List RR :=
  if m.edns.isSome then m.additional.filter fun rr => rr.rtype ≠ RRType.opt else m.additional

def arcount (m : Message) : Nat := m.plainAdditional.length + (if m.edns.isSome then 1 else 0)

def writeHeader (m : Message) : Writer :=
  (((((Writer.empty.u16 m.id).u16 m.flags).u16 (UInt16.ofNat m.questions.length)).u16
    (UInt16.ofNat m.answers.length)).u16 (UInt16.ofNat m.authority.length)).u16
    (UInt16.ofNat m.arcount)

/-- `_encode`, leaving the final writer. -/
def write (m : Message) (compress : Bool) : Except EmitError Writer := do
  let w := m.questions.foldl (writeQuestion compress) m.writeHeader
  let w ← writeRRs compress w m.answers
  let w ← writeRRs compress w m.authority
  let w ← writeRRs compress w m.plainAdditional
  match m.edns with
  | none => return w
  | some edns => return writeOpt w edns

def encode (m : Message) (compress : Bool) : Except EmitError Octets := do
  let w ← m.write compress
  return w.buf

/-- `to_wire`: over the size limit only the question and a bare OPT are kept, then
only the question, then only the header. -/
def toWire (m : Message) (maxSize : Option Nat := none) (compress : Bool := true) :
    Except EmitError Octets := do
  let data ← m.encode compress
  match maxSize with
  | none => return data
  | some limit =>
      if data.length ≤ limit then return data
      else
        let bare := m.edns.map fun e => { e with options := [] }
        let data ← (⟨m.id, m.flags ||| flagTc, m.questions, [], [], [], bare⟩ : Message).encode compress
        if data.length ≤ limit then return data
        else
          let data ← (⟨m.id, m.flags ||| flagTc, m.questions, [], [], [], none⟩ : Message).encode
            compress
          if data.length ≤ limit then return data
          else (⟨m.id, m.flags ||| flagTc, [], [], [], [], none⟩ : Message).encode compress

end Message

end Trench.Wire
