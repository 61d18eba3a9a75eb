import Mathlib
import Trench.Wire.Message

set_option autoImplicit false

/- The flags and codes of a message, and the skeleton of a response. -/
namespace Trench.Wire

/-! ### The flags word -/

def flagQr : UInt16 := 0x8000
def flagAa : UInt16 := 0x0400
def flagRd : UInt16 := 0x0100
def flagRa : UInt16 := 0x0080
def flagAd : UInt16 := 0x0020
def flagCd : UInt16 := 0x0010
def opcodeMask : UInt16 := 0x7800
def rcodeMask : UInt16 := 0x000F

/-- `DO_BIT`, in the flags of the OPT. -/
def doBit : UInt16 := 0x8000

namespace Edns

/-- The property `do`. -/
def dnssecOk (e : Edns) : Bool := e.flags &&& doBit != 0

def setDnssecOk (e : Edns) (on : Bool) : Edns :=
  { e with flags := if on then e.flags ||| doBit else e.flags &&& ~~~doBit }

end Edns

namespace Message

def has (m : Message) (mask : UInt16) : Bool := m.flags &&& mask != 0

def opcode (m : Message) : UInt16 := (m.flags &&& opcodeMask) >>> 11

/-- With the upper bits that the OPT holds. -/
def rcode (m : Message) : Nat :=
  let base := (m.flags &&& rcodeMask).toNat
  match m.edns with
  | some edns => edns.extRcode.toNat * 16 ||| base
  | none => base

def setFlag (m : Message) (mask : UInt16) (on : Bool := true) : Message :=
  { m with flags := if on then m.flags ||| mask else m.flags &&& ~~~mask }

def setRcode (m : Message) (rcode : Nat) : Message :=
  let flags := (m.flags &&& ~~~rcodeMask) ||| UInt16.ofNat (rcode % 16)
  if rcode > 0x0F then
    { m with flags, edns := some { m.edns.getD {} with extRcode := UInt8.ofNat (rcode / 16) } }
  else { m with flags, edns := m.edns.map fun e => { e with extRcode := 0 } }

def question (m : Message) : Option Question := m.questions.head?

def wantsDnssec (m : Message) : Bool := m.edns.any Edns.dnssecOk

def reply (m : Message) (rcode : Nat := 0) : Message :=
  let r : Message := { id := m.id, flags := flagQr ||| flagRa }
  let r := if m.has flagRd then r.setFlag flagRd else r
  let r := r.setFlag opcodeMask false
  let r := { r with
    flags := r.flags ||| m.opcode <<< 11
    questions := m.questions
    edns := m.edns.map fun e : Edns =>
      Edns.setDnssecOk { udpSize := e.udpSize } e.dnssecOk }
  r.setRcode rcode

@[simp] theorem setFlag_edns (m : Message) (mask : UInt16) (on : Bool) :
    (m.setFlag mask on).edns = m.edns := rfl

@[simp] theorem setFlag_questions (m : Message) (mask : UInt16) (on : Bool) :
    (m.setFlag mask on).questions = m.questions := rfl

@[simp] theorem setFlag_id (m : Message) (mask : UInt16) (on : Bool) :
    (m.setFlag mask on).id = m.id := rfl

@[simp] theorem setRcode_questions (m : Message) (rcode : Nat) :
    (m.setRcode rcode).questions = m.questions := by
  rw [setRcode]
  split <;> rfl

@[simp] theorem setRcode_id (m : Message) (rcode : Nat) : (m.setRcode rcode).id = m.id := by
  rw [setRcode]
  split <;> rfl

theorem has_setFlag (m : Message) {mask : UInt16} (on : Bool) (used : mask ≠ 0) :
    (m.setFlag mask on).has mask = on := by
  rw [has, setFlag]
  cases on with
  | true =>
      have kept : (m.flags ||| mask) &&& mask = mask := by
        apply UInt16.toBitVec_inj.mp
        ext i inside
        simp only [UInt16.toBitVec_and, UInt16.toBitVec_or, BitVec.getElem_and, BitVec.getElem_or]
        cases mask.toBitVec[i] <;> simp
      rw [if_pos rfl, kept]
      exact bne_iff_ne.mpr used
  | false =>
      have cleared : (m.flags &&& ~~~mask) &&& mask = 0 := by
        apply UInt16.toBitVec_inj.mp
        ext i inside
        simp
      rw [if_neg Bool.false_ne_true, cleared]
      rfl

theorem reply_questions (m : Message) (rcode : Nat) : (m.reply rcode).questions = m.questions := by
  rw [reply, setRcode_questions]

theorem reply_id (m : Message) (rcode : Nat) : (m.reply rcode).id = m.id := by
  rw [reply, setRcode_id]
  split <;> rfl

/-- A response starts without records. -/
theorem reply_plain (m : Message) (rcode : Nat) : (m.reply rcode).answers = [] ∧
    (m.reply rcode).authority = [] ∧ (m.reply rcode).additional = [] := by
  have blank (r : Message) (code : Nat) (none : r.answers = [] ∧ r.authority = [] ∧ r.additional = []) :
      (r.setRcode code).answers = [] ∧ (r.setRcode code).authority = [] ∧
        (r.setRcode code).additional = [] := by
    rw [setRcode]
    split
    · exact none
    · exact none
  apply blank
  split
  · exact ⟨rfl, rfl, rfl⟩
  · exact ⟨rfl, rfl, rfl⟩

theorem setRcode_options {m : Message} {rcode : Nat} {e : Edns}
    (opt : (m.setRcode rcode).edns = some e) : e.options = (m.edns.map Edns.options).getD [] := by
  rw [setRcode] at opt
  split at opt
  · cases opt
    cases m.edns <;> rfl
  · obtain ⟨old, held, rfl⟩ := Option.map_eq_some_iff.mp opt
    rw [held]
    rfl

/-- A response starts without options. -/
theorem reply_options {m : Message} {rcode : Nat} {e : Edns} (opt : (m.reply rcode).edns = some e) :
    e.options = [] := by
  rw [setRcode_options opt]
  cases m.edns <;> rfl

end Message

end Trench.Wire
