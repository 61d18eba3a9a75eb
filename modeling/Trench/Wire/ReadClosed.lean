import Trench.Wire.RdataCodec

set_option autoImplicit false

/- What holds of the reader's own operations, and of one after the other, holds of every codec. -/
namespace Trench.Wire

open Cursor (raiseIf)
open Reader

/-- A property of reads that the operations of a reader have and that sequences keep. -/
structure Closed (P : ∀ {α : Type}, Read α → Prop) : Prop where
  pure : ∀ {α : Type} (v : α), P (Pure.pure v : Read α)
  throw : ∀ {α : Type} (e : WireError), P (MonadExcept.throw e : Read α)
  bind : ∀ {α β : Type} {p : Read α} {f : α → Read β}, P p → (∀ v, P (f v)) → P (p >>= f)
  tell : P tell
  u8 : P u8
  u16 : P u16
  u32 : P u32
  read : ∀ n, P (read n)
  seek : ∀ pos, P (seek pos)
  label : ∀ n positive bound, P (readLabel n positive bound)

namespace Closed

variable {P : ∀ {α : Type}, Read α → Prop} (closed : Closed P)

include closed

theorem raiseIf {condition : Prop} [Decidable condition] (e : WireError) : P (Cursor.raiseIf condition e : Read Unit) := by
  by_cases fine : condition
  · rw [Cursor.raiseIf, if_pos fine]
    exact closed.throw e
  · rw [Cursor.raiseIf, if_neg fine]
    exact closed.pure ()

theorem labels (fuel : Nat) (labels : List Label) (hops total : Nat) (resume : Option Nat) :
    P (readLabels fuel labels hops total resume) := by
  induction fuel generalizing labels hops total resume with
  | zero => exact closed.throw _
  | succ fuel ih =>
      rw [readLabels]
      refine closed.bind closed.u8 fun length => ?_
      split
      · cases resume with
        | none => exact closed.bind (closed.pure _) fun _ => closed.pure _
        | some pos => exact closed.bind (closed.seek pos) fun _ => closed.pure _
      · split
        · exact closed.bind (closed.label _ _ _) fun label => closed.bind (closed.raiseIf _) fun _ => ih _ _ _ _
        · split
          · exact closed.bind (closed.raiseIf _) fun _ => closed.bind closed.u8 fun low =>
              closed.bind closed.tell fun here => closed.bind (closed.raiseIf _) fun _ =>
              closed.bind (closed.seek _) fun _ => ih _ _ _ _
          · exact closed.throw _

theorem name : P readName := closed.labels _ _ _ _ _

theorem readTo (stop : Nat) : P (Rdata.readTo stop) := closed.bind closed.tell fun _ => closed.read _

theorem counted : P Rdata.readCounted := closed.bind closed.u8 fun _ => closed.read _

theorem counted16 : P Rdata.readCounted16 := closed.bind closed.u16 fun _ => closed.read _

theorem strings (fuel stop : Nat) (out : List Octets) : P (Rdata.readStrings fuel stop out) := by
  induction fuel generalizing out with
  | zero => exact closed.pure _
  | succ fuel ih =>
      rw [Rdata.readStrings]
      refine closed.bind closed.tell fun here => ?_
      split
      · exact closed.bind closed.counted fun s => ih _
      · exact closed.pure _

/-- Every codec has the property. -/
theorem dispatch : ∀ entry ∈ Rdata.registry, ∀ rdlen, P (entry.2 rdlen) := by
  have name (make : Name → Rdata) (rdlen : Nat) : P (Rdata.parseName make rdlen) :=
    closed.bind closed.name fun _ => closed.pure _
  have txt (make : List Octets → Rdata) (rdlen : Nat) : P (Rdata.parseTxt make rdlen) :=
    closed.bind closed.tell fun _ => closed.bind (closed.strings _ _ _) fun _ => closed.pure _
  have ds (make : DsData → Rdata) (rdlen : Nat) : P (Rdata.parseDs make rdlen) :=
    closed.bind closed.u16 fun _ => closed.bind closed.u8 fun _ => closed.bind closed.u8 fun _ =>
      closed.bind (closed.read _) fun _ => closed.pure _
  have dnskey (make : DnskeyData → Rdata) (rdlen : Nat) : P (Rdata.parseDnskey make rdlen) :=
    closed.bind closed.u16 fun _ => closed.bind closed.u8 fun _ => closed.bind closed.u8 fun _ =>
      closed.bind (closed.read _) fun _ => closed.pure _
  have svcb (make : SvcbData → Rdata) (rdlen : Nat) : P (Rdata.parseSvcb make rdlen) :=
    closed.bind closed.tell fun _ => closed.bind closed.u16 fun _ => closed.bind closed.name fun _ =>
      closed.bind (closed.readTo _) fun _ => closed.pure _
  simp only [Rdata.registry, List.forall_mem_cons]
  refine ⟨fun _ => ?a, fun _ => ?aaaa, name _, name _, name _, name _, fun _ => ?soa, fun _ => ?mx, fun _ => ?srv,
    txt _, txt _, fun _ => ?hinfo, fun _ => ?caa, fun _ => ?sshfp, fun _ => ?tlsa, ds _, ds _, dnskey _, dnskey _,
    fun _ => ?rrsig, fun _ => ?nsec, fun _ => ?nsec3, fun _ => ?nsec3param, fun _ => ?naptr, fun _ => ?uri,
    svcb _, svcb _, fun _ => ?tsig, fun _ held => absurd held List.not_mem_nil⟩
  case a =>
    exact closed.bind (closed.raiseIf _) fun _ => closed.bind (closed.read _) fun _ => closed.pure _
  case aaaa =>
    exact closed.bind (closed.raiseIf _) fun _ => closed.bind (closed.read _) fun _ => closed.pure _
  case soa =>
    exact closed.bind closed.name fun _ => closed.bind closed.name fun _ => closed.bind closed.u32 fun _ =>
      closed.bind closed.u32 fun _ => closed.bind closed.u32 fun _ => closed.bind closed.u32 fun _ =>
      closed.bind closed.u32 fun _ => closed.pure _
  case mx => exact closed.bind closed.u16 fun _ => closed.bind closed.name fun _ => closed.pure _
  case srv =>
    exact closed.bind closed.u16 fun _ => closed.bind closed.u16 fun _ => closed.bind closed.u16 fun _ =>
      closed.bind closed.name fun _ => closed.pure _
  case hinfo => exact closed.bind closed.counted fun _ => closed.bind closed.counted fun _ => closed.pure _
  case caa =>
    exact closed.bind closed.tell fun _ => closed.bind closed.u8 fun _ => closed.bind closed.counted fun _ =>
      closed.bind (closed.readTo _) fun _ => closed.pure _
  case sshfp =>
    exact closed.bind closed.u8 fun _ => closed.bind closed.u8 fun _ => closed.bind (closed.read _) fun _ =>
      closed.pure _
  case tlsa =>
    exact closed.bind closed.u8 fun _ => closed.bind closed.u8 fun _ => closed.bind closed.u8 fun _ =>
      closed.bind (closed.read _) fun _ => closed.pure _
  case rrsig =>
    exact closed.bind closed.tell fun _ => closed.bind closed.u16 fun _ => closed.bind closed.u8 fun _ =>
      closed.bind closed.u8 fun _ => closed.bind closed.u32 fun _ => closed.bind closed.u32 fun _ =>
      closed.bind closed.u32 fun _ => closed.bind closed.u16 fun _ => closed.bind closed.name fun _ =>
      closed.bind (closed.readTo _) fun _ => closed.pure _
  case nsec =>
    exact closed.bind closed.tell fun _ => closed.bind closed.name fun _ => closed.bind (closed.readTo _) fun _ =>
      closed.pure _
  case nsec3 =>
    exact closed.bind closed.tell fun _ => closed.bind closed.u8 fun _ => closed.bind closed.u8 fun _ =>
      closed.bind closed.u16 fun _ => closed.bind closed.counted fun _ => closed.bind closed.counted fun _ =>
      closed.bind (closed.readTo _) fun _ => closed.pure _
  case nsec3param =>
    exact closed.bind closed.u8 fun _ => closed.bind closed.u8 fun _ => closed.bind closed.u16 fun _ =>
      closed.bind closed.counted fun _ => closed.pure _
  case naptr =>
    exact closed.bind closed.u16 fun _ => closed.bind closed.u16 fun _ => closed.bind closed.counted fun _ =>
      closed.bind closed.counted fun _ => closed.bind closed.counted fun _ => closed.bind closed.name fun _ =>
      closed.pure _
  case uri =>
    exact closed.bind closed.u16 fun _ => closed.bind closed.u16 fun _ => closed.bind (closed.read _) fun _ =>
      closed.pure _
  case tsig =>
    refine closed.bind ?_ fun _ => closed.pure _
    exact closed.bind closed.name fun _ => closed.bind closed.u16 fun _ => closed.bind closed.u32 fun _ =>
      closed.bind closed.u16 fun _ => closed.bind closed.counted16 fun _ => closed.bind closed.u16 fun _ =>
      closed.bind closed.u16 fun _ => closed.bind closed.counted16 fun _ => closed.pure _

end Closed

/-! ### The buffer stays -/

/-- A read moves the cursor only. -/
def Keeps {α : Type} (p : Read α) : Prop :=
  ∀ (c : Reader) (v : α) (next : Reader), p c = .ok (v, next) → next.buf = c.buf

theorem closed_keeps : Closed @Keeps where
  pure v := by
    rintro c v next ⟨⟩
    rfl
  throw e := by
    rintro c v next ⟨⟩
  bind head rest := by
    intro c w last done
    obtain ⟨v, next, first, second⟩ := Cursor.bind_eq_ok.mp done
    exact (rest v next w last second).trans (head c v next first)
  tell := by
    rintro c v next ⟨⟩
    rfl
  u8 := by
    intro c v next taken
    rw [Reader.u8] at taken
    split at taken
    · cases taken
      rfl
    · cases taken
  u16 := by
    intro c v next taken
    rw [Reader.u16] at taken
    split at taken
    · cases taken
      rfl
    · cases taken
  u32 := by
    intro c v next taken
    rw [Reader.u32] at taken
    split at taken
    · cases taken
      rfl
    · cases taken
  read n := by
    intro c v next taken
    rw [Reader.read] at taken
    split at taken
    · cases taken
    · cases taken
      rfl
  seek pos := by
    intro c v next taken
    rw [Reader.seek] at taken
    split at taken
    · cases taken
    · cases taken
      rfl
  label n positive bound := by
    intro c v next taken
    rw [readLabel] at taken
    split at taken
    · cases taken
      rfl
    · cases taken

theorem keeps_parseRdata (rtype : RRType) (rdlen : Nat) : Keeps (Rdata.parseRdata rtype rdlen) := by
  have raw : Keeps (Rdata.readUnknown rtype rdlen) :=
    closed_keeps.bind (closed_keeps.read _) fun _ => closed_keeps.pure _
  intro c v next done
  rw [Rdata.parseRdata] at done
  split at done
  · exact raw c v next done
  · next codec found =>
      split at done
      · split at done
        · cases done
        · exact raw c v next done
      · next rd after parsed =>
          split at done
          · cases done
          · cases done
            obtain ⟨front, back, split, -⟩ := List.lookup_eq_some_iff.mp found
            have listed : (rtype, codec) ∈ Rdata.registry := by
              rw [split]
              exact List.mem_append_right front List.mem_cons_self
            exact closed_keeps.dispatch _ listed rdlen c _ _ parsed

end Trench.Wire
