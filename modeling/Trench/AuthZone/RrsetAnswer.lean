import Mathlib
import Trench.AuthZone.Transfer
import Trench.Wire.MessageStable

set_option autoImplicit false

/- The answer that carries one record set, and when it survives being written and read. -/
namespace Trench.AuthZone

open Wire
open Wire.Rdata (LegalName InRange)

/-- The answer to a question for what the zone holds at one name under one type. -/
def rrsetAnswer (z : Zone) (id flags : UInt16) (name : Name) (rtype : RRType) : Message where
  id
  flags
  questions := [⟨name, rtype, RRClass.in⟩]
  answers := rrset name rtype (z.ttlOf name rtype) (z.slot name rtype)

theorem legal_canonicalize_iff (name : Name) : LegalName name.canonicalize ↔ LegalName name := by
  rw [LegalName, LegalName, Name.wireLen_of_lower (Name.lower_canonicalize name)]

theorem fits_fold_iff (rd : Rdata) : rd.fold.Fits ↔ rd.Fits := by
  cases rd <;> simp only [Rdata.fold, Rdata.Fits, legal_canonicalize_iff]

theorem fits_of_parsed {rr : RR} {rd : Rdata} (parsed : rr.Parsed) (typed : rd.Typed)
    (same : rr.rdata.fold = rd.fold) : rd.Fits := by
  rcases parsed.data with ⟨-, fits, -⟩ | ⟨octets, raw, -, -⟩
  · rw [← fits_fold_iff, ← same, fits_fold_iff]
    exact fits
  · rw [raw] at same
    rw [eq_unknown_of_fold same.symm] at typed
    exact typed.elim

/-- What every place tells of its record is told of all records that were written. -/
theorem forall_of_eachPlaced {holds : Nat → RR → Prop} {also : RR → Prop}
    (tells : ∀ pos rr, holds pos rr → also rr) {compress : Bool} {w last : Writer} {rrs : List RR}
    (written : writeRRs compress w rrs = .ok last) (each : EachPlaced holds compress w rrs) :
    ∀ rr ∈ rrs, also rr := by
  induction rrs generalizing w with
  | nil =>
      intro rr held
      cases held
  | cons first rest ih =>
      rw [writeRRs] at written
      cases once : writeRR compress w first with
      | error e =>
          rw [once] at written
          cases written
      | ok after =>
          rw [once] at written
          obtain ⟨here, others⟩ := each after once
          exact List.forall_mem_cons.mpr ⟨tells _ _ here, ih written others⟩

section

variable {z : Zone} {id flags : UInt16} {name : Name} {rtype : RRType}

theorem records_rrsetAnswer :
    (rrsetAnswer z id flags name rtype).records =
      rrset name rtype (z.ttlOf name rtype) (z.slot name rtype) := by
  simp only [Message.records, rrsetAnswer, List.append_nil]

theorem mem_rrset {ttl : Int} {rds : List Rdata} {rr : RR} :
    rr ∈ rrset name rtype ttl rds ↔ ∃ rd ∈ rds, (⟨name, rtype, RRClass.in, ttl, rd⟩ : RR) = rr :=
  List.mem_map

theorem rrsetAnswer_writable (legal : LegalName name) (ttl : InRange 32 (z.ttlOf name rtype))
    (typed : ∀ rd ∈ z.slot name rtype, rd.Typed) (fits : ∀ rd ∈ z.slot name rtype, rd.Fits)
    (count : (z.slot name rtype).length ≤ 65535) :
    (rrsetAnswer z id flags name rtype).Writable where
  questions q held := by
    rw [List.mem_singleton.mp held]
    exact legal
  records rr held := by
    rw [records_rrsetAnswer, mem_rrset] at held
    obtain ⟨rd, held, rfl⟩ := held
    exact ⟨legal, ttl, emits_of_fits (typed rd held) (fits rd held)⟩
  plain rr held := by cases held
  counts := ⟨Nat.le_of_ble_eq_true rfl, by simpa only [rrsetAnswer, rrset, List.length_map] using count,
    Nat.le_of_ble_eq_true rfl, Nat.le_of_ble_eq_true rfl⟩
  options edns present := by cases present

/-- The answer survives exactly when the format can carry it: its TTL, its data and their number. -/
theorem rrsetAnswer_roundTrips_iff (legal : LegalName name) (filled : z.slot name rtype ≠ [])
    (typed : ∀ rd ∈ z.slot name rtype, rd.Typed ∧ rd.rdataType = rtype) :
    (rrsetAnswer z id flags name rtype).RoundTrips true ↔
      InRange 32 (z.ttlOf name rtype) ∧ (z.slot name rtype).length ≤ 65535 ∧
        ∀ rd ∈ z.slot name rtype, rd.Fits ∧ rd.octets.length ≤ 65535 := by
  constructor
  · rintro ⟨bytes, wire, back, read, same⟩
    obtain ⟨writable, parsed⟩ := Message.parsed_of_parse read
    have answers : back.answers.map RR.fold =
        (rrset name rtype (z.ttlOf name rtype) (z.slot name rtype)).map RR.fold :=
      congrArg Message.answers same
    have matched (rd : Rdata) (held : rd ∈ z.slot name rtype) : ∃ rr : RR, rr.Parsed ∧
        rr.ttl = z.ttlOf name rtype ∧ rr.rdata.fold = rd.fold := by
      have inside : RR.fold ⟨name, rtype, RRClass.in, z.ttlOf name rtype, rd⟩ ∈ back.answers.map RR.fold := by
        rw [answers]
        exact List.mem_map_of_mem (mem_rrset.mpr ⟨rd, held, rfl⟩)
      obtain ⟨rr, present, equal⟩ := List.mem_map.mp inside
      refine ⟨rr, parsed rr ?_, congrArg RR.ttl equal, congrArg RR.rdata equal⟩
      rw [Message.records, List.append_assoc]
      exact List.mem_append_left _ present
    have ttl : InRange 32 (z.ttlOf name rtype) := by
      obtain ⟨rd, held⟩ := List.exists_mem_of_ne_nil _ filled
      obtain ⟨rr, parsed, equal, -⟩ := matched rd held
      exact equal ▸ parsed.ttl
    have fits (rd : Rdata) (held : rd ∈ z.slot name rtype) : rd.Fits := by
      obtain ⟨rr, parsed, -, same⟩ := matched rd held
      exact fits_of_parsed parsed (typed rd held).1 same
    have count : (z.slot name rtype).length ≤ 65535 := by
      have lengths := congrArg List.length answers
      rw [List.length_map, List.length_map, rrset, List.length_map] at lengths
      have bound := writable.counts.2.1
      omega
    refine ⟨ttl, count, fun rd held => ⟨fits rd held, ?_⟩⟩
    have writable : (rrsetAnswer z id flags name rtype).Writable :=
      rrsetAnswer_writable legal ttl (fun rd held => (typed rd held).1) fits count
    obtain ⟨w, first, second, third, written, layout⟩ := writable.toEmits.layout true
    rw [Message.toWire_of_write written] at wire
    cases wire
    have lands := layout.lands_of_parse writable (fun rr held => determined_of_data (.inl (by
      rw [records_rrsetAnswer, mem_rrset] at held
      obtain ⟨rd, held, rfl⟩ := held
      exact ⟨(typed rd held).1, fits rd held, (typed rd held).2⟩))) read same
    exact forall_of_eachPlaced (fun _ _ placed => placed.1) layout.answers (layout.eachPlaced_iff.mp lands).1
      _ (mem_rrset.mpr ⟨rd, held, rfl⟩)
  · rintro ⟨ttl, count, each⟩
    apply Message.roundTrips_of_wellFormed
    have writable : (rrsetAnswer z id flags name rtype).Writable :=
      rrsetAnswer_writable legal ttl (fun rd held => (typed rd held).1) (fun rd held => (each rd held).1) count
    refine ⟨writable.questions, ?_, ?_, ?_, ?_, writable.plain, writable.counts, writable.options⟩
    · exact fun rr held => (writable.records rr held).legal
    · exact fun rr held => (writable.records rr held).ttl
    · intro rr held
      rw [records_rrsetAnswer, mem_rrset] at held
      obtain ⟨rd, held, rfl⟩ := held
      exact .inl ⟨(typed rd held).1, (each rd held).1, (typed rd held).2⟩
    · intro rr held
      rw [records_rrsetAnswer, mem_rrset] at held
      obtain ⟨rd, held, rfl⟩ := held
      exact (each rd held).2

end

end Trench.AuthZone
