import Mathlib
import Trench.Wire.Size

set_option autoImplicit false

/- The size of a message without its octets: how far the writer is, and which suffixes
it can point to. -/
namespace Trench.Wire

open Name (labelOctets)

structure Extent where
  pos : Nat
  known : List Octets

namespace Extent

def skip (l : Extent) (count : Nat) : Extent := { l with pos := l.pos + count }

/-- A suffix that is written in full can be pointed to when it starts below `0x4000`. -/
def enter (l : Extent) (key : Octets) : Extent :=
  if l.pos ≤ 0x3FFF then { l with known := key :: l.known } else l

/-- Labels up to the first suffix that is known, which takes a pointer. -/
def name (l : Extent) : List Label → Extent
  | [] => l.skip 1
  | label :: rest =>
      if suffixKey (label :: rest) ∈ l.known then l.skip 2
      else ((l.enter (suffixKey (label :: rest))).skip (label.octets.length + 1)).name rest

def question (l : Extent) (q : Question) : Extent := (l.name q.name.labels).skip 4

def record (l : Extent) (rr : RR) : Extent := (l.name rr.name.labels).skip rr.bodySize

/-- Header, questions and records, whose names in the data are written in full. -/
def sections (questions : List Question) (answers authority additional : List RR) : Extent :=
  let l := questions.foldl question ⟨headerLen, []⟩
  additional.foldl record (authority.foldl record (answers.foldl record l))

end Extent

def optionsSize (options : List (UInt16 × Octets)) : Nat := (options.map fun o => 4 + o.2.length).sum

def Message.size (m : Message) : Nat :=
  (Extent.sections m.questions m.answers m.authority m.plainAdditional).pos +
    match m.edns with
    | none => 0
    | some e => 11 + optionsSize e.options

namespace Extent

/-- A name takes one octet at least and its uncompressed form at most. -/
theorem name_bounds (l : Extent) (labels : List Label) : l.pos < (l.name labels).pos ∧
    (l.name labels).pos ≤ l.pos + (Name.wireLen ⟨labels⟩) := by
  induction labels generalizing l with
  | nil => exact ⟨Nat.lt_succ_self _, Nat.le_refl _⟩
  | cons label rest ih =>
      have whole : Name.wireLen ⟨label :: rest⟩ =
          label.octets.length + 1 + Name.wireLen ⟨rest⟩ := by
        simp only [Name.wireLen, List.map_cons, List.sum_cons]
        omega
      have positive := label.nonempty
      rw [name]
      split
      · have last : 1 ≤ Name.wireLen ⟨rest⟩ := Nat.le_add_left 1 _
        constructor
        · exact Nat.lt_add_of_pos_right Nat.two_pos
        · change l.pos + 2 ≤ _
          omega
      · have place : ((l.enter (suffixKey (label :: rest))).skip (label.octets.length + 1)).pos =
            l.pos + (label.octets.length + 1) := by
          rw [enter]
          split <;> rfl
        obtain ⟨lower, upper⟩ := ih ((l.enter (suffixKey (label :: rest))).skip
          (label.octets.length + 1))
        rw [place] at lower upper
        omega

theorem question_bounds (l : Extent) (q : Question) : l.pos ≤ (l.question q).pos ∧
    (l.question q).pos ≤ l.pos + q.name.wireLen + 4 := by
  obtain ⟨lower, upper⟩ := l.name_bounds q.name.labels
  change l.pos ≤ (l.name q.name.labels).pos + 4 ∧ (l.name q.name.labels).pos + 4 ≤ _
  change (l.name q.name.labels).pos ≤ l.pos + q.name.wireLen at upper
  omega

theorem record_bounds (l : Extent) (rr : RR) : l.pos ≤ (l.record rr).pos ∧
    (l.record rr).pos ≤ l.pos + rr.name.wireLen + rr.bodySize := by
  obtain ⟨lower, upper⟩ := l.name_bounds rr.name.labels
  change l.pos ≤ (l.name rr.name.labels).pos + rr.bodySize ∧
    (l.name rr.name.labels).pos + rr.bodySize ≤ _
  change (l.name rr.name.labels).pos ≤ l.pos + rr.name.wireLen at upper
  omega

theorem foldl_le {α : Type} {step : Extent → α → Extent} (grows : ∀ l a, l.pos ≤ (step l a).pos)
    (l : Extent) (items : List α) : l.pos ≤ (items.foldl step l).pos := by
  induction items generalizing l with
  | nil => exact Nat.le_refl _
  | cons a rest ih => exact (grows l a).trans (ih (step l a))

theorem headerLen_le_sections (questions : List Question) (answers authority additional : List RR) :
    headerLen ≤ (sections questions answers authority additional).pos := by
  have records (l : Extent) (rrs : List RR) := foldl_le (fun l rr => (l.record_bounds rr).1) l rrs
  calc headerLen ≤ (questions.foldl question ⟨headerLen, []⟩).pos :=
        foldl_le (fun l q => (l.question_bounds q).1) ⟨headerLen, []⟩ questions
    _ ≤ _ := records _ answers
    _ ≤ _ := records _ authority
    _ ≤ _ := records _ additional

end Extent

/-! ### The writer keeps to the extent -/

structure Writer.Laid (w : Writer) (l : Extent) : Prop where
  pos : w.buf.length = l.pos
  known : ∀ key, w.knows key = true ↔ key ∈ l.known

namespace Writer

theorem Laid.raw {w : Writer} {l : Extent} (laid : w.Laid l) (bytes : Octets) :
    (w.raw bytes).Laid (l.skip bytes.length) := by
  refine ⟨?_, laid.known⟩
  rw [raw_buf, List.length_append, laid.pos]
  rfl

theorem Laid.enter {w : Writer} {l : Extent} (laid : w.Laid l) (key : Octets) :
    (if w.tell ≤ 0x3FFF then ({ w with names := (key, w.tell) :: w.names } : Writer) else w).Laid
      (l.enter key) := by
  have place : w.tell = l.pos := laid.pos
  rw [Extent.enter, place]
  split
  · refine ⟨laid.pos, fun other => ?_⟩
    rw [knows_cons, Bool.or_eq_true, beq_iff_eq, List.mem_cons]
    exact or_congr Iff.rfl (laid.known other)
  · exact laid

theorem Laid.labels {w : Writer} {l : Extent} (laid : w.Laid l) (labels : List Label) :
    (writeLabels true w (suffixKey labels) labels).Laid (l.name labels) := by
  induction labels generalizing w l with
  | nil => exact laid.raw [0]
  | cons label rest ih =>
      have drop : (suffixKey (label :: rest)).drop (label.octets.length + 1) = suffixKey rest := by
        have same : label.octets.length = label.lower.octets.length := by simp [Label.lower]
        rw [same]
        simp [suffixKey, labelOctets]
      rw [writeLabels, Extent.name]
      simp only [↓reduceIte]
      have found := laid.known (suffixKey (label :: rest))
      rw [knows] at found
      split
      · next off present =>
          rw [present] at found
          rw [if_pos (found.mp rfl)]
          exact laid.raw (octets16 _)
      · next absent =>
          rw [absent] at found
          rw [if_neg fun held => Bool.false_ne_true (found.mpr held), drop]
          apply ih
          have entered := ((laid.enter (suffixKey (label :: rest))).raw
            [UInt8.ofNat label.octets.length]).raw label.octets
          have width : ((l.enter (suffixKey (label :: rest))).skip 1).skip label.octets.length =
              (l.enter (suffixKey (label :: rest))).skip (label.octets.length + 1) := by
            simp only [Extent.skip, Extent.mk.injEq, and_true]
            omega
          rw [← width]
          exact entered

theorem Laid.name {w : Writer} {l : Extent} (laid : w.Laid l) (name : Name) :
    (w.writeName name true).Laid (l.name name.labels) := laid.labels name.labels

theorem Laid.question {w : Writer} {l : Extent} (laid : w.Laid l) (q : Question) :
    (writeQuestion true w q).Laid (l.question q) :=
  ((laid.name q.name).raw (octets16 q.rtype)).raw (octets16 q.rclass)

theorem Laid.questions {w : Writer} {l : Extent} (laid : w.Laid l) (questions : List Question) :
    (questions.foldl (writeQuestion true) w).Laid (questions.foldl Extent.question l) := by
  induction questions generalizing w l with
  | nil => exact laid
  | cons q rest ih => exact ih (laid.question q)

theorem Laid.record {w after : Writer} {l : Extent} {rr : RR} (laid : w.Laid l)
    (written : writeRR true w rr = .ok after) : after.Laid (l.record rr) := by
  rw [writeRR_eq (writeRR_sized written).1] at written
  cases written
  have done := (laid.name rr.name).raw (fixedFields rr.rtype rr.rclass (UInt32.ofInt rr.ttl)
    (UInt16.ofNat rr.rdata.octets.length) ++ rr.rdata.octets)
  have width : (fixedFields rr.rtype rr.rclass (UInt32.ofInt rr.ttl)
      (UInt16.ofNat rr.rdata.octets.length) ++ rr.rdata.octets).length = rr.bodySize := by
    rw [List.length_append, RR.bodySize, fixedFields]
    simp only [List.length_append, length_octets16, length_octets32]
  rwa [width] at done

theorem Laid.records {w after : Writer} {l : Extent} {rrs : List RR} (laid : w.Laid l)
    (written : writeRRs true w rrs = .ok after) : after.Laid (rrs.foldl Extent.record l) := by
  induction rrs generalizing w l with
  | nil =>
      cases written
      exact laid
  | cons rr rest ih =>
      obtain ⟨middle, one, more⟩ := writeRRs_cons.mp written
      exact ih (laid.record one) more

end Writer

/-! ### Messages -/

theorem length_optionsOctets (options : List (UInt16 × Octets)) :
    (optionsOctets options).length = optionsSize options := by
  induction options with
  | nil => rfl
  | cons option rest ih =>
      obtain ⟨code, data⟩ := option
      rw [optionsSize] at ih ⊢
      simp only [optionsOctets, List.length_append, length_octets16, List.map_cons, List.sum_cons, ih]
      omega

namespace Message

theorem writeHeader_laid (m : Message) : m.writeHeader.Laid ⟨headerLen, []⟩ :=
  ⟨rfl, fun key => by
    rw [show m.writeHeader.knows key = false from rfl]
    exact ⟨fun held => absurd held Bool.false_ne_true, fun held => by cases held⟩⟩

/-- Every record's data can be written. -/
def Writes (rrs : List RR) : Prop := ∀ rr ∈ rrs, ∀ w, rr.rdata.emit w = .ok (w.raw rr.rdata.octets)

theorem writeRRs_iff (w : Writer) (rrs : List RR) :
    (∃ after, writeRRs true w rrs = .ok after) ↔ Writes rrs := by
  constructor
  · rintro ⟨after, written⟩ rr held
    obtain ⟨alone, one, -⟩ := writeRR_le written held
    exact (writeRR_sized one).1
  · exact writeRRs_emits w

theorem tail_size (m : Message) : m.tailOctets.length =
    match m.edns with
    | none => 0
    | some e => 11 + optionsSize e.options := by
  rw [tailOctets]
  cases m.edns with
  | none => rfl
  | some e =>
      simp only [optOctets, List.length_append, length_optionsOctets, fixedFields, length_octets16,
        length_octets32]
      have root : (Rdata.nameOctets Name.root).length = 1 := rfl
      omega

/-- The sections, the records one after another, then the OPT. -/
theorem toWire_ok_iff {m : Message} {wire : Octets} : m.toWire = .ok wire ↔
    ∃ first second third, writeRRs true (m.questionWriter true) m.answers = .ok first ∧
      writeRRs true first m.authority = .ok second ∧
      writeRRs true second m.plainAdditional = .ok third ∧ wire = third.buf ++ m.tailOctets := by
  have last (w : Writer) : (match m.edns with
      | none => (.ok w : Except EmitError Writer)
      | some edns => .ok (writeOpt w edns)) = .ok (w.raw m.tailOctets) := by
    rw [tailOctets]
    cases m.edns with
    | none => exact congrArg Except.ok w.raw_nil.symm
    | some edns => exact congrArg Except.ok (writeOpt_eq w edns)
  constructor
  · intro written
    rw [toWire, encode, write] at written
    change (((writeRRs true (m.questionWriter true) m.answers >>= _) >>= _) >>= _) = _ at written
    cases answers : writeRRs true (m.questionWriter true) m.answers with
    | error e =>
        rw [answers] at written
        cases written
    | ok first =>
        rw [answers] at written
        change (((writeRRs true first m.authority >>= _) >>= _) >>= _) = _ at written
        cases authority : writeRRs true first m.authority with
        | error e =>
            rw [authority] at written
            cases written
        | ok second =>
            rw [authority] at written
            change (((writeRRs true second m.plainAdditional >>= _) >>= _) >>= _) = _ at written
            cases additional : writeRRs true second m.plainAdditional with
            | error e =>
                rw [additional] at written
                cases written
            | ok third =>
                rw [additional] at written
                change (((match m.edns with
                  | none => (.ok third : Except EmitError Writer)
                  | some edns => .ok (writeOpt third edns)) >>= _) >>= _) = _ at written
                rw [last] at written
                cases written
                exact ⟨first, second, third, rfl, authority, additional, rfl⟩
  · rintro ⟨first, second, third, answers, authority, additional, rfl⟩
    apply toWire_of_write (w := third.raw m.tailOctets)
    rw [write]
    change (writeRRs true (m.questionWriter true) m.answers >>= _) = _
    rw [answers]
    change (writeRRs true first m.authority >>= _) = _
    rw [authority]
    change (writeRRs true second m.plainAdditional >>= _) = _
    rw [additional]
    exact last third

/-- A message is written exactly when its data can be, and then it has its size. -/
theorem toWire_iff (m : Message) :
    ((∃ wire, m.toWire = .ok wire) ↔ Writes m.answers ∧ Writes m.authority ∧ Writes m.plainAdditional) ∧
      ∀ wire, m.toWire = .ok wire → wire.length = m.size := by
  constructor
  · constructor
    · rintro ⟨wire, written⟩
      obtain ⟨first, second, third, answers, authority, additional, -⟩ := toWire_ok_iff.mp written
      exact ⟨(writeRRs_iff _ _).mp ⟨_, answers⟩, (writeRRs_iff _ _).mp ⟨_, authority⟩,
        (writeRRs_iff _ _).mp ⟨_, additional⟩⟩
    · rintro ⟨answers, authority, additional⟩
      obtain ⟨first, answers⟩ := (writeRRs_iff (m.questionWriter true) _).mpr answers
      obtain ⟨second, authority⟩ := (writeRRs_iff first _).mpr authority
      obtain ⟨third, additional⟩ := (writeRRs_iff second _).mpr additional
      exact ⟨_, toWire_ok_iff.mpr ⟨first, second, third, answers, authority, additional, rfl⟩⟩
  · intro wire written
    obtain ⟨first, second, third, answers, authority, additional, rfl⟩ := toWire_ok_iff.mp written
    have laid := (((m.writeHeader_laid.questions m.questions).records answers).records
      authority).records additional
    rw [List.length_append, tail_size, size, laid.pos]
    rfl

end Message

end Trench.Wire
