import Mathlib
import Trench.Wire.RecordRoundTrip

set_option autoImplicit false

/- A written message against what is read from it: the header, the questions, three
sections of records and the OPT. A well-formed message comes back equal. -/
namespace Trench.Wire

open Cursor (Parses Before)
open Reader
open Rdata (LegalName InRange nameOctets Coded)

def Question.fold (q : Question) : Question := { q with name := q.name.canonicalize }

def Message.fold (m : Message) : Message :=
  { m with
    questions := m.questions.map Question.fold
    answers := m.answers.map RR.fold
    authority := m.authority.map RR.fold
    additional := m.additional.map RR.fold }

/-! ### The question section and the OPT record -/

theorem readQuestion_written {w : Writer} (sound : w.Sound) (q : Question) (legal : LegalName q.name)
    (compress : Bool) :
    (writeQuestion compress w q).Sound ∧ (∃ out, (writeQuestion compress w q).buf = w.buf ++ out) ∧
      ∃ back : Question, back.fold = q.fold ∧ ∀ more : Octets,
        readQuestion ⟨(writeQuestion compress w q).buf ++ more, w.tell⟩ =
          .ok (back, ⟨(writeQuestion compress w q).buf ++ more, (writeQuestion compress w q).tell⟩) := by
  obtain ⟨sound', ⟨out, grown⟩, other, same, read⟩ :=
    Writer.writeName_spec sound q.name compress legal
  let named := w.writeName q.name compress
  have written : writeQuestion compress w q =
      named.raw (octets16 q.rtype ++ octets16 q.rclass) := by
    simp only [writeQuestion, Writer.u16, Writer.raw_raw, named]
  rw [written]
  refine ⟨sound'.raw _, ⟨out ++ (octets16 q.rtype ++ octets16 q.rclass), ?_⟩,
    ⟨other, q.rtype, q.rclass⟩, ?_, fun more => ?_⟩
  · simp only [Writer.raw_buf, named, grown, List.append_assoc]
  · simp only [Question.fold, canonicalize_congr same]
  · have name := read (octets16 q.rtype ++ octets16 q.rclass ++ more)
    have here : Before ⟨named.buf ++ (octets16 q.rtype ++ octets16 q.rclass ++ more), named.tell⟩
        named.tell (octets16 q.rtype ++ octets16 q.rclass ++ more) := by
      refine ⟨rfl, ?_, ?_⟩
      · simp only [Writer.tell, List.length_append]
        omega
      · simp only [Cursor.rest, Writer.tell, List.drop_left]
    have fields : Parses (do
        let rtype ← u16
        let rclass ← u16
        return (⟨other, rtype, rclass⟩ : Question)) named.tell
          (octets16 q.rtype ++ octets16 q.rclass) ⟨other, q.rtype, q.rclass⟩ :=
      (parses_u16 _ q.rtype).bind (parses_u16 _ q.rclass).bind_pure
    rw [Writer.raw_buf, List.append_assoc, readQuestion, Cursor.bind_ok name, fields _ more here]
    simp only [Cursor.advance, Writer.tell, Writer.raw_buf, List.length_append, named]

theorem readQuestions_written {w : Writer} (sound : w.Sound) (questions : List Question)
    (legal : ∀ q ∈ questions, LegalName q.name) (compress : Bool) :
    (questions.foldl (writeQuestion compress) w).Sound ∧
      (∃ out, (questions.foldl (writeQuestion compress) w).buf = w.buf ++ out) ∧
      ∃ back : List Question, back.map Question.fold = questions.map Question.fold ∧
        ∀ more : Octets, readQuestions questions.length
          ⟨(questions.foldl (writeQuestion compress) w).buf ++ more, w.tell⟩ =
            .ok (back, ⟨(questions.foldl (writeQuestion compress) w).buf ++ more,
              (questions.foldl (writeQuestion compress) w).tell⟩) := by
  induction questions generalizing w with
  | nil => exact ⟨sound, ⟨[], (List.append_nil _).symm⟩, [], rfl, fun more => rfl⟩
  | cons q rest ih =>
      obtain ⟨sound', ⟨first, begun⟩, one, same, read⟩ :=
        readQuestion_written sound q (legal q List.mem_cons_self) compress
      obtain ⟨final, ⟨out, grown⟩, back, others, reads⟩ :=
        ih sound' fun q held => legal q (List.mem_cons_of_mem _ held)
      refine ⟨final, ⟨first ++ out, ?_⟩, one :: back, ?_, fun more => ?_⟩
      · rw [List.foldl_cons, grown, begun, List.append_assoc]
      · rw [List.map_cons, List.map_cons, same, others]
      · have here := read (out ++ more)
        rw [← List.append_assoc, ← grown] at here
        rw [List.length_cons, List.foldl_cons, readQuestions, Cursor.bind_ok here,
          Cursor.bind_ok (reads more)]
        rfl

/-- The OPT record, from its root owner on. -/
def optOctets (edns : Edns) : Octets :=
  nameOctets Name.root ++ fixedFields RRType.opt edns.udpSize
    (buildOptTtl edns.extRcode edns.version edns.flags)
    (UInt16.ofNat (optionsOctets edns.options).length) ++ optionsOctets edns.options

theorem writeOpt_eq (w : Writer) (edns : Edns) : writeOpt w edns = w.raw (optOctets edns) := by
  let start := (((w.u8 0).u16 RRType.opt).u16 edns.udpSize).u32
    (buildOptTtl edns.extRcode edns.version edns.flags)
  have width : (start.reserveU16.2.raw (optionsOctets edns.options)).tell -
      start.reserveU16.2.tell = (optionsOctets edns.options).length := by
    simp only [Writer.tell, Writer.raw_buf, List.length_append, Nat.add_sub_cancel_left]
  have patched := start.patch_reserved (optionsOctets edns.options)
    (UInt16.ofNat (optionsOctets edns.options).length)
  rw [writeOpt]
  simp only [emitOptions_eq]
  change (start.reserveU16.2.raw (optionsOctets edns.options)).patchU16 start.reserveU16.1
    (UInt16.ofNat ((start.reserveU16.2.raw (optionsOctets edns.options)).tell -
      start.reserveU16.2.tell)) = _
  rw [width, patched]
  simp only [start, Writer.u8, Writer.u16, Writer.u32, Writer.raw_raw, optOctets, fixedFields,
    nameOctets, Name.root, Name.labelOctets, List.nil_append, List.append_assoc]

theorem parses_readOpt (edns : Edns) (pos : Nat)
    (short : ∀ option ∈ edns.options, option.2.length ≤ 65535)
    (total : (optionsOctets edns.options).length ≤ 65535) :
    Parses (readOpt ⟨Name.root, RRType.opt, edns.udpSize,
      buildOptTtl edns.extRcode edns.version edns.flags,
      UInt16.ofNat (optionsOctets edns.options).length⟩ none) pos (optionsOctets edns.options)
      edns := by
  intro c tail here
  have start : Reader.tell c = .ok (c.pos, c) := rfl
  have read := parses_read pos (optionsOctets edns.options) (optionsOctets edns.options).length rfl
    c tail here
  have inside : c.pos + (optionsOctets edns.options).length ≤
      (c.advance (optionsOctets edns.options).length).buf.length := here.advance.inside
  rw [readOpt, Cursor.bind_ok start,
    Cursor.bind_ok (Cursor.raiseIf_apply _ c (by simp [Name.root]))]
  simp only [toNat_rdlen total, parseOptTtl_buildOptTtl]
  rw [Cursor.bind_ok read, Cursor.bind_ok (seek_inside inside), Cursor.pure_apply,
    parseOptions_optionsOctets _ short]
  rfl

/-! ### The whole message -/

namespace Message

/-- The header a message is written with. -/
def header (m : Message) : Header :=
  ⟨m.id, m.flags, UInt16.ofNat m.questions.length, UInt16.ofNat m.answers.length,
    UInt16.ofNat m.authority.length, UInt16.ofNat m.arcount⟩

/-- The writer behind the question section. -/
def questionWriter (m : Message) (compress : Bool) : Writer :=
  m.questions.foldl (writeQuestion compress) m.writeHeader

/-- All records but the OPT, in the order they are written. -/
def records (m : Message) : List RR := m.answers ++ m.authority ++ m.additional

/-- Everything in the message can be written; an OPT is in the EDNS field only. -/
structure Emits (m : Message) : Prop where
  questions : ∀ q ∈ m.questions, LegalName q.name
  records : ∀ rr ∈ m.records, rr.Writable
  plain : ∀ rr ∈ m.additional, rr.rtype ≠ RRType.opt

/-- Its counts fit their fields, the OPT being one of the additional records. -/
structure Writable (m : Message) : Prop extends m.Emits where
  counts : m.questions.length ≤ 65535 ∧ m.answers.length ≤ 65535 ∧ m.authority.length ≤ 65535 ∧
    m.additional.length + (if m.edns.isSome then 1 else 0) ≤ 65535
  options : ∀ edns, m.edns = some edns → (∀ option ∈ edns.options, option.2.length ≤ 65535) ∧
    (optionsOctets edns.options).length ≤ 65535

/-- What holds of every record and the place its data has in the written message. -/
def EachPlaced (m : Message) (compress : Bool) (holds : Nat → RR → Prop) : Prop :=
  Wire.EachPlaced holds compress (m.questionWriter compress) m.records

theorem Emits.plainAdditional_eq {m : Message} (writable : m.Emits) :
    m.plainAdditional = m.additional := by
  rw [plainAdditional]
  split
  · apply List.filter_eq_self.mpr
    intro rr held
    exact decide_eq_true (writable.plain rr held)
  · rfl

theorem parses_readHeader (m : Message) (pos : Nat) :
    Parses readHeader pos m.writeHeader.buf m.header := by
  have fields : Parses readHeader pos (octets16 m.id ++ (octets16 m.flags ++
      (octets16 m.header.qd ++ (octets16 m.header.an ++ (octets16 m.header.ns ++
      octets16 m.header.ar))))) m.header :=
    (parses_u16 _ m.id).bind ((parses_u16 _ m.flags).bind ((parses_u16 _ m.header.qd).bind
      ((parses_u16 _ m.header.an).bind ((parses_u16 _ m.header.ns).bind
      (parses_u16 _ m.header.ar).bind_pure))))
  apply fields.congr
  simp only [writeHeader, Writer.u16, Writer.raw_raw, Writer.raw_buf, Writer.empty, header,
    List.nil_append, List.append_assoc]

/-- What follows the records. -/
def tailOctets (m : Message) : Octets :=
  match m.edns with
  | none => []
  | some edns => optOctets edns

/-- The writers behind each section, and the final buffer. -/
structure Layout (m : Message) (compress : Bool) (first second third : Writer) (buf : Octets) :
    Prop where
  questions : ∃ out, (m.questionWriter compress).buf = m.writeHeader.buf ++ out
  sound : (m.questionWriter compress).Sound
  answers : writeRRs compress (m.questionWriter compress) m.answers = .ok first
  authority : writeRRs compress first m.authority = .ok second
  additional : writeRRs compress second m.additional = .ok third
  sound₁ : first.Sound
  sound₂ : second.Sound
  grows₀ : ∃ out, first.buf = (m.questionWriter compress).buf ++ out
  grows₁ : ∃ out, second.buf = first.buf ++ out
  grows₂ : ∃ out, third.buf = second.buf ++ out
  whole : buf = third.buf ++ m.tailOctets

theorem Emits.of_mem {m : Message} (writable : m.Emits) {rr : RR}
    (held : rr ∈ m.answers ∨ rr ∈ m.authority ∨ rr ∈ m.additional) : rr.Writable := by
  apply writable.records
  rw [Message.records, List.append_assoc, List.mem_append, List.mem_append]
  exact held

theorem Emits.layout {m : Message} (writable : m.Emits) (compress : Bool) :
    ∃ w first second third, m.write compress = .ok w ∧
      m.Layout compress first second third w.buf := by
  have start : m.writeHeader.Sound := fun entry inside => by cases inside
  obtain ⟨sound, begun, -⟩ :=
    readQuestions_written start m.questions writable.questions compress
  obtain ⟨first, answers, sound₁, grows₀⟩ := writeRRs_written
    (w := m.questionWriter compress) sound compress m.answers fun rr held => writable.of_mem (.inl held)
  obtain ⟨second, authority, sound₂, grows₁⟩ := writeRRs_written sound₁ compress m.authority
    fun rr held => writable.of_mem (.inr (.inl held))
  obtain ⟨third, additional, -, grows₂⟩ := writeRRs_written sound₂ compress m.additional
    fun rr held => writable.of_mem (.inr (.inr held))
  have written : m.write compress = .ok (third.raw m.tailOctets) := by
    rw [write, writable.plainAdditional_eq, tailOctets]
    change (writeRRs compress (m.questionWriter compress) m.answers >>= _) = _
    rw [answers]
    change (writeRRs compress first m.authority >>= _) = _
    rw [authority]
    change (writeRRs compress second m.additional >>= _) = _
    rw [additional]
    cases m.edns with
    | none => exact congrArg Except.ok third.raw_nil.symm
    | some edns => exact congrArg Except.ok (writeOpt_eq third edns)
  exact ⟨_, first, second, third, written, begun, sound, answers, authority, additional, sound₁,
    sound₂, grows₀, grows₁, grows₂, rfl⟩

section Layout

variable {m : Message} {compress : Bool} {first second third : Writer} {buf : Octets}

theorem Layout.eachPlaced_iff {holds : Nat → RR → Prop}
    (layout : m.Layout compress first second third buf) :
    m.EachPlaced compress holds ↔ Wire.EachPlaced holds compress (m.questionWriter compress) m.answers ∧
      Wire.EachPlaced holds compress first m.authority ∧ Wire.EachPlaced holds compress second m.additional := by
  have both : writeRRs compress (m.questionWriter compress) (m.answers ++ m.authority) =
      .ok second := by
    rw [writeRRs_append, layout.answers]
    exact layout.authority
  rw [EachPlaced, records, eachPlaced_append both, eachPlaced_append layout.answers, and_assoc]

theorem Layout.eachPlaced_congr {holds others : Nat → RR → Prop}
    (layout : m.Layout compress first second third buf) (writable : m.Emits)
    (same : ∀ rr ∈ m.records, ∀ pos more, Before ⟨buf, pos⟩ pos (rr.rdata.octets ++ more) →
      (holds pos rr ↔ others pos rr)) :
    m.EachPlaced compress holds ↔ m.EachPlaced compress others := by
  have written : writeRRs compress (m.questionWriter compress) m.records = .ok third := by
    rw [records, writeRRs_append, writeRRs_append, layout.answers]
    change (writeRRs compress first m.authority >>= _) = _
    rw [layout.authority]
    exact layout.additional
  exact Wire.eachPlaced_congr layout.sound writable.records written layout.whole same

/-- The reader behind the header and the questions. -/
theorem Layout.readMessage_eq (layout : m.Layout compress first second third buf)
    (writable : m.Writable) :
    ∃ questions : List Question, questions.map Question.fold = m.questions.map Question.fold ∧
      readMessage ⟨buf, 0⟩ =
        (do
          let (answers, _) ← readRRs false m.answers.length none
          let (authority, _) ← readRRs false m.authority.length none
          let (additional, edns) ← readRRs true m.arcount none
          return ⟨m.id, m.flags, questions, answers, authority, additional, edns⟩ : Read Message)
            ⟨buf, (m.questionWriter compress).tell⟩ := by
  have start : m.writeHeader.Sound := fun entry inside => by cases inside
  obtain ⟨-, -, questions, same, read⟩ :=
    readQuestions_written start m.questions writable.questions compress
  obtain ⟨out, begun⟩ := layout.questions
  obtain ⟨out₀, grown₀⟩ := layout.grows₀
  obtain ⟨out₁, grown₁⟩ := layout.grows₁
  obtain ⟨out₂, grown₂⟩ := layout.grows₂
  have behind : buf = (m.questionWriter compress).buf ++ (out₀ ++ out₁ ++ out₂ ++ m.tailOctets) := by
    rw [layout.whole, grown₂, grown₁, grown₀]
    simp only [List.append_assoc]
  have here : Before ⟨buf, 0⟩ 0 (m.writeHeader.buf ++
      (out ++ (out₀ ++ out₁ ++ out₂ ++ m.tailOctets))) := by
    refine ⟨rfl, Nat.zero_le _, ?_⟩
    rw [Cursor.rest, List.drop_zero, behind, begun, List.append_assoc]
  obtain ⟨qd, an, ns, ar⟩ := writable.counts
  have arcount : m.arcount ≤ 65535 := by
    rw [arcount, writable.plainAdditional_eq]
    exact ar
  refine ⟨questions, same, ?_⟩
  have asked := read (out₀ ++ out₁ ++ out₂ ++ m.tailOctets)
  rw [show m.questions.foldl (writeQuestion compress) m.writeHeader = m.questionWriter compress
    from rfl, ← behind] at asked
  rw [readMessage, Cursor.bind_ok (m.parses_readHeader 0 _ _ here)]
  simp only [header, toNat_rdlen qd, toNat_rdlen an, toNat_rdlen ns, toNat_rdlen arcount]
  have place : (⟨buf, 0⟩ : Reader).advance m.writeHeader.buf.length = ⟨buf, m.writeHeader.tell⟩ := by
    simp only [Cursor.advance, Nat.zero_add, Writer.tell]
  rw [place, Cursor.bind_ok asked]

theorem Layout.behind₂ (layout : m.Layout compress first second third buf) :
    ∃ more, buf = second.buf ++ more := by
  obtain ⟨out, grown⟩ := layout.grows₂
  exact ⟨out ++ m.tailOctets, by rw [layout.whole, grown, List.append_assoc]⟩

theorem Layout.behind₁ (layout : m.Layout compress first second third buf) :
    ∃ more, buf = first.buf ++ more := by
  obtain ⟨out, grown⟩ := layout.grows₁
  obtain ⟨more, whole⟩ := layout.behind₂
  exact ⟨out ++ more, by rw [whole, grown, List.append_assoc]⟩

theorem Layout.headerLen_le (layout : m.Layout compress first second third buf) :
    ¬ buf.length < headerLen := by
  obtain ⟨out, begun⟩ := layout.questions
  obtain ⟨out₀, grown⟩ := layout.grows₀
  obtain ⟨more, whole⟩ := layout.behind₁
  have twelve : m.writeHeader.buf.length = headerLen := rfl
  rw [whole, grown, begun, List.length_append, List.length_append, List.length_append, twelve]
  omega

/-- The record behind the plain ones is the OPT. -/
theorem Layout.readRRs_tail (layout : m.Layout compress first second third buf)
    (writable : m.Writable) : ∃ next,
      readRRs true (if m.edns.isSome then 1 else 0) none ⟨buf, third.tell⟩ =
        .ok (([], m.edns), next) := by
  have whole := layout.whole
  rw [tailOctets] at whole
  cases present : m.edns with
  | none => exact ⟨_, rfl⟩
  | some edns =>
      rw [present] at whole
      obtain ⟨short, total⟩ := writable.options edns present
      let fields := fixedFields RRType.opt edns.udpSize
        (buildOptTtl edns.extRcode edns.version edns.flags)
        (UInt16.ofNat (optionsOctets edns.options).length)
      have here : Before ⟨buf, third.tell⟩ third.tell
          (nameOctets Name.root ++ (fields ++ (optionsOctets edns.options ++ []))) := by
        refine ⟨rfl, ?_, ?_⟩
        · simp only [whole, Writer.tell, List.length_append]
          omega
        · simp only [Cursor.rest, whole, Writer.tell, List.drop_left, List.append_nil, fields]
          rw [optOctets, List.append_assoc]
      have name := parses_readName third.tell Name.root (by decide) _ _ here
      have read := readHead_of_name name (here.advance)
      have opt := parses_readOpt edns _ short total _ _ here.advance.advance
      refine ⟨(((⟨buf, third.tell⟩ : Reader).advance (nameOctets Name.root).length).advance
        fields.length).advance (optionsOctets edns.options).length, ?_⟩
      simp only [Option.isSome_some, ↓reduceIte]
      rw [readRRs, Cursor.bind_ok read]
      simp only [and_self, ↓reduceIte]
      exact Cursor.bind_ok opt

/-- When all data lands, an equal message is read back. -/
theorem Layout.parse_of_lands (layout : m.Layout compress first second third buf)
    (writable : m.Writable) (lands : m.EachPlaced compress (Lands buf)) :
    ∃ back, Message.parse buf = .ok back ∧ back.fold = m.fold := by
  obtain ⟨questions, same, read⟩ := layout.readMessage_eq writable
  obtain ⟨answersLand, authorityLand, additionalLand⟩ := layout.eachPlaced_iff.mp lands
  obtain ⟨more₁, whole₁⟩ := layout.behind₁
  obtain ⟨more₂, whole₂⟩ := layout.behind₂
  obtain ⟨answers, answersSame, readAnswers⟩ := readRRs_of_lands false layout.sound
    (fun rr held => writable.of_mem (.inl held)) (fun siphon => by cases siphon) layout.answers
    whole₁ answersLand
  obtain ⟨authority, authoritySame, readAuthority⟩ := readRRs_of_lands false layout.sound₁
    (fun rr held => writable.of_mem (.inr (.inl held))) (fun siphon => by cases siphon)
    layout.authority whole₂ authorityLand
  obtain ⟨additional, additionalSame, readAdditional⟩ := readRRs_of_lands true layout.sound₂ (fun rr held => writable.of_mem (.inr (.inr held))) (fun _ => writable.plain)
    layout.additional layout.whole additionalLand
  obtain ⟨next, readTail⟩ := layout.readRRs_tail writable
  have first' : readRRs false m.answers.length none ⟨buf, (m.questionWriter compress).tell⟩ =
      .ok ((answers, none), ⟨buf, first.tell⟩) := by
    rw [show m.answers.length = m.answers.length + 0 from rfl, readAnswers]
    exact congrArg (fun l => Except.ok ((l, none), _)) (List.append_nil answers)
  have second' : readRRs false m.authority.length none ⟨buf, first.tell⟩ =
      .ok ((authority, none), ⟨buf, second.tell⟩) := by
    rw [show m.authority.length = m.authority.length + 0 from rfl, readAuthority]
    exact congrArg (fun l => Except.ok ((l, none), _)) (List.append_nil authority)
  have third' : readRRs true m.arcount none ⟨buf, second.tell⟩ =
      .ok ((additional, m.edns), next) := by
    rw [arcount, writable.plainAdditional_eq, readAdditional, Cursor.bind_ok readTail]
    exact congrArg (fun l => Except.ok ((l, m.edns), next)) (List.append_nil additional)
  refine ⟨⟨m.id, m.flags, questions, answers, authority, additional, m.edns⟩, ?_, ?_⟩
  · rw [Message.parse, if_neg layout.headerLen_le, read, Cursor.bind_ok first']
    dsimp only
    rw [Cursor.bind_ok second']
    dsimp only
    rw [Cursor.bind_ok third']
    rfl
  · simp only [Message.fold, same, answersSame, authoritySame, additionalSame]

theorem take_of_map_eq {α β : Type} {f : α → β} {xs ys : List α} (same : xs.map f = ys.map f) :
    xs.take ys.length = xs := by
  apply List.take_of_length_le
  have lengths := congrArg List.length same
  rw [List.length_map, List.length_map] at lengths
  exact lengths.le

theorem readRRs_zero {owner : Bool} {edns : Option Edns} {c next : Reader}
    {v : List RR × Option Edns} (read : readRRs owner 0 edns c = .ok (v, next)) : next = c := by
  cases read
  rfl

/-- When an equal message is read back, all data lands. -/
theorem Layout.lands_of_parse (layout : m.Layout compress first second third buf)
    (writable : m.Writable) (determined : ∀ rr ∈ m.records, Determined rr) {back : Message}
    (read : Message.parse buf = .ok back) (same : back.fold = m.fold) : m.EachPlaced compress (Lands buf) := by
  obtain ⟨questions, -, readMessage⟩ := layout.readMessage_eq writable
  obtain ⟨more₁, whole₁⟩ := layout.behind₁
  obtain ⟨more₂, whole₂⟩ := layout.behind₂
  have known : ∀ rr, rr ∈ m.answers ∨ rr ∈ m.authority ∨ rr ∈ m.additional → Determined rr := by
    intro rr held
    apply determined
    rw [Message.records, List.append_assoc, List.mem_append, List.mem_append]
    exact held
  rw [Message.parse, if_neg layout.headerLen_le, readMessage] at read
  split at read
  · next m' last reads =>
      cases read
      obtain ⟨⟨answers, e₁⟩, c₁, readAnswers, reads⟩ := Cursor.bind_eq_ok.mp reads
      obtain ⟨⟨authority, e₂⟩, c₂, readAuthority, reads⟩ := Cursor.bind_eq_ok.mp reads
      obtain ⟨⟨additional, e₃⟩, c₃, readAdditional, reads⟩ := Cursor.bind_eq_ok.mp reads
      cases reads
      have answersSame : answers.map RR.fold = m.answers.map RR.fold :=
        congrArg Message.answers same
      have authoritySame : authority.map RR.fold = m.authority.map RR.fold :=
        congrArg Message.authority same
      have additionalSame : additional.map RR.fold = m.additional.map RR.fold :=
        congrArg Message.additional same
      obtain ⟨answersLand, rest₁⟩ := lands_of_readRRs false (k := 0) layout.sound
        (fun rr held => writable.of_mem (.inl held)) (fun siphon => by cases siphon)
        (fun rr held => known rr (.inl held)) layout.answers whole₁ readAnswers
        (by rw [take_of_map_eq answersSame, answersSame])
      cases readRRs_zero rest₁
      obtain ⟨authorityLand, rest₂⟩ := lands_of_readRRs false (k := 0) layout.sound₁
        (fun rr held => writable.of_mem (.inr (.inl held))) (fun siphon => by cases siphon)
        (fun rr held => known rr (.inr (.inl held))) layout.authority whole₂ readAuthority
        (by rw [take_of_map_eq authoritySame, authoritySame])
      cases readRRs_zero rest₂
      rw [arcount, writable.plainAdditional_eq] at readAdditional
      obtain ⟨additionalLand, -⟩ := lands_of_readRRs true layout.sound₂
        (fun rr held => writable.of_mem (.inr (.inr held))) (fun _ => writable.plain)
        (fun rr held => known rr (.inr (.inr held))) layout.additional layout.whole readAdditional
        (by rw [take_of_map_eq additionalSame, additionalSame])
      exact layout.eachPlaced_iff.mpr ⟨answersLand, authorityLand, additionalLand⟩
  · cases read

end Layout

/-- Writing the message and reading the octets gives an equal message. -/
def RoundTrips (m : Message) (compress : Bool) : Prop :=
  ∃ bytes, m.toWire none compress = .ok bytes ∧ ∃ back, Message.parse bytes = .ok back ∧
    back.fold = m.fold

theorem toWire_of_write {m : Message} {compress : Bool} {w : Writer}
    (written : m.write compress = .ok w) : m.toWire none compress = .ok w.buf := by
  have encoded : m.encode compress = .ok w.buf := by
    rw [encode, written]
    rfl
  rw [toWire, encoded]
  rfl

/-- A message within the limits of the format. An address is written in the form
that is read back, and an octet string stands under an unregistered type only. -/
structure WellFormed (m : Message) : Prop where
  questions : ∀ q ∈ m.questions, LegalName q.name
  names : ∀ rr ∈ m.records, LegalName rr.name
  ttls : ∀ rr ∈ m.records, InRange 32 rr.ttl
  data : ∀ rr ∈ m.records,
    (rr.rdata.Typed ∧ rr.rdata.Fits ∧ rr.rdata.rdataType = rr.rtype) ∨
      (∃ octets, rr.rdata = .unknown rr.rtype octets) ∧ Rdata.registry.lookup rr.rtype = none
  sizes : ∀ rr ∈ m.records, rr.rdata.octets.length ≤ 65535
  plain : ∀ rr ∈ m.additional, rr.rtype ≠ RRType.opt
  counts : m.questions.length ≤ 65535 ∧ m.answers.length ≤ 65535 ∧ m.authority.length ≤ 65535 ∧
    m.additional.length + (if m.edns.isSome then 1 else 0) ≤ 65535
  options : ∀ edns, m.edns = some edns → (∀ option ∈ edns.options, option.2.length ≤ 65535) ∧
    (optionsOctets edns.options).length ≤ 65535

theorem WellFormed.writable {m : Message} (formed : m.WellFormed) : m.Writable where
  questions := formed.questions
  records rr held := by
    refine ⟨formed.names rr held, formed.ttls rr held, ?_⟩
    rcases formed.data rr held with ⟨typed, fits, -⟩ | ⟨⟨octets, same⟩, -⟩
    · exact emits_of_fits typed fits
    · exact ⟨octets, fun w => by rw [same, Rdata.emit]⟩
  plain := formed.plain
  counts := formed.counts
  options := formed.options

/-- Well-formed data lands wherever it stands. -/
theorem WellFormed.lands {m : Message} (formed : m.WellFormed) {rr : RR} (held : rr ∈ m.records)
    {buf more : Octets} {pos : Nat} (before : Before ⟨buf, pos⟩ pos (rr.rdata.octets ++ more)) :
    Lands buf pos rr := by
  refine ⟨formed.sizes rr held, rr.rdata, ?_, rfl⟩
  rcases formed.data rr held with ⟨typed, fits, same⟩ | ⟨⟨octets, same⟩, unregistered⟩
  · rw [← same]
    exact parseRdata_of_fits typed fits before
  · rw [same] at before ⊢
    exact parseRdata_unregistered unregistered before

/-- Encode then decode gives back every well-formed message. -/
theorem roundTrips_of_wellFormed {m : Message} (formed : m.WellFormed) (compress : Bool) :
    m.RoundTrips compress := by
  have writable := formed.writable
  obtain ⟨w, first, second, third, written, layout⟩ := writable.toEmits.layout compress
  have lands : m.EachPlaced compress (Lands w.buf) :=
    (layout.eachPlaced_congr writable.toEmits fun rr held pos more before =>
      iff_true_intro (formed.lands held before)).mpr (eachPlaced_of_forall fun _ _ => True.intro)
  obtain ⟨back, read, same⟩ := layout.parse_of_lands writable lands
  exact ⟨w.buf, toWire_of_write written, back, read, same⟩

/-- The name `www.example.`, with a capital letter. -/
def exampleName : Name :=
  ⟨[⟨[0x77, 0x57, 0x77], by decide, by decide⟩,
    ⟨[0x65, 0x78, 0x61, 0x6D, 0x70, 0x6C, 0x65], by decide, by decide⟩]⟩

/-- An answer with an alias, its address and an OPT with one option. -/
def exampleAnswer : Message where
  id := 0x1234
  flags := 0x8180
  questions := [⟨exampleName, RRType.a, RRClass.in⟩]
  answers := [⟨exampleName, RRType.cname, RRClass.in, 300, .cname exampleName.parent⟩,
    ⟨exampleName.parent, RRType.a, RRClass.in, 300, .a (inetNtop4 [192, 0, 2, 1])⟩]
  edns := some { options := [(10, [1, 2, 3, 4, 5, 6, 7, 8])] }

theorem roundTrips_exampleAnswer : exampleAnswer.RoundTrips true := by
  apply roundTrips_of_wellFormed
  refine ⟨by decide, by decide, by decide, ?_, by decide, by decide, by decide, ?_⟩
  · intro rr held
    simp only [records, exampleAnswer, List.append_nil, List.mem_cons, List.not_mem_nil,
      or_false] at held
    rcases held with rfl | rfl
    · exact .inl ⟨by decide, show LegalName _ by decide, by decide⟩
    · exact .inl ⟨by decide, ⟨[192, 0, 2, 1], rfl, rfl⟩, by decide⟩
  · intro edns present
    cases present
    decide

/-- An IPv6 address in capitals is written as well, but comes back in lower case. -/
def capitalAddress : Message where
  answers := [⟨Name.root, RRType.aaaa, RRClass.in, 0, .aaaa "2001:DB8::1".toList⟩]

/-- As many additional records as the count field can carry, and an OPT beside them. -/
def overfull : Message where
  additional := List.replicate 65535 ⟨Name.root, 65280, RRClass.in, 0, .unknown 65280 []⟩
  edns := some {}

theorem overfull_emits : overfull.Emits := by
  have each : ∀ rr ∈ overfull.records,
      rr = ⟨Name.root, 65280, RRClass.in, 0, .unknown 65280 []⟩ := by
    intro rr held
    exact List.eq_of_mem_replicate held
  refine ⟨fun q held => (by cases held), fun rr held => ?_, fun rr held => ?_⟩
  · rw [each rr held]
    exact ⟨by decide, by decide, [], fun w => rfl⟩
  · rw [List.eq_of_mem_replicate held]
    decide

theorem capitalAddress_lost : ¬ capitalAddress.RoundTrips true := by
  have different : (capitalAddress.toWire none true).toOption.bind (fun bytes =>
      (Message.parse bytes).toOption.map fun back => decide (back.fold = capitalAddress.fold)) =
        some false := by
    decide +kernel
  rintro ⟨bytes, written, back, read, same⟩
  rw [written] at different
  simp [Except.toOption, read, same] at different

/-- The count of additional records wraps to zero. -/
theorem overfull_lost : ¬ overfull.RoundTrips true := by
  rintro ⟨bytes, written, back, read, same⟩
  obtain ⟨w, first, second, third, done, layout⟩ := overfull_emits.layout true
  rw [toWire_of_write done] at written
  cases written
  have counted : overfull.header.ar = 0 := by
    have length : overfull.arcount = 65536 := by
      rw [arcount, overfull_emits.plainAdditional_eq]
      simp only [overfull, List.length_replicate, Option.isSome_some, ↓reduceIte, Nat.reduceAdd]
    rw [header, length]
    rfl
  obtain ⟨more, whole⟩ : ∃ more, w.buf = overfull.writeHeader.buf ++ more := by
    obtain ⟨out, begun⟩ := layout.questions
    obtain ⟨out₀, grown⟩ := layout.grows₀
    obtain ⟨rest, whole⟩ := layout.behind₁
    exact ⟨out ++ (out₀ ++ rest), by rw [whole, grown, begun]; simp only [List.append_assoc]⟩
  have before : Before ⟨w.buf, 0⟩ 0 (overfull.writeHeader.buf ++ more) :=
    ⟨rfl, Nat.zero_le _, by rw [Cursor.rest, List.drop_zero, whole]⟩
  have none : back.additional = [] := by
    rw [Message.parse, if_neg layout.headerLen_le, readMessage,
      Cursor.bind_ok (overfull.parses_readHeader 0 _ _ before)] at read
    simp only [counted] at read
    cases read
    rfl
  have lengths := congrArg (fun m => m.additional.length) same
  simp only [fold, none, List.map_nil, List.length_nil, List.length_map] at lengths
  simp only [overfull, List.length_replicate] at lengths
  cases lengths

/-- Neither comes back as it was. -/
theorem roundTrips_fails :
    (inetPton6 "2001:DB8::1".toList).isSome ∧ ¬ capitalAddress.RoundTrips true ∧
      ¬ overfull.RoundTrips true :=
  ⟨by decide +kernel, capitalAddress_lost, overfull_lost⟩

end Message

end Trench.Wire
