import Trench.Wire.Extent

set_option autoImplicit false

/- A message cut to a size limit, and what a client learns from what is left. -/
namespace Trench.Wire

open Cursor (Parses Before)
open Reader
open Name (labelOctets)
open Rdata (LegalName nameOctets)

/-- `udp_response_limit`: the smaller of both sizes, and 512 at least. -/
def udpResponseLimit (query : Option Message) (ours : ℤ := 4096) : ℤ :=
  match query.bind Message.edns with
  | some edns => max 512 (min (min edns.udpSize.toNat ours) 4096)
  | none => 512

theorem le_udpResponseLimit (query : Option Message) (ours : ℤ) : 512 ≤ udpResponseLimit query ours := by
  rw [udpResponseLimit]
  split
  · exact le_max_left _ _
  · exact le_refl _

namespace Message

/-- A message of the same request that tells the client to ask again, without records. -/
structure Truncates (m back : Message) : Prop where
  id : back.id = m.id
  flags : back.flags = m.flags ||| flagTc
  questions : back.questions = m.questions
  answers : back.answers = []
  authority : back.authority = []
  additional : back.additional = []
  edns : back.edns = m.edns.map fun edns => { edns with options := [] }

/-- The question and an OPT without options. -/
def truncated (m : Message) : Message :=
  ⟨m.id, m.flags ||| flagTc, m.questions, [], [], [], m.edns.map fun edns => { edns with options := [] }⟩

theorem truncates_truncated (m : Message) : m.Truncates m.truncated := ⟨rfl, rfl, rfl, rfl, rfl, rfl, rfl⟩

theorem truncated_options (m : Message) : ∀ edns, m.truncated.edns = some edns → edns.options = [] := by
  intro edns present
  obtain ⟨whole, -, rfl⟩ := Option.map_eq_some_iff.mp present
  rfl

/-! ### Messages without records -/

/-- No record in any section. -/
def Bare (m : Message) : Prop := m.answers = [] ∧ m.authority = [] ∧ m.additional = []

theorem encode_bare {m : Message} (bare : m.Bare) (compress : Bool) :
    m.encode compress = .ok ((m.questionWriter compress).buf ++ m.tailOctets) := by
  obtain ⟨answers, authority, additional⟩ := bare
  have plain : m.plainAdditional = [] := by
    rw [plainAdditional, additional, List.filter_nil, ite_self]
  have written : m.write compress = .ok ((m.questionWriter compress).raw m.tailOctets) := by
    rw [write, answers, authority, plain, tailOctets]
    cases m.edns with
    | none => exact congrArg Except.ok (Writer.raw_nil _).symm
    | some edns => exact congrArg Except.ok (writeOpt_eq _ edns)
  rw [encode, written]
  rfl

end Message

/-- A name that has no suffix in the table yet is written in full. -/
theorem Writer.writeLabels_fresh {w : Writer} {labels : List Label}
    (fresh : ∀ entry ∈ w.names, (suffixKey labels).length < entry.1.length) :
    (w.writeLabels true (suffixKey labels) labels).buf = w.buf ++ (labelOctets labels ++ [0]) := by
  induction labels generalizing w with
  | nil => rfl
  | cons label rest ih =>
      have drop : (suffixKey (label :: rest)).drop (label.octets.length + 1) = suffixKey rest := by
        have same : label.octets.length = label.lower.octets.length := by simp [Label.lower]
        rw [same]
        simp [suffixKey, labelOctets]
      have absent : w.names.lookup (suffixKey (label :: rest)) = none := by
        cases found : w.names.lookup (suffixKey (label :: rest)) with
        | none => rfl
        | some off => exact absurd (fresh _ (lookup_mem found)) (Nat.lt_irrefl _)
      rw [writeLabels]
      simp only [↓reduceIte, absent, drop]
      rw [ih]
      · split <;> simp only [u8, raw_buf, labelOctets, List.cons_append, List.append_assoc, List.nil_append]
      · -- the entries are of longer suffixes
        intro entry held
        have shorter := suffixKey_length_lt label rest
        split at held
        · rcases List.mem_cons.mp held with rfl | old
          · exact shorter
          · exact shorter.trans (fresh entry old)
        · exact shorter.trans (fresh entry held)

/-! ### One question -/

section

variable {m : Message} {q : Question}

def questionOctets (q : Question) : Octets := nameOctets q.name ++ (octets16 q.rtype ++ octets16 q.rclass)

theorem questionWriter_single (single : m.questions = [q]) (compress : Bool) :
    (m.questionWriter compress).buf = m.writeHeader.buf ++ questionOctets q := by
  have name : (m.writeHeader.writeName q.name compress).buf = m.writeHeader.buf ++ nameOctets q.name := by
    cases compress with
    | false => rw [Writer.writeName_plain, Writer.raw_buf, nameOctets]
    | true => exact Writer.writeLabels_fresh fun entry held => absurd held List.not_mem_nil
  rw [Message.questionWriter, single, List.foldl_cons, List.foldl_nil, writeQuestion]
  simp only [Writer.u16, Writer.raw_buf, name, questionOctets, List.append_assoc]

theorem parses_readQuestion (pos : Nat) (legal : LegalName q.name) :
    Parses readQuestion pos (questionOctets q) q :=
  (parses_readName pos q.name legal).bind ((parses_u16 _ q.rtype).bind (parses_u16 _ q.rclass).bind_pure)

theorem parses_readHead (pos : Nat) (name : Name) (legal : LegalName name) (rtype : RRType) (rclass : RRClass)
    (ttl : UInt32) (rdlen : UInt16) : Parses readHead pos
      (nameOctets name ++ fixedFields rtype rclass ttl rdlen) ⟨name, rtype, rclass, ttl, rdlen⟩ :=
  (parses_readName pos name legal).bind ((parses_u16 _ rtype).bind ((parses_u16 _ rclass).bind
    ((parses_u32 _ ttl).bind (parses_u16 _ rdlen).bind_pure)))

/-- The OPT of a message without records. -/
theorem parses_tail (bare : m.Bare) (options : ∀ edns, m.edns = some edns → edns.options = []) (pos : Nat) :
    Parses (readRRs true m.arcount none) pos m.tailOctets ([], m.edns) := by
  have count : m.arcount = if m.edns.isSome then 1 else 0 := by
    rw [Message.arcount, Message.plainAdditional, bare.2.2, List.filter_nil, ite_self, List.length_nil, Nat.zero_add]
  rw [count, Message.tailOctets]
  cases present : m.edns with
  | none => exact Parses.pure pos _
  | some edns =>
      have none := options edns present
      have opt (pos : Nat) := parses_readOpt edns pos
        (by rw [none]; exact fun option held => absurd held List.not_mem_nil) (by rw [none]; exact Nat.zero_le _)
      refine (parses_readHead pos Name.root (by decide) _ _ _ _).bind ?_
      simp only [and_self, ↓reduceIte]
      exact (opt _).bind_pure

theorem readMessage_bare (bare : m.Bare) (single : m.questions = [q]) (legal : LegalName q.name)
    (options : ∀ edns, m.edns = some edns → edns.options = []) :
    Parses readMessage 0 (m.writeHeader.buf ++ (questionOctets q ++ m.tailOctets)) m := by
  have asked (pos : Nat) : Parses (readQuestions 1) pos (questionOctets q) [q] :=
    ((parses_readQuestion pos legal).bind (Parses.pure _ ([] : List Question)).bind_pure).congr
      (List.append_nil _).symm
  have none (pos : Nat) : Parses (readRRs false 0 none) pos [] ([], none) := Parses.pure pos _
  have tail := parses_tail bare options
  have count : m.arcount ≤ 1 := by
    rw [Message.arcount, Message.plainAdditional, bare.2.2, List.filter_nil, ite_self, List.length_nil]
    split <;> decide
  have arcount : (UInt16.ofNat m.arcount).toNat = m.arcount := by
    rw [UInt16.toNat_ofNat', Nat.mod_eq_of_lt (by omega)]
  have header := m.parses_readHeader 0
  obtain ⟨id, flags, questions, answers, authority, additional, edns⟩ := m
  obtain ⟨rfl, rfl, rfl⟩ := bare
  cases single
  refine header.bind ((asked _).bind ?_)
  -- two sections that hold nothing, and the third with the OPT
  change Parses _ _ ([] ++ ([] ++ Message.tailOctets _)) _
  refine (none _).bind ?_
  dsimp only [Message.header]
  rw [arcount]
  exact (none _).bind (tail _).bind_pure

theorem parse_bare (bare : m.Bare) (single : m.questions = [q]) (legal : LegalName q.name)
    (options : ∀ edns, m.edns = some edns → edns.options = []) :
    Message.parse (m.writeHeader.buf ++ (questionOctets q ++ m.tailOctets)) = .ok m := by
  have read := readMessage_bare bare single legal options
    ⟨m.writeHeader.buf ++ (questionOctets q ++ m.tailOctets), 0⟩ []
    ⟨rfl, Nat.zero_le _, by rw [Cursor.rest, List.drop_zero, List.append_nil]⟩
  have twelve : m.writeHeader.buf.length = headerLen := rfl
  rw [Message.parse, if_neg, read]
  rw [List.length_append, twelve]
  omega

end

/-! ### The limit -/

section

variable {m : Message} {q : Question}

/-- The question and an OPT without options are short. -/
theorem length_bare (single : m.questions = [q]) (legal : LegalName q.name) (compress : Bool)
    (options : ∀ edns, m.edns = some edns → edns.options = []) :
    ((m.questionWriter compress).buf ++ m.tailOctets).length ≤ 512 := by
  have name : q.name.wireLen ≤ 255 := legal
  have octets : (nameOctets q.name).length = q.name.wireLen := by
    rw [q.name.wireLen_eq, nameOctets, List.length_append]
    rfl
  have header : m.writeHeader.buf.length = 12 := rfl
  have tail : m.tailOctets.length ≤ 11 := by
    rw [Message.tail_size]
    cases present : m.edns with
    | none => exact Nat.zero_le _
    | some edns =>
        dsimp only
        rw [options edns present]
        exact Nat.le_refl _
  rw [questionWriter_single single, List.length_append, List.length_append, header, questionOctets,
    List.length_append, octets, List.length_append, length_octets16, length_octets16]
  omega

namespace Message

/-- Over the limit, the truncated form is what is left if it fits, and at least the header fits. -/
theorem toWire_long {data : Octets} {cap : Nat} {compress : Bool} (encoded : m.encode compress = .ok data)
    (long : ¬data.length ≤ cap) (room : headerLen ≤ cap) : ∃ out, m.toWire (some cap) compress = .ok out ∧
      out.length ≤ cap ∧ ∀ short, m.truncated.encode compress = .ok short → short.length ≤ cap → out = short := by
  have first := encode_bare (m := m.truncated) ⟨rfl, rfl, rfl⟩ compress
  have second := encode_bare (m := ⟨m.id, m.flags ||| flagTc, m.questions, [], [], [], none⟩)
    ⟨rfl, rfl, rfl⟩ compress
  have third := encode_bare (m := ⟨m.id, m.flags ||| flagTc, [], [], [], [], none⟩) ⟨rfl, rfl, rfl⟩ compress
  have same {m' : Message} (octets : Octets) (written : m'.encode compress = .ok octets) (limit : Nat)
      (rest : Except EmitError Octets) :
      (m'.encode compress >>= fun data => if data.length ≤ limit then .ok data else rest) =
        if octets.length ≤ limit then .ok octets else rest := by
    rw [written]
    rfl
  have whole : m.toWire (some cap) compress = if data.length ≤ cap then .ok data else
      m.truncated.encode compress >>= fun data => if data.length ≤ cap then .ok data else
        (⟨m.id, m.flags ||| flagTc, m.questions, [], [], [], none⟩ : Message).encode compress >>= fun data =>
          if data.length ≤ cap then .ok data else
            (⟨m.id, m.flags ||| flagTc, [], [], [], [], none⟩ : Message).encode compress := by
    rw [← same data encoded]
    rfl
  rw [whole, if_neg long, same _ first, same _ second, first]
  split
  · next fits => exact ⟨_, rfl, fits, fun short written _ => Except.ok.inj written⟩
  · next none =>
      have never (short : Octets) (written : Except.ok ((m.truncated.questionWriter compress).buf ++
          m.truncated.tailOctets) = (.ok short : Except EmitError Octets)) (fits : short.length ≤ cap) : False := by
        rw [← Except.ok.inj written] at fits
        exact none fits
      split
      · next fits => exact ⟨_, rfl, fits, fun short written fits => (never short written fits).elim⟩
      · exact ⟨_, third, room, fun short written fits => (never short written fits).elim⟩

/-- The limit is kept, and what does not fit tells the client to ask again. -/
theorem toWire_limited : (∀ (m : Message) (data : Octets) (cap : Nat), headerLen ≤ cap → m.toWire = .ok data →
    ∃ out, m.toWire (some cap) = .ok out ∧ out.length ≤ cap ∧ (512 ≤ cap → ∀ q, m.questions = [q] →
      LegalName q.name → out = data ∨ ∃ back, parse out = .ok back ∧ m.Truncates back)) ∧
    ∀ query ours, 512 ≤ udpResponseLimit query ours := by
  refine ⟨fun m data cap room written => ?_, le_udpResponseLimit⟩
  have encoded : m.encode true = .ok data := by
    rw [toWire] at written
    cases done : m.encode true with
    | error e =>
        rw [done] at written
        cases written
    | ok octets =>
        rw [done] at written
        exact written
  by_cases fits : data.length ≤ cap
  · refine ⟨data, ?_, fits, fun _ q _ _ => .inl rfl⟩
    rw [toWire, encoded]
    exact if_pos fits
  · obtain ⟨out, sent, small, left⟩ := toWire_long encoded fits room
    refine ⟨out, sent, small, fun enough q single legal => .inr ⟨m.truncated, ?_, m.truncates_truncated⟩⟩
    have short := length_bare (m := m.truncated) single legal true m.truncated_options
    rw [left _ (encode_bare ⟨rfl, rfl, rfl⟩ true) (short.trans enough),
      questionWriter_single (m := m.truncated) single, List.append_assoc]
    exact parse_bare ⟨rfl, rfl, rfl⟩ single legal m.truncated_options

end Message

end

end Trench.Wire
