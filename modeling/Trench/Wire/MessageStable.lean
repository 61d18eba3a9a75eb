import Mathlib
import Trench.Wire.MessageRoundTrip

set_option autoImplicit false

/- Messages that were parsed, written again and parsed again. Octets kept raw under a
type with a reader are the delicate ones: at their new place that reader may accept
what stands there. -/
namespace Trench.Wire

open Cursor (Ensures Before raiseIf)
open Reader
open Rdata (LegalName InRange)

/-- What the parser knows of a record. Raw octets stand under a type without a
reader, or under a type without embedded names. -/
structure RR.Parsed (rr : RR) : Prop where
  legal : LegalName rr.name
  ttl : InRange 32 rr.ttl
  data : (rr.rdata.Typed ∧ rr.rdata.Fits ∧ rr.rdata.rdataType = rr.rtype) ∨
    ∃ octets : Octets, rr.rdata = .unknown rr.rtype octets ∧ octets.length ≤ 65535 ∧
      (Rdata.registry.lookup rr.rtype = none ∨ rr.rtype ∉ Rdata.nameBearing)

/-- `rr` holds raw octets although its type has a reader. -/
def KeptRaw (rr : RR) (codec : Nat → Read Rdata) : Prop :=
  Rdata.registry.lookup rr.rtype = some codec ∧ ∃ octets, rr.rdata = .unknown rr.rtype octets

/-- The data fits its length field, and raw octets are refused again by their
type's reader at the place they have. -/
def Settles (buf : Octets) (pos : Nat) (rr : RR) : Prop :=
  rr.rdata.octets.length ≤ 65535 ∧
    ∀ codec, KeptRaw rr codec → ∃ e, codec rr.rdata.octets.length ⟨buf, pos⟩ = .error e

/-! ### What the parser returns -/

theorem ensures_readUnknown (rtype : RRType) (n : Nat) :
    Ensures (Rdata.readUnknown rtype n) fun rd =>
      ∃ octets : Octets, rd = .unknown rtype octets ∧ octets.length = n :=
  (ensures_read n).bind fun octets width => .pure ⟨octets, rfl, by omega⟩

theorem ensures_parseRdata (rtype : RRType) (n : Nat) :
    Ensures (Rdata.parseRdata rtype n) fun rd =>
      (rd.Typed ∧ rd.Fits ∧ rd.rdataType = rtype) ∨
        ∃ octets : Octets, rd = .unknown rtype octets ∧ octets.length = n ∧
          (Rdata.registry.lookup rtype = none ∨ rtype ∉ Rdata.nameBearing) := by
  intro c rd next read
  rw [Rdata.parseRdata] at read
  split at read
  · next unregistered =>
      obtain ⟨octets, same, width⟩ := ensures_readUnknown rtype n c rd next read
      exact .inr ⟨octets, same, width, .inl unregistered⟩
  · next codec registered =>
      split at read
      · split at read
        · cases read
        · next inert =>
            obtain ⟨octets, same, width⟩ := ensures_readUnknown rtype n c rd next read
            exact .inr ⟨octets, same, width, .inr inert⟩
      · next value last decoded =>
          split at read
          · cases read
          · cases read
            exact .inl (Rdata.sound_of_lookup registered n c rd next decoded)

theorem ensures_readHead : Ensures readHead fun head => LegalName head.name :=
  ensures_readName.bind fun _ legal => Ensures.trivial.bind fun _ _ => Ensures.trivial.bind fun _ _ =>
    Ensures.trivial.bind fun _ _ => Ensures.trivial.bind fun _ _ => .pure legal

theorem ensures_readBody (head : RRHead) (legal : LegalName head.name) :
    Ensures (readBody head) fun rr => rr.Parsed ∧ rr.rtype = head.rtype := by
  refine Ensures.trivial.bind fun start _ => ?_
  refine (ensures_parseRdata head.rtype head.rdlen.toNat).bind fun rd known => ?_
  refine Ensures.trivial.bind fun _ _ => .pure ⟨⟨legal, Rdata.inRange_u32 head.ttl, ?_⟩, rfl⟩
  rcases known with typed | ⟨octets, same, width, inert⟩
  · exact .inl typed
  · have bound := head.rdlen.toNat_lt
    exact .inr ⟨octets, same, by omega, inert⟩

/-- The options of an OPT that was read can be written. -/
def GoodOptions (edns : Edns) : Prop :=
  (∀ option ∈ edns.options, option.2.length ≤ 65535) ∧ (optionsOctets edns.options).length ≤ 65535

theorem ensures_readOpt (head : RRHead) (edns : Option Edns) :
    Ensures (readOpt head edns) fun opt => edns = none ∧ GoodOptions opt := by
  refine Ensures.trivial.bind fun start _ => ?_
  refine Ensures.raiseIf.bind fun _ single => ?_
  refine (ensures_read _).bind fun data width => ?_
  refine Ensures.trivial.bind fun _ _ => .pure ⟨?_, ?_⟩
  · rw [not_or, Bool.not_eq_true, Option.isSome_eq_false_iff, Option.isNone_iff_eq_none] at single
    exact single.1
  · obtain ⟨total, short⟩ := parseOptions_bounds data
    have bound := head.rdlen.toNat_lt
    refine ⟨short, ?_⟩
    change (optionsOctets (parseOptions data)).length ≤ 65535
    omega

/-- What reading a section leaves: known records, an OPT only where one belongs, and
as many of both as the count said. -/
structure SectionParsed (owner : Bool) (n : Nat) (before : Option Edns) (rrs : List RR)
    (after : Option Edns) : Prop where
  records : ∀ rr ∈ rrs, rr.Parsed
  plain : owner = true → ∀ rr ∈ rrs, rr.rtype ≠ RRType.opt
  count : rrs.length + (if after.isSome then 1 else 0) = n + (if before.isSome then 1 else 0)
  options : (∀ edns, before = some edns → GoodOptions edns) →
    ∀ edns, after = some edns → GoodOptions edns

theorem ensures_readRRs (owner : Bool) (n : Nat) (edns : Option Edns) :
    Ensures (readRRs owner n edns) fun result =>
      SectionParsed owner n edns result.1 result.2 := by
  induction n generalizing edns with
  | zero =>
      exact .pure ⟨fun rr held => (by cases held), fun _ rr held => (by cases held),
        by simp, fun good => good⟩
  | succ n ih =>
      refine ensures_readHead.bind fun head legal => ?_
      split
      · refine (ensures_readOpt head edns).bind fun opt good => ?_
        refine (ih (some opt)).mono fun result known => ?_
        obtain ⟨rfl, options⟩ := good
        refine ⟨known.records, known.plain, ?_, fun _ => known.options fun e same => ?_⟩
        · have count := known.count
          simp only [Option.isSome_some, ↓reduceIte, Option.isSome_none, Bool.false_eq_true] at count ⊢
          omega
        · cases same
          exact options
      · next elsewhere =>
          refine (ensures_readBody head legal).bind fun rr parsed => ?_
          refine (ih edns).bind fun result known => .pure ?_
          refine ⟨List.forall_mem_cons.mpr ⟨parsed.1, known.records⟩, fun siphon =>
            List.forall_mem_cons.mpr ⟨?_, known.plain siphon⟩, ?_, known.options⟩
          · rw [parsed.2]
            exact fun opt => elsewhere ⟨opt, siphon⟩
          · have count := known.count
            change (rr :: result.1).length + (if result.2.isSome then 1 else 0) = _
            rw [List.length_cons]
            omega

theorem ensures_readQuestions (n : Nat) :
    Ensures (readQuestions n) fun questions =>
      questions.length = n ∧ ∀ q ∈ questions, LegalName q.name := by
  induction n with
  | zero => exact .pure ⟨rfl, fun q held => (by cases held)⟩
  | succ n ih =>
      have one : Ensures readQuestion fun q => LegalName q.name :=
        ensures_readName.bind fun _ legal => Ensures.trivial.bind fun _ _ =>
          Ensures.trivial.bind fun _ _ => .pure legal
      refine one.bind fun q legal => ih.bind fun questions known => .pure ?_
      exact ⟨congrArg (· + 1) known.1, List.forall_mem_cons.mpr ⟨legal, known.2⟩⟩

/-! ### Writing it again -/

theorem RR.Parsed.writable {rr : RR} (parsed : rr.Parsed) : rr.Writable := by
  refine ⟨parsed.legal, parsed.ttl, ?_⟩
  rcases parsed.data with ⟨typed, fits, -⟩ | ⟨octets, same, -, -⟩
  · exact emits_of_fits typed fits
  · exact ⟨octets, fun w => by rw [same, Rdata.emit]⟩

theorem octets_unknown (rtype : RRType) (data : Octets) :
    (Rdata.unknown rtype data).octets = data :=
  List.nil_append data

/-- Folding keeps raw octets raw. -/
theorem eq_unknown_of_fold {rd : Rdata} {rtype : RRType} {data : Octets}
    (same : rd.fold = (Rdata.unknown rtype data).fold) : rd = .unknown rtype data := by
  cases rd <;> simp_all [Rdata.fold]

theorem typed_of_fold {rd other : Rdata} (typed : other.Typed) (same : rd.fold = other.fold) :
    rd.Typed := by
  cases rd with
  | unknown rtype data =>
      rw [eq_unknown_of_fold same.symm] at typed
      exact typed
  | _ => exact True.intro

/-- Raw octets are read at their own length only. -/
theorem readUnknown_extent {rtype : RRType} {n : Nat} {c next : Reader} {data : Octets}
    (read : Rdata.readUnknown rtype n c = .ok (.unknown rtype data, next)) :
    n = data.length ∧ next = c.advance n := by
  obtain ⟨octets, last, taken, rest⟩ := Cursor.bind_eq_ok.mp read
  have width := ensures_read _ _ _ _ taken
  cases rest
  rw [Reader.read] at taken
  split at taken
  · cases taken
  · cases taken
    exact ⟨by omega, rfl⟩

/-- Only its own length gives back data of a class, or raw octets. -/
theorem determined_of_data {rr : RR}
    (data : (rr.rdata.Typed ∧ rr.rdata.Fits ∧ rr.rdata.rdataType = rr.rtype) ∨
      ∃ octets, rr.rdata = .unknown rr.rtype octets) : Determined rr := by
  intro n c next more rd before read same
  rcases data with ⟨typed, fits, kind⟩ | ⟨data, raw⟩
  · obtain ⟨codec, octets, registered, coded⟩ := Rdata.coded_of_fits typed fits
    rw [octets_of_coded coded] at before ⊢
    have isTyped := typed_of_fold typed same
    rw [Rdata.parseRdata, ← kind, registered] at read
    simp only at read
    split at read
    · split at read
      · cases read
      · obtain ⟨raw, rfl, -⟩ := ensures_readUnknown _ _ _ _ _ read
        exact isTyped.elim
    · next value last decoded =>
        split at read
        · cases read
        · next used =>
            cases read
            have stop := coded.extent n c next more rd before decoded same
            rw [not_not, stop, Cursor.advance_pos] at used
            rw [stop]
            obtain rfl : octets.length = n := by omega
            exact ⟨rfl, rfl⟩
  · rw [raw] at same before ⊢
    rw [octets_unknown] at before ⊢
    obtain rfl := eq_unknown_of_fold same
    rw [Rdata.parseRdata] at read
    split at read
    · exact readUnknown_extent read
    · next codec registered =>
        split at read
        · split at read
          · cases read
          · exact readUnknown_extent read
        · next value last decoded =>
            split at read
            · cases read
            · cases read
              exact (Rdata.sound_of_lookup registered n c _ next decoded).1.elim

theorem RR.Parsed.determined {rr : RR} (parsed : rr.Parsed) : Determined rr := by
  apply determined_of_data
  rcases parsed.data with typed | ⟨data, raw, -, -⟩
  · exact .inl typed
  · exact .inr ⟨data, raw⟩

/-- Raw octets land where their type has no reader, or one that refuses them and may. -/
theorem lands_raw_iff {rr : RR} {data : Octets} (raw : rr.rdata = .unknown rr.rtype data)
    {buf more : Octets} {pos : Nat} (before : Before ⟨buf, pos⟩ pos (data ++ more)) :
    Lands buf pos rr ↔ data.length ≤ 65535 ∧ ∀ codec, Rdata.registry.lookup rr.rtype = some codec →
      rr.rtype ∉ Rdata.nameBearing ∧ ∃ e, codec data.length ⟨buf, pos⟩ = .error e := by
  rw [Lands, raw, octets_unknown]
  apply and_congr_right
  intro _
  have reads := (parses_read pos data data.length rfl).bind_pure
    (f := fun d => Rdata.unknown rr.rtype d) _ more before
  constructor
  · intro ⟨rd, parsed, same⟩ codec registered
    obtain rfl := eq_unknown_of_fold same
    rw [Rdata.parseRdata, registered] at parsed
    simp only at parsed
    split at parsed
    · next e failed =>
        split at parsed
        · cases parsed
        · next inert => exact ⟨inert, e, failed⟩
    · next value last decoded =>
        split at parsed
        · cases parsed
        · cases parsed
          exact (Rdata.sound_of_lookup registered _ _ _ _ decoded).1.elim
  · intro refused
    refine ⟨.unknown rr.rtype data, ?_, rfl⟩
    rw [Rdata.parseRdata]
    split
    · exact reads
    · next codec registered =>
        obtain ⟨inert, e, failed⟩ := refused codec registered
        rw [failed]
        simp only [inert, ↓reduceIte]
        exact reads

/-- Data lands at its place exactly when it settles there. -/
theorem RR.Parsed.lands_iff {rr : RR} (parsed : rr.Parsed) {buf more : Octets} {pos : Nat}
    (before : Before ⟨buf, pos⟩ pos (rr.rdata.octets ++ more)) :
    Lands buf pos rr ↔ Settles buf pos rr := by
  rcases parsed.data with ⟨typed, fits, kind⟩ | ⟨data, raw, -, inert⟩
  · rw [Lands, Settles]
    apply and_congr_right
    intro short
    constructor
    · rintro - codec ⟨-, octets, raw⟩
      rw [raw] at typed
      exact typed.elim
    · intro _
      refine ⟨rr.rdata, ?_, rfl⟩
      rw [← kind]
      exact parseRdata_of_fits typed fits before
  · rw [raw, octets_unknown] at before
    rw [lands_raw_iff raw before, Settles, raw, octets_unknown]
    apply and_congr_right
    intro _
    constructor
    · intro refused codec ⟨registered, _⟩
      exact (refused codec registered).2
    · intro refused codec registered
      refine ⟨inert.resolve_left ?_, refused codec ⟨registered, data, raw⟩⟩
      rw [registered]
      exact Option.some_ne_none _

namespace Message

/-- A parsed message is within the limits of the format. -/
theorem parsed_of_parse {b : Octets} {m : Message} (read : Message.parse b = .ok m) :
    m.Writable ∧ ∀ rr ∈ m.records, rr.Parsed := by
  rw [Message.parse] at read
  split at read
  · cases read
  · split at read
    · next m' last reads =>
        cases read
        obtain ⟨header, c₀, -, reads⟩ := Cursor.bind_eq_ok.mp reads
        obtain ⟨questions, c₁, asked, reads⟩ := Cursor.bind_eq_ok.mp reads
        obtain ⟨⟨answers, e₁⟩, c₂, answered, reads⟩ := Cursor.bind_eq_ok.mp reads
        obtain ⟨⟨authority, e₂⟩, c₃, referred, reads⟩ := Cursor.bind_eq_ok.mp reads
        obtain ⟨⟨additional, edns⟩, c₄, added, reads⟩ := Cursor.bind_eq_ok.mp reads
        cases reads
        obtain ⟨count, legal⟩ := ensures_readQuestions _ _ _ _ asked
        have first := ensures_readRRs _ _ _ _ _ _ answered
        have second := ensures_readRRs _ _ _ _ _ _ referred
        have third := ensures_readRRs _ _ _ _ _ _ added
        have parsed : ∀ rr ∈ answers ++ authority ++ additional, rr.Parsed := by
          intro rr held
          rcases List.mem_append.mp held with held | held
          · rcases List.mem_append.mp held with held | held
            · exact first.records rr held
            · exact second.records rr held
          · exact third.records rr held
        have qd := header.qd.toNat_lt
        have an := header.an.toNat_lt
        have ns := header.ns.toNat_lt
        have ar := header.ar.toNat_lt
        have firstCount := first.count
        have secondCount := second.count
        have thirdCount := third.count
        simp only [Option.isSome_none, Bool.false_eq_true, ↓reduceIte] at firstCount
        simp only [Option.isSome_none, Bool.false_eq_true, ↓reduceIte] at secondCount
        simp only [Option.isSome_none, Bool.false_eq_true, ↓reduceIte] at thirdCount
        refine ⟨⟨⟨legal, fun rr held => (parsed rr held).writable, third.plain rfl⟩, ?_,
          third.options fun e none => (by cases none)⟩, parsed⟩
        simp only
        omega
    · cases read

/-- Every record's data settles at the place the writer gives it. -/
def Settled (m : Message) : Prop :=
  ∀ bytes, m.toWire = .ok bytes → m.EachPlaced true (Settles bytes)

/-- An OPT and behind it a TXT record whose only octet announces a string of five. -/
def cutShortTxt : Octets :=
  [0, 0, 0, 0, 0, 0, 0, 0, 0, 0, 0, 2,
   0, 0, 41, 4, 208, 0, 0, 0, 0, 0, 0,
   0, 0, 16, 0, 1, 0, 0, 0, 0, 0, 1, 5]

def cutShortMessage : Message where
  additional := [⟨Name.root, RRType.txt, RRClass.in, 0, .unknown RRType.txt [5]⟩]
  edns := some {}

theorem parse_cutShortTxt : Message.parse cutShortTxt = .ok cutShortMessage := by decide +kernel

end Message

end Trench.Wire
