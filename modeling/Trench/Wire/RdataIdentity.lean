import Mathlib
import Trench.Wire.RdataFields
import Trench.Wire.RecordRoundTrip

set_option autoImplicit false

/- Records are told apart by their text, and one record has one canonical form. -/
namespace Trench.Wire.Rdata

open Cursor (Before)
open Dnssec (b32encode)
open Fields (Moved first_inj last_inj)

/-! ### The canonical form -/

/-- The next names of an octet string in lower case, as far as they are whole. -/
def lowerNames : Nat → Nat → Octets → Octets
  | 0, _, data => data
  | _, 0, data => data
  | _, _, [] => []
  | fuel + 1, count + 1, len :: rest =>
      if len = 0 then 0 :: lowerNames fuel count rest
      else if len.toNat ≤ maxLabel then
        len :: ((rest.take len.toNat).map lowerOctet ++
          lowerNames fuel (count + 1) (rest.drop len.toNat))
      else len :: rest

/-- The types of RFC 4034 6.2 whose data stays octets here, each with the octets before
its first name and the number of its names: MD, MF, MB, MG, MR, MINFO, RP, AFSDB, RT,
SIG, PX, NXT, KX and A6. -/
def opaqueNames (rtype : RRType) (data : Octets) : Option (Nat × Nat) :=
  if rtype = 38 then
    let bits := (data.headD 0).toNat
    some (1 + (135 - bits) / 8, if bits = 0 then 0 else 1)
  else [(3, 0, 1), (4, 0, 1), (7, 0, 1), (8, 0, 1), (9, 0, 1), (14, 0, 2), (17, 0, 2), (18, 2, 1),
    (21, 2, 1), (24, 18, 1), (26, 2, 2), (30, 0, 1), (36, 2, 1)].lookup rtype

def lowerOpaque (rtype : RRType) (data : Octets) : Octets :=
  match opaqueNames rtype data with
  | some (skip, count) => data.take skip ++ lowerNames data.length count (data.drop skip)
  | none => data

/-- The embedded names of the types that RFC 4034 6.2 lists, in lower case. -/
def lowered : Rdata → Rdata
  | .ns name => .ns name.canonicalize
  | .cname name => .cname name.canonicalize
  | .ptr name => .ptr name.canonicalize
  | .dname name => .dname name.canonicalize
  | .soa d => .soa { d with mname := d.mname.canonicalize, rname := d.rname.canonicalize }
  | .mx d => .mx { d with exchange := d.exchange.canonicalize }
  | .srv d => .srv { d with target := d.target.canonicalize }
  | .naptr d => .naptr { d with replacement := d.replacement.canonicalize }
  | .rrsig d => .rrsig { d with signer := d.signer.canonicalize }
  | .nsec d => .nsec { d with nextName := d.nextName.canonicalize }
  | .unknown rtype data => .unknown rtype (lowerOpaque rtype data)
  | rd => rd

/-- The canonical wire form: names are never compressed in record data. -/
def canonical (rd : Rdata) : Octets := rd.lowered.octets

theorem legal_canonicalize {name : Name} (legal : LegalName name) : LegalName name.canonicalize := by
  rw [LegalName, Name.wireLen_of_lower (Name.lower_canonicalize name)]
  exact legal

theorem lowered_typed {rd : Rdata} (typed : rd.Typed) : rd.lowered.Typed := by
  cases rd <;> exact typed

theorem lowered_type (rd : Rdata) : rd.lowered.rdataType = rd.rdataType := by
  cases rd <;> rfl

theorem lowered_fits {rd : Rdata} (fits : rd.Fits) : rd.lowered.Fits := by
  cases rd with
  | ns name => exact legal_canonicalize fits
  | cname name => exact legal_canonicalize fits
  | ptr name => exact legal_canonicalize fits
  | dname name => exact legal_canonicalize fits
  | soa d => exact ⟨legal_canonicalize fits.1, legal_canonicalize fits.2.1, fits.2.2⟩
  | mx d => exact ⟨fits.1, legal_canonicalize fits.2⟩
  | srv d => exact ⟨fits.1, fits.2.1, fits.2.2.1, legal_canonicalize fits.2.2.2⟩
  | naptr d => exact ⟨fits.1, fits.2.1, fits.2.2.1, legal_canonicalize fits.2.2.2⟩
  | rrsig d => exact legal_canonicalize fits
  | nsec d => exact legal_canonicalize fits
  | _ => exact fits

/-! ### What the parser returns -/

/-- The parser can return this for data of the type. -/
def Parsed (rtype : RRType) (rd : Rdata) : Prop :=
  ∃ rdlen c next, parseRdata rtype rdlen c = .ok (rd, next)

/-- Octets kept raw: a registered reader refuses them somewhere. -/
structure Kept (rtype : RRType) (data : Octets) : Prop where
  refused : ∀ codec, registry.lookup rtype = some codec → ∃ c more e,
    Before c c.pos (data ++ more) ∧ codec data.length c = .error e

theorem readUnknown_ok {rtype : RRType} {rdlen : Nat} {c next : Reader} {rd : Rdata}
    (read : readUnknown rtype rdlen c = .ok (rd, next)) : ∃ data more : Octets,
      rd = .unknown rtype data ∧ data.length = rdlen ∧ Before c c.pos (data ++ more) := by
  obtain ⟨data, middle, first, rest⟩ := Cursor.bind_eq_ok.mp read
  have width := Reader.ensures_read _ _ _ _ first
  cases rest
  rw [Reader.read] at first
  split at first
  · cases first
  · next fits =>
      cases first
      have whole := c.rest.take_append_drop rdlen
      exact ⟨_, c.rest.drop rdlen, rfl, by omega, rfl, by omega, whole.symm⟩

theorem Parsed.cases {rtype : RRType} {rd : Rdata} (parsed : Parsed rtype rd) :
    (rd.Typed ∧ rd.Fits ∧ rd.rdataType = rtype) ∨
      ∃ data, rd = .unknown rtype data ∧ Kept rtype data := by
  obtain ⟨rdlen, c, next, read⟩ := parsed
  rw [parseRdata] at read
  split at read
  · next unregistered =>
      obtain ⟨data, more, rfl, -, -⟩ := readUnknown_ok read
      refine .inr ⟨data, rfl, ⟨fun codec found => ?_⟩⟩
      rw [unregistered] at found
      cases found
  · next codec found =>
      split at read
      · next e refused =>
          split at read
          · cases read
          · obtain ⟨data, more, rfl, width, before⟩ := readUnknown_ok read
            refine .inr ⟨data, rfl, ⟨fun other known => ?_⟩⟩
            rw [found, Option.some.injEq] at known
            rw [← known, width]
            exact ⟨c, more, e, before, refused⟩
      · next data after taken =>
          split at read
          · cases read
          · cases read
            exact .inl (sound_of_lookup found rdlen _ _ _ taken)

/-- What a reader refuses is no data that its class writes. -/
theorem Kept.ne_octets {rtype : RRType} {data : Octets} (kept : Kept rtype data) {rd : Rdata}
    (typed : rd.Typed) (fits : rd.Fits) (same : rd.rdataType = rtype) : rd.octets ≠ data := by
  intro equal
  obtain ⟨codec, octets, found, coded⟩ := coded_of_fits typed fits
  rw [same] at found
  obtain ⟨c, more, e, before, refused⟩ := kept.refused codec found
  have width := octets_of_coded coded
  rw [← equal, width] at before refused
  rw [coded.parsed c.pos c more before] at refused
  cases refused

theorem octets_inj {rd other : Rdata} (typed : rd.Typed) (fits : rd.Fits) (typed' : other.Typed)
    (fits' : other.Fits) (types : rd.rdataType = other.rdataType)
    (same : rd.octets = other.octets) : rd = other := by
  have start : Before (⟨rd.octets, 0⟩ : Reader) 0 (rd.octets ++ []) :=
    ⟨rfl, Nat.zero_le _, (List.append_nil _).symm⟩
  have first := parseRdata_of_fits typed fits start
  have start' : Before (⟨rd.octets, 0⟩ : Reader) 0 (other.octets ++ []) := same ▸ start
  have second := parseRdata_of_fits typed' fits' start'
  rw [← types, ← same, first] at second
  exact (Prod.mk.inj (Except.ok.inj second)).1

/-- The data of a registered type is not lowered as octets. -/
theorem lowerOpaque_registered {rd : Rdata} (typed : rd.Typed) (data : Octets) :
    lowerOpaque rd.rdataType data = data := by
  have none : opaqueNames rd.rdataType data = none := by
    cases rd <;> first | rfl | exact typed.elim
  rw [lowerOpaque, none]

theorem unknown_octets (rtype : RRType) (data : Octets) : (unknown rtype data).octets = data := rfl

theorem canonical_ne_kept {rtype : RRType} {rd : Rdata} {data : Octets} (typed : rd.Typed)
    (fits : rd.Fits) (type : rd.rdataType = rtype) (kept : Kept rtype data) :
    rd.canonical ≠ (unknown rtype data).canonical := by
  have raw : (unknown rtype data).canonical = data := by
    rw [canonical, lowered, unknown_octets, ← type, lowerOpaque_registered typed]
  rw [raw]
  exact kept.ne_octets (lowered_typed typed) (lowered_fits fits) ((lowered_type rd).trans type)

/-- Data of one type has one canonical form exactly when it is the same but for the letter
case of its names. -/
theorem canonical_eq_iff {rtype : RRType} {rd other : Rdata} (parsed : Parsed rtype rd)
    (parsed' : Parsed rtype other) : rd.canonical = other.canonical ↔ rd.lowered = other.lowered := by
  refine ⟨fun same => ?_, fun same => congrArg octets same⟩
  rcases parsed.cases with ⟨typed, fits, type⟩ | ⟨data, rfl, kept⟩
  · rcases parsed'.cases with ⟨typed', fits', type'⟩ | ⟨data, rfl, kept⟩
    · exact octets_inj (lowered_typed typed) (lowered_fits fits) (lowered_typed typed')
        (lowered_fits fits') (by rw [lowered_type, lowered_type, type, type']) same
    · exact absurd same (canonical_ne_kept typed fits type kept)
  · rcases parsed'.cases with ⟨typed', fits', type'⟩ | ⟨data', rfl, kept'⟩
    · exact absurd same.symm (canonical_ne_kept typed' fits' type' kept)
    · rw [canonical, canonical, lowered, lowered, unknown_octets, unknown_octets] at same
      rw [lowered, lowered, same]

/-! ### One text for two values -/

/-- `" "` between two quoted strings, and what stands between a tag and its value. -/
def quoteBlankQuote : Octets := [0x22, 0x20, 0x22]

def blankQuote : Octets := [0x20, 0x22]

/-- Two values whose texts differ in nothing that the text shows. Quoted strings are written
as they are, so another pair of strings may put the inner quotation marks elsewhere. A
transaction signature is written without its other data. -/
def Clash : Rdata → Rdata → Prop
  | .hinfo d, .hinfo e => Moved quoteBlankQuote d.cpu d.os e.cpu e.os
  | .caa d, .caa e => d.flags = e.flags ∧ Moved blankQuote d.tag d.value e.tag e.value
  | .naptr d, .naptr e => d.order = e.order ∧ d.preference = e.preference ∧
      d.replacement = e.replacement ∧
      (Moved quoteBlankQuote d.flags (d.service ++ (quoteBlankQuote ++ d.regexp))
          e.flags (e.service ++ (quoteBlankQuote ++ e.regexp)) ∨
        d.flags = e.flags ∧ Moved quoteBlankQuote d.service d.regexp e.service e.regexp)
  | .tsig d, .tsig e => d.other ≠ e.other ∧ { d with other := e.other } = e
  | _, _ => False

/-- A tag of ASCII octets, where there is a tag. -/
def AsciiTag : Rdata → Prop
  | .caa d => ∀ c ∈ d.tag, c < 0x80
  | _ => True

theorem toText_caa {d : CaaData} (ascii : ∀ c ∈ d.tag, c < 0x80) :
    (caa d).toText = .ok (joinSpaces [decimal d.flags, latin1 d.tag, quoted (latin1 d.value)]) :=
  if_pos (List.all_eq_true.mpr fun c held => decide_eq_true (ascii c held))

theorem toText_ok_iff (rd : Rdata) : (∃ t, rd.toText = .ok t) ↔ rd.AsciiTag := by
  cases rd with
  | caa d =>
      constructor
      · rintro ⟨t, text⟩
        rw [toText] at text
        split at text
        · next ascii => exact fun c held => of_decide_eq_true (List.all_eq_true.mp ascii c held)
        · cases text
      · exact fun ascii => ⟨_, toText_caa ascii⟩
  | unknown rtype data =>
      refine ⟨fun _ => True.intro, fun _ => ?_⟩
      rw [toText]
      split
      · exact ⟨_, rfl⟩
      · exact ⟨_, rfl⟩
  | _ => exact ⟨fun _ => True.intro, fun _ => ⟨_, rfl⟩⟩

/-- Two quoted strings are one string of octets in quotation marks. -/
theorem quoted_pair (s t : Octets) :
    joinSpaces [quoted (latin1 s), quoted (latin1 t)] =
      quoted (latin1 (s ++ (quoteBlankQuote ++ t))) := by
  simp only [joinSpaces, quoted, latin1_append, List.append_assoc, List.cons_append]
  rfl

theorem tagged_value (s t : Octets) :
    joinSpaces [latin1 s, quoted (latin1 t)] = latin1 (s ++ (blankQuote ++ t)) ++ ['"'] := by
  simp only [joinSpaces, quoted, latin1_append, List.append_assoc]
  rfl

theorem hinfo_cases {d e : HinfoData} (same : (hinfo d).toText = (hinfo e).toText) :
    d = e ∨ Clash (.hinfo d) (.hinfo e) := by
  obtain ⟨cpu, os⟩ := d
  have octets := latin1_inj (quoted_inj
    ((quoted_pair _ _).symm.trans ((Except.ok.inj same).trans (quoted_pair _ _))))
  rcases (Fields.joined_eq_iff _ _ _ _ _).mp octets with ⟨rfl, rfl⟩ | moved
  · exact .inl rfl
  · exact .inr moved

theorem caa_cases {d e : CaaData} (ascii : ∀ c ∈ d.tag, c < 0x80) (ascii' : ∀ c ∈ e.tag, c < 0x80)
    (same : (caa d).toText = (caa e).toText) : d = e ∨ Clash (.caa d) (.caa e) := by
  obtain ⟨flags, tag, value⟩ := d
  rw [toText_caa ascii, toText_caa ascii', Except.ok.injEq] at same
  obtain ⟨numbers, rest⟩ := joinSpaces_head (blank_notMem_decimal _) (blank_notMem_decimal _) same
  rw [tagged_value, tagged_value] at rest
  have octets := latin1_inj (List.append_cancel_right rest)
  have sameFlags : flags = e.flags := decimal_inj numbers
  rcases (Fields.joined_eq_iff _ _ _ _ _).mp octets with ⟨rfl, rfl⟩ | moved
  · rw [sameFlags]
    exact .inl rfl
  · exact .inr ⟨sameFlags, moved⟩

theorem quoted_triple (s t u : Octets) (last : Text) :
    joinSpaces [quoted (latin1 s), quoted (latin1 t), quoted (latin1 u), last] =
      quoted (latin1 (s ++ (quoteBlankQuote ++ (t ++ (quoteBlankQuote ++ u))))) ++ ' ' :: last := by
  simp only [joinSpaces, quoted, latin1_append, List.append_assoc, List.cons_append]
  rfl

theorem naptr_cases {d e : NaptrData} (same : (naptr d).toText = (naptr e).toText) :
    d = e ∨ Clash (.naptr d) (.naptr e) := by
  obtain ⟨order, preference, flags, service, regexp, replacement⟩ := d
  obtain ⟨orders, rest⟩ := joinSpaces_head (blank_notMem_decimal _) (blank_notMem_decimal _)
    (Except.ok.inj same)
  obtain ⟨preferences, rest⟩ := joinSpaces_head (blank_notMem_decimal _) (blank_notMem_decimal _) rest
  rw [quoted_triple, quoted_triple] at rest
  obtain ⟨strings, names⟩ := last_inj (blank_notMem_name _) (blank_notMem_name _) rest
  have octets := latin1_inj (quoted_inj strings)
  have sameOrder : order = e.order := by simpa [UInt16.toNat_inj] using orders
  have samePreference : preference = e.preference := by simpa [UInt16.toNat_inj] using preferences
  have sameName : replacement = e.replacement := Name.toText_inj names
  rcases (Fields.joined_eq_iff _ _ _ _ _).mp octets with ⟨rfl, tails⟩ | moved
  · rcases (Fields.joined_eq_iff _ _ _ _ _).mp tails with ⟨rfl, rfl⟩ | moved
    · rw [sameOrder, samePreference, sameName]
      exact .inl rfl
    · exact .inr ⟨sameOrder, samePreference, sameName, .inr ⟨rfl, moved⟩⟩
  · exact .inr ⟨sameOrder, samePreference, sameName, .inl moved⟩

theorem uri_inj {d e : UriData} (same : (uri d).toText = (uri e).toText) : d = e := by
  obtain ⟨priority, weight, target⟩ := d
  obtain ⟨priorities, rest⟩ := joinSpaces_head (blank_notMem_decimal _) (blank_notMem_decimal _)
    (Except.ok.inj same)
  obtain ⟨weights, rest⟩ := joinSpaces_head (blank_notMem_decimal _) (blank_notMem_decimal _) rest
  have samePriority : priority = e.priority := by simpa [UInt16.toNat_inj] using priorities
  have sameWeight : weight = e.weight := by simpa [UInt16.toNat_inj] using weights
  have sameTarget : target = e.target := latin1_inj (quoted_inj rest)
  rw [samePriority, sameWeight, sameTarget]

/-- A text of pieces without blanks tells the pieces. -/
theorem pieces_eq {parts others : List Text}
    (same : (.ok (joinSpaces parts) : Except TextError Text) = .ok (joinSpaces others))
    (count : parts.length = others.length)
    (left : ∀ part ∈ parts, ' ' ∉ part) (right : ∀ part ∈ others, ' ' ∉ part) : parts = others :=
  joinSpaces_inj count left right (Except.ok.inj same)

theorem tsig_cases {d e : TsigData} (same : (tsig d).toText = (tsig e).toText) :
    d = e ∨ Clash (.tsig d) (.tsig e) := by
  obtain ⟨algorithm, timeSigned, fudge, mac, originalId, error, other⟩ := d
  have parts := pieces_eq same rfl (by simp) (by simp)
  simp only [List.cons.injEq, name_eq_iff, decimal_eq_iff, b64encode_eq_iff, Nat.cast_inj,
    UInt16.toNat_inj, BitVec.toNat_inj, and_true] at parts
  obtain ⟨rfl, rfl, rfl, rfl, rfl, rfl⟩ := parts
  by_cases others : other = e.other
  · rw [others]
    exact .inl rfl
  · exact .inr ⟨others, rfl⟩

theorem ds_inj {d e : DsData} (same : dsText d = dsText e) : d = e := by
  obtain ⟨keyTag, algorithm, digestType, digest⟩ := d
  rw [dsText, dsText] at same
  have parts := pieces_eq (congrArg Except.ok same) rfl (by simp) (by simp)
  simp only [List.cons.injEq, decimal_eq_iff, upper_eq_iff, Nat.cast_inj, UInt16.toNat_inj,
    UInt8.toNat_inj, and_true] at parts
  obtain ⟨rfl, rfl, rfl, rfl⟩ := parts
  rfl

theorem dnskey_inj {d e : DnskeyData} (same : dnskeyText d = dnskeyText e) : d = e := by
  obtain ⟨flags, protocol, algorithm, publicKey⟩ := d
  rw [dnskeyText, dnskeyText] at same
  have parts := pieces_eq (congrArg Except.ok same) rfl (by simp) (by simp)
  simp only [List.cons.injEq, decimal_eq_iff, b64encode_eq_iff, Nat.cast_inj, UInt16.toNat_inj,
    UInt8.toNat_inj, and_true] at parts
  obtain ⟨rfl, rfl, rfl, rfl⟩ := parts
  rfl

theorem svcb_inj {d e : SvcbData} (same : svcbText d = svcbText e) : d = e := by
  obtain ⟨priority, target, params⟩ := d
  rw [svcbText, svcbText] at same
  have parts := pieces_eq (congrArg Except.ok same) rfl (by simp) (by simp)
  simp only [List.cons.injEq, decimal_eq_iff, name_eq_iff, hex_eq_iff, Nat.cast_inj,
    UInt16.toNat_inj, and_true] at parts
  obtain ⟨rfl, rfl, rfl⟩ := parts
  rfl

theorem soa_inj {d e : SoaData} (same : (soa d).toText = (soa e).toText) : d = e := by
  obtain ⟨mname, rname, serial, refresh, retry, expire, minimum⟩ := d
  have parts := pieces_eq same rfl (by simp) (by simp)
  simp only [List.cons.injEq, name_eq_iff, decimal_eq_iff, and_true] at parts
  obtain ⟨rfl, rfl, rfl, rfl, rfl, rfl, rfl⟩ := parts
  rfl

theorem rrsig_inj {d e : RrsigData} (same : (rrsig d).toText = (rrsig e).toText) : d = e := by
  obtain ⟨typeCovered, algorithm, labels, originalTtl, expiration, inception, keyTag, signer,
    signature⟩ := d
  have parts := pieces_eq same rfl (by simp) (by simp)
  simp only [List.cons.injEq, typeToText_eq_iff, decimal_eq_iff, name_eq_iff, b64encode_eq_iff,
    Nat.cast_inj, UInt8.toNat_inj, UInt16.toNat_inj, UInt32.toNat_inj, and_true] at parts
  obtain ⟨rfl, rfl, rfl, rfl, rfl, rfl, rfl, rfl, rfl⟩ := parts
  rfl

theorem nsec3_inj {d e : Nsec3Data} (same : (nsec3 d).toText = (nsec3 e).toText) : d = e := by
  obtain ⟨hashAlgorithm, flags, iterations, salt, nextHashed, typeBitmap⟩ := d
  have parts := pieces_eq same rfl (by simp) (by simp)
  simp only [List.cons.injEq, decimal_eq_iff, salt_eq_iff, b32encode_eq_iff, hex_eq_iff,
    Nat.cast_inj, UInt8.toNat_inj, UInt16.toNat_inj, and_true] at parts
  obtain ⟨rfl, rfl, rfl, rfl, rfl, rfl⟩ := parts
  rfl

/-- Typed data of one type with one text is one value, or its class does not show the
difference. -/
theorem text_cases {rd other : Rdata} (typed : rd.Typed) (typed' : other.Typed)
    (types : rd.rdataType = other.rdataType) (ascii : rd.AsciiTag) (ascii' : other.AsciiTag)
    (same : rd.toText = other.toText) : rd = other ∨ Clash rd other := by
  cases rd <;> cases other
  case hinfo.hinfo d e => exact (hinfo_cases same).imp_left (congrArg _)
  case caa.caa d e => exact (caa_cases ascii ascii' same).imp_left (congrArg _)
  case naptr.naptr d e => exact (naptr_cases same).imp_left (congrArg _)
  case tsig.tsig d e => exact (tsig_cases same).imp_left (congrArg _)
  case a.a address e => exact .inl (congrArg _ (Except.ok.inj same))
  case aaaa.aaaa address e => exact .inl (congrArg _ (Except.ok.inj same))
  case ns.ns name e => exact .inl (congrArg _ (Name.toText_inj (Except.ok.inj same)))
  case cname.cname name e => exact .inl (congrArg _ (Name.toText_inj (Except.ok.inj same)))
  case ptr.ptr name e => exact .inl (congrArg _ (Name.toText_inj (Except.ok.inj same)))
  case dname.dname name e => exact .inl (congrArg _ (Name.toText_inj (Except.ok.inj same)))
  case soa.soa d e => exact .inl (congrArg _ (soa_inj same))
  case txt.txt strings e => exact .inl (congrArg _ (txtText_inj (Except.ok.inj same)))
  case spf.spf strings e => exact .inl (congrArg _ (txtText_inj (Except.ok.inj same)))
  case ds.ds d e => exact .inl (congrArg _ (ds_inj (Except.ok.inj same)))
  case cds.cds d e => exact .inl (congrArg _ (ds_inj (Except.ok.inj same)))
  case dnskey.dnskey d e => exact .inl (congrArg _ (dnskey_inj (Except.ok.inj same)))
  case cdnskey.cdnskey d e => exact .inl (congrArg _ (dnskey_inj (Except.ok.inj same)))
  case svcb.svcb d e => exact .inl (congrArg _ (svcb_inj (Except.ok.inj same)))
  case https.https d e => exact .inl (congrArg _ (svcb_inj (Except.ok.inj same)))
  case rrsig.rrsig d e => exact .inl (congrArg _ (rrsig_inj same))
  case nsec3.nsec3 d e => exact .inl (congrArg _ (nsec3_inj same))
  case uri.uri d e => exact .inl (congrArg _ (uri_inj same))
  case mx.mx d e =>
    have parts := pieces_eq same rfl (by simp) (by simp)
    simp only [List.cons.injEq, decimal_eq_iff, name_eq_iff, and_true] at parts
    cases d
    cases e
    cases parts.1
    cases parts.2
    exact .inl rfl
  case srv.srv d e =>
    have parts := pieces_eq same rfl (by simp) (by simp)
    simp only [List.cons.injEq, decimal_eq_iff, name_eq_iff, and_true] at parts
    cases d
    cases e
    obtain ⟨rfl, rfl, rfl, rfl⟩ := parts
    exact .inl rfl
  case sshfp.sshfp d e =>
    have parts := pieces_eq same rfl (by simp) (by simp)
    simp only [List.cons.injEq, decimal_eq_iff, hex_eq_iff, Nat.cast_inj, UInt8.toNat_inj,
      and_true] at parts
    cases d
    cases e
    obtain ⟨rfl, rfl, rfl⟩ := parts
    exact .inl rfl
  case tlsa.tlsa d e =>
    have parts := pieces_eq same rfl (by simp) (by simp)
    simp only [List.cons.injEq, decimal_eq_iff, hex_eq_iff, Nat.cast_inj, UInt8.toNat_inj,
      and_true] at parts
    cases d
    cases e
    obtain ⟨rfl, rfl, rfl, rfl⟩ := parts
    exact .inl rfl
  case nsec.nsec d e =>
    have parts := pieces_eq same rfl (by simp) (by simp)
    simp only [List.cons.injEq, name_eq_iff, hex_eq_iff, and_true] at parts
    cases d
    cases e
    obtain ⟨rfl, rfl⟩ := parts
    exact .inl rfl
  case nsec3param.nsec3param d e =>
    have parts := pieces_eq same rfl (by simp) (by simp)
    simp only [List.cons.injEq, decimal_eq_iff, salt_eq_iff, Nat.cast_inj, UInt8.toNat_inj,
      UInt16.toNat_inj, and_true] at parts
    cases d
    cases e
    obtain ⟨rfl, rfl, rfl, rfl⟩ := parts
    exact .inl rfl
  case unknown.unknown => exact typed.elim
  all_goals
    first
      | exact typed.elim
      | exact typed'.elim
      | simp only [rdataType] at types
        exact absurd types (by decide)

/-! ### Octets kept raw -/

/-- What every text of raw octets starts with. -/
def rawMark : Text := ['\\', '#']

def Raw (t : Text) : Prop := ∃ rest, t = rawMark ++ ' ' :: rest

theorem raw_text (rtype : RRType) (data : Octets) :
    ∃ t, (unknown rtype data).toText = .ok t ∧ Raw t := by
  by_cases none : data = []
  · exact ⟨_, if_pos none, ['0'], rfl⟩
  · exact ⟨_, if_neg none, _, rfl⟩

theorem raw_inj {rtype : RRType} {data other : Octets}
    (same : (unknown rtype data).toText = (unknown rtype other).toText) : data = other := by
  rw [toText, toText] at same
  have blank (s : Octets) : ['\\', '#', ' ', '0'] ≠ joinSpaces [rawMark, decimal s.length, hex s] := by
    intro bad
    have tails : ['0'] = decimal s.length ++ ' ' :: hex s :=
      (first_inj (by decide) (by decide) (show rawMark ++ ' ' :: ['0'] = _ from bad)).2
    have held : ' ' ∈ ['0'] := by
      rw [tails]
      exact List.mem_append_right _ List.mem_cons_self
    exact absurd held (by decide)
  split at same
  · next left =>
      split at same
      · next right => rw [left, right]
      · exact absurd (Except.ok.inj same) (blank other)
  · split at same
    · exact absurd (Except.ok.inj same).symm (blank data)
    · have parts := pieces_eq same rfl (by simp) (by simp)
      simp only [List.cons.injEq, hex_eq_iff, and_true] at parts
      exact parts.2.2

theorem not_raw_plain {t : Text} (free : ' ' ∉ t) : ¬ Raw t := by
  rintro ⟨rest, rfl⟩
  exact free (List.mem_append_right _ List.mem_cons_self)

theorem not_raw_piece {part second : Text} {more : List Text} (free : ' ' ∉ part)
    (other : part ≠ rawMark) : ¬ Raw (joinSpaces (part :: second :: more)) := by
  rintro ⟨rest, same⟩
  exact other (first_inj free (by decide) same).1

theorem not_raw_quoted {t : Text} : ¬ Raw ('"' :: t) := by
  rintro ⟨rest, same⟩
  cases same

theorem decimal_ne_rawMark (v : Int) : decimal v ≠ rawMark := by
  intro same
  have held : '#' ∈ decimal v := by
    rw [same]
    decide
  exact absurd (mem_decimal held) (by decide)

theorem name_ne_rawMark (name : Name) : name.toText ≠ rawMark := by
  intro same
  have last : name.toText.getLast? = some '.' := by
    simp only [Name.toText, Bool.false_eq_true, ↓reduceIte]
    split
    · rfl
    · exact List.getLast?_concat
  rw [same] at last
  exact absurd last (by decide)

theorem typeText_ne_rawMark : ∀ entry ∈ RRType.typeText, entry.2.toList ≠ rawMark := by
  decide +kernel

theorem type_ne_rawMark (t : RRType) : RRType.toText t ≠ rawMark := by
  rw [RRType.toText]
  split
  · next text found => exact typeText_ne_rawMark _ (typeText_lookup found)
  · intro same
    exact absurd (List.head_eq_of_cons_eq same) (by decide)

theorem not_raw_txt (strings : List Octets) : ¬ Raw (txtText strings) := by
  rw [txtText_eq]
  cases strings with
  | nil => exact not_raw_plain List.not_mem_nil
  | cons s rest => exact not_raw_quoted

/-- No text of a class reads like raw octets. -/
theorem not_raw {rd : Rdata} {t : Text} (typed : rd.Typed) (fits : rd.Fits)
    (text : rd.toText = .ok t) : ¬ Raw t := by
  have number {v : Int} {second : Text} {more : List Text} :
      ¬ Raw (joinSpaces (decimal v :: second :: more)) :=
    not_raw_piece (blank_notMem_decimal v) (decimal_ne_rawMark v)
  have called {name : Name} {second : Text} {more : List Text} :
      ¬ Raw (joinSpaces (name.toText :: second :: more)) :=
    not_raw_piece (blank_notMem_name name) (name_ne_rawMark name)
  cases rd with
  | a address =>
      obtain ⟨octets, -, rfl⟩ := fits
      cases text
      exact not_raw_plain (blank_notMem_inetNtop4 octets)
  | aaaa address =>
      obtain ⟨octets, -, rfl⟩ := fits
      cases text
      exact not_raw_plain (blank_notMem_inetNtop6 octets)
  | ns name =>
      cases text
      exact not_raw_plain (blank_notMem_name name)
  | cname name =>
      cases text
      exact not_raw_plain (blank_notMem_name name)
  | ptr name =>
      cases text
      exact not_raw_plain (blank_notMem_name name)
  | dname name =>
      cases text
      exact not_raw_plain (blank_notMem_name name)
  | soa d =>
      cases text
      exact called
  | nsec d =>
      cases text
      exact called
  | tsig d =>
      cases text
      exact called
  | txt strings =>
      cases text
      exact not_raw_txt strings
  | spf strings =>
      cases text
      exact not_raw_txt strings
  | hinfo d =>
      cases text
      exact not_raw_quoted
  | rrsig d =>
      cases text
      exact not_raw_piece (blank_notMem_type _) (type_ne_rawMark _)
  | caa d =>
      rw [toText] at text
      split at text
      · cases text
        exact number
      · cases text
  | unknown rtype data => exact typed.elim
  | _ =>
      cases text
      exact number

/-! ### Identity by text -/

theorem Clash.text {rd other : Rdata} (clash : Clash rd other) (ascii : rd.AsciiTag)
    (ascii' : other.AsciiTag) : rd.toText = other.toText := by
  unfold Clash at clash
  split at clash
  · next d e =>
      have octets := (Fields.joined_eq_iff _ _ _ _ _).mpr (.inr clash)
      rw [toText, toText, quoted_pair, quoted_pair, octets]
  · next d e =>
      have octets := (Fields.joined_eq_iff _ _ _ _ _).mpr (.inr clash.2)
      rw [toText_caa ascii, toText_caa ascii', joinSpaces_cons, tagged_value, joinSpaces_cons,
        tagged_value, octets, clash.1]
  · next d e =>
      obtain ⟨order, preference, replacement, moved⟩ := clash
      have octets : d.flags ++ (quoteBlankQuote ++ (d.service ++ (quoteBlankQuote ++ d.regexp))) =
          e.flags ++ (quoteBlankQuote ++ (e.service ++ (quoteBlankQuote ++ e.regexp))) := by
        rcases moved with moved | ⟨flags, moved⟩
        · exact (Fields.joined_eq_iff _ _ _ _ _).mpr (.inr moved)
        · rw [flags, (Fields.joined_eq_iff _ _ _ _ _).mpr (.inr moved)]
      rw [toText, toText, joinSpaces_cons, joinSpaces_cons, quoted_triple, joinSpaces_cons,
        joinSpaces_cons, quoted_triple, octets, order, preference, replacement]
  · next d e =>
      rw [← clash.2]
      rfl
  · exact clash.elim

theorem Clash.lowered_ne {rd other : Rdata} (clash : Clash rd other) :
    rd.lowered ≠ other.lowered := by
  intro same
  unfold Clash at clash
  split at clash
  · next d e => exact clash.cut_ne (congrArg HinfoData.cpu (Rdata.hinfo.inj same))
  · next d e => exact clash.2.cut_ne (congrArg CaaData.tag (Rdata.caa.inj same))
  · next d e =>
      have fields := Rdata.naptr.inj same
      rcases clash.2.2.2 with moved | ⟨-, moved⟩
      · exact moved.cut_ne (NaptrData.mk.inj fields).2.2.1
      · exact moved.cut_ne (NaptrData.mk.inj fields).2.2.2.1
  · next d e => exact clash.1 (congrArg TsigData.other (Rdata.tsig.inj same))
  · exact clash.elim

theorem text_eq_iff {rtype : RRType} {rd other : Rdata} (parsed : Parsed rtype rd)
    (parsed' : Parsed rtype other) (ascii : rd.AsciiTag) (ascii' : other.AsciiTag) :
    rd.toText = other.toText ↔ rd = other ∨ Clash rd other := by
  constructor
  · intro same
    rcases parsed.cases with ⟨typed, fits, type⟩ | ⟨data, rfl, -⟩
    · rcases parsed'.cases with ⟨typed', -, type'⟩ | ⟨data, rfl, -⟩
      · exact text_cases typed typed' (type.trans type'.symm) ascii ascii' same
      · obtain ⟨t, text, raw⟩ := raw_text rtype data
        exact absurd raw (not_raw typed fits (same.trans text))
    · rcases parsed'.cases with ⟨typed', fits', -⟩ | ⟨data', rfl, -⟩
      · obtain ⟨t, text, raw⟩ := raw_text rtype data
        exact absurd raw (not_raw typed' fits' (same.symm.trans text))
      · exact .inl (congrArg _ (raw_inj same))
  · rintro (rfl | clash)
    · rfl
    · exact clash.text ascii ascii'

/-- Both have a text, and it is one text exactly when the canonical form is one. -/
def Told (rd other : Rdata) : Prop :=
  ∃ t u, rd.toText = .ok t ∧ other.toText = .ok u ∧ (t = u ↔ rd.canonical = other.canonical)

/-- Nothing comes between the values and their texts: no tag that is not ASCII, no
difference in the letter case of embedded names alone, none that the text leaves out. -/
structure Plain (rd other : Rdata) : Prop where
  ascii : rd.AsciiTag
  ascii' : other.AsciiTag
  spelled : rd.lowered = other.lowered → rd = other
  shown : ¬ Clash rd other

/-- Data of one type is told apart by its text, as its canonical form tells it apart, just
where nothing comes between. -/
theorem told_iff_plain {rtype : RRType} {rd other : Rdata} (parsed : Parsed rtype rd)
    (parsed' : Parsed rtype other) : Told rd other ↔ Plain rd other := by
  constructor
  · rintro ⟨t, u, left, right, same⟩
    have ascii := (toText_ok_iff rd).mp ⟨t, left⟩
    have ascii' := (toText_ok_iff other).mp ⟨u, right⟩
    have texts := text_eq_iff parsed parsed' ascii ascii'
    rw [left, right, Except.ok.injEq] at texts
    rw [canonical_eq_iff parsed parsed', texts] at same
    have shown : ¬ Clash rd other := fun clash => clash.lowered_ne (same.mp (.inr clash))
    exact ⟨ascii, ascii', fun equal => (same.mpr equal).resolve_right shown, shown⟩
  · rintro ⟨ascii, ascii', spelled, shown⟩
    obtain ⟨t, left⟩ := (toText_ok_iff rd).mpr ascii
    obtain ⟨u, right⟩ := (toText_ok_iff other).mpr ascii'
    have texts := text_eq_iff parsed parsed' ascii ascii'
    rw [left, right, Except.ok.injEq] at texts
    refine ⟨t, u, left, right, ?_⟩
    rw [canonical_eq_iff parsed parsed', texts]
    constructor
    · exact fun same => congrArg lowered (same.resolve_right shown)
    · exact fun equal => .inl (spelled equal)

/-- What the parser makes of these octets. -/
def readFrom (rtype : RRType) (data : Octets) : Option Rdata :=
  (parseRdata rtype data.length ⟨data, 0⟩).toOption.map Prod.fst

theorem parsed_of_readFrom {rtype : RRType} {data : Octets} {rd : Rdata}
    (read : readFrom rtype data = some rd) : Parsed rtype rd := by
  rw [readFrom] at read
  cases result : parseRdata rtype data.length ⟨data, 0⟩ with
  | error e =>
      rw [result] at read
      cases read
  | ok taken =>
      rw [result] at read
      cases read
      exact ⟨_, _, taken.2, result⟩

theorem hosts_read : Parsed RRType.hinfo (.hinfo ⟨[0x61], [0x62]⟩) ∧
    Parsed RRType.hinfo (.hinfo ⟨[0x61], [0x63]⟩) :=
  ⟨parsed_of_readFrom (show readFrom _ [1, 0x61, 1, 0x62] = _ by decide +kernel),
    parsed_of_readFrom (show readFrom _ [1, 0x61, 1, 0x63] = _ by decide +kernel)⟩

theorem told_hosts : Told (.hinfo ⟨[0x61], [0x62]⟩) (.hinfo ⟨[0x61], [0x63]⟩) :=
  (told_iff_plain hosts_read.1 hosts_read.2).mpr
    ⟨True.intro, True.intro, fun same => same, fun moved => moved.cut_ne rfl⟩

/-- Two different hosts have one text, one server name has two, and a tag with an octet
above 127 has none. -/
theorem text_misses :
    (readFrom RRType.hinfo [1, 0x61, 5, 0x62, 0x22, 0x20, 0x22, 0x63] =
        some (.hinfo ⟨[0x61], [0x62, 0x22, 0x20, 0x22, 0x63]⟩) ∧
      readFrom RRType.hinfo [5, 0x61, 0x22, 0x20, 0x22, 0x62, 1, 0x63] =
        some (.hinfo ⟨[0x61, 0x22, 0x20, 0x22, 0x62], [0x63]⟩) ∧
      ¬ Told (.hinfo ⟨[0x61], [0x62, 0x22, 0x20, 0x22, 0x63]⟩)
        (.hinfo ⟨[0x61, 0x22, 0x20, 0x22, 0x62], [0x63]⟩)) ∧
    (∃ small large, readFrom RRType.ns [1, 0x61, 0] = some small ∧
      readFrom RRType.ns [1, 0x41, 0] = some large ∧ ¬ Told small large) ∧
    (readFrom RRType.caa [0, 1, 0xE9] = some (.caa ⟨0, [0xE9], []⟩) ∧
      toText (.caa ⟨0, [0xE9], []⟩) = .error .decode) := by
  refine ⟨⟨by decide +kernel, by decide +kernel, ?_⟩,
    ⟨.ns ⟨[⟨[0x61], by decide, by decide⟩]⟩, .ns ⟨[⟨[0x41], by decide, by decide⟩]⟩,
      by decide +kernel, by decide +kernel, ?_⟩, by decide +kernel, by decide +kernel⟩
  · rintro ⟨t, u, left, right, same⟩
    have texts : t = u := by
      have both : toText (.hinfo ⟨[0x61], [0x62, 0x22, 0x20, 0x22, 0x63]⟩) =
          toText (.hinfo ⟨[0x61, 0x22, 0x20, 0x22, 0x62], [0x63]⟩) := by decide +kernel
      rw [left, right] at both
      exact Except.ok.inj both
    exact absurd (same.mp texts) (by decide +kernel)
  · rintro ⟨t, u, left, right, same⟩
    have forms : canonical (.ns ⟨[⟨[0x61], by decide, by decide⟩]⟩) =
        canonical (.ns ⟨[⟨[0x41], by decide, by decide⟩]⟩) := by decide +kernel
    have texts := same.mpr forms
    cases left
    cases right
    exact absurd texts (by decide +kernel)

end Trench.Wire.Rdata
