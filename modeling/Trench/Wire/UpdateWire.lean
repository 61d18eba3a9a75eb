import Mathlib
import Trench.Wire.MessageStable

set_option autoImplicit false

/- UPDATE messages on the wire. Many of their records have no data, whatever their type,
and it depends on the type's reader whether it leaves the octets behind them alone. -/
namespace Trench.Wire

open Cursor (Before Parser)
open Reader
open Rdata (LegalName InRange)

/-! ### Records without data -/

/-- What a record of RDLENGTH 0 holds: no octets, for a text no strings. -/
def emptyData (rtype : RRType) : Rdata :=
  if rtype = RRType.txt then .txt []
  else if rtype = RRType.spf then .spf []
  else .unknown rtype []

/-- Data that is valid for the record's type. -/
def RR.Valid (rr : RR) : Prop :=
  (rr.rdata.Typed ∧ rr.rdata.Fits ∧ rr.rdata.rdataType = rr.rtype) ∨
    (∃ octets, rr.rdata = .unknown rr.rtype octets) ∧ Rdata.registry.lookup rr.rtype = none

namespace Message

/-- An UPDATE message: prerequisites of class ANY or NONE have no data, updates of class
ANY have none, and everything else has data valid for its type. -/
structure IsUpdate (m : Message) : Prop where
  questions : ∀ q ∈ m.questions, LegalName q.name
  names : ∀ rr ∈ m.records, LegalName rr.name
  ttls : ∀ rr ∈ m.records, InRange 32 rr.ttl
  prerequisites : ∀ rr ∈ m.answers, if rr.rclass = RRClass.any ∨ rr.rclass = RRClass.none
    then rr.rdata = emptyData rr.rtype else rr.Valid
  updates : ∀ rr ∈ m.authority, if rr.rclass = RRClass.any
    then rr.rdata = emptyData rr.rtype else rr.Valid
  others : ∀ rr ∈ m.additional, rr.Valid
  sizes : ∀ rr ∈ m.records, rr.rdata.octets.length ≤ 65535
  plain : ∀ rr ∈ m.additional, rr.rtype ≠ RRType.opt
  counts : m.questions.length ≤ 65535 ∧ m.answers.length ≤ 65535 ∧ m.authority.length ≤ 65535 ∧
    m.additional.length + (if m.edns.isSome then 1 else 0) ≤ 65535
  options : ∀ edns, m.edns = some edns → (∀ option ∈ edns.options, option.2.length ≤ 65535) ∧
    (optionsOctets edns.options).length ≤ 65535

end Message

/-- The types whose reader neither looks at the length nor minds its octets raw. -/
def looseReaders : List (RRType × (Nat → Read Rdata)) :=
  [(RRType.hinfo, Rdata.parseHinfo), (RRType.nsec3param, Rdata.parseNsec3param),
   (RRType.tsig, Rdata.parseTsigRdata)]

/-- A record without data is left alone: its type has no names in its data, and where its
reader does not look at the length, it finds no such data in what follows. -/
def Spared (buf : Octets) (pos : Nat) (rr : RR) : Prop :=
  rr.rdata = .unknown rr.rtype [] →
    (rr.rtype ∈ Rdata.nameBearing → Rdata.registry.lookup rr.rtype = none) ∧
      ∀ reader ∈ looseReaders, reader.1 = rr.rtype → ∃ e, reader.2 0 ⟨buf, pos⟩ = .error e

/-! ### Readers that refuse -/

section Refused

variable {α β : Type} {p : Read α} {f : α → Read β} {c : Reader}

/-- A sequence fails where every way through its first part leads to a failure. -/
theorem refused_bind (rest : ∀ v next, p c = .ok (v, next) → ∃ e, f v next = .error e) :
    ∃ e, (p >>= f) c = .error e := by
  cases first : p c with
  | error e => exact ⟨e, Cursor.bind_error first⟩
  | ok both =>
      obtain ⟨v, next⟩ := both
      rw [Cursor.bind_ok first]
      exact rest v next first

theorem refused_left (first : ∃ e, p c = .error e) : ∃ e, (p >>= f) c = .error e := by
  obtain ⟨e, failed⟩ := first
  exact ⟨e, Cursor.bind_error failed⟩

end Refused

theorem read_negative {n : Int} (negative : n < 0) (c : Reader) : ∃ e, read n c = .error e := by
  rw [Reader.read, if_pos (.inl negative)]
  exact ⟨_, rfl⟩

theorem readTo_behind {stop : Nat} {c : Reader} (behind : stop < c.pos) :
    ∃ e, Rdata.readTo stop c = .error e := by
  apply refused_bind
  intro here next told
  cases told
  apply read_negative
  omega

theorem u8_pos {c next : Reader} {v : UInt8} (taken : u8 c = .ok (v, next)) :
    next.pos = c.pos + 1 := by
  rw [u8] at taken
  split at taken
  · cases taken
    rfl
  · cases taken

theorem u16_pos {c next : Reader} {v : UInt16} (taken : u16 c = .ok (v, next)) :
    next.pos = c.pos + 2 := by
  rw [u16] at taken
  split at taken
  · cases taken
    rfl
  · cases taken

theorem read_pos {n : Int} {c next : Reader} {data : Octets} (taken : read n c = .ok (data, next)) :
    c.pos ≤ next.pos := by
  rw [Reader.read] at taken
  split at taken
  · cases taken
  · cases taken
    exact Nat.le_add_right _ _

theorem readCounted_pos {c next : Reader} {data : Octets}
    (taken : Rdata.readCounted c = .ok (data, next)) : c.pos < next.pos := by
  obtain ⟨n, middle, first, second⟩ := Cursor.bind_eq_ok.mp taken
  have forward := u8_pos first
  have further := read_pos second
  omega

theorem parseCaa_zero (c : Reader) : ∃ e, Rdata.parseCaa 0 c = .error e := by
  apply refused_bind
  intro here c₀ told
  cases told
  apply refused_bind
  intro flags c₁ first
  apply refused_bind
  intro tag c₂ second
  apply refused_left
  apply readTo_behind
  have forward := u8_pos first
  have further := readCounted_pos second
  omega

theorem parseNsec3_zero (c : Reader) : ∃ e, Rdata.parseNsec3 0 c = .error e := by
  apply refused_bind
  intro here c₀ told
  cases told
  apply refused_bind
  intro algorithm c₁ first
  apply refused_bind
  intro flags c₂ second
  apply refused_bind
  intro iterations c₃ third
  apply refused_bind
  intro salt c₄ fourth
  apply refused_bind
  intro hashed c₅ fifth
  apply refused_left
  apply readTo_behind
  have ends := u8_pos first
  have next := u8_pos second
  have wide := u16_pos third
  have salted := readCounted_pos fourth
  have forward := readCounted_pos fifth
  omega

theorem parseSshfp_zero (c : Reader) : ∃ e, Rdata.parseSshfp 0 c = .error e := by
  apply refused_bind
  intro algorithm c₁ _
  apply refused_bind
  intro kind c₂ _
  exact refused_left (read_negative (by decide) c₂)

theorem parseTlsa_zero (c : Reader) : ∃ e, Rdata.parseTlsa 0 c = .error e := by
  apply refused_bind
  intro usage c₁ _
  apply refused_bind
  intro selector c₂ _
  apply refused_bind
  intro mtype c₃ _
  exact refused_left (read_negative (by decide) c₃)

theorem parseDs_zero (make : DsData → Rdata) (c : Reader) :
    ∃ e, Rdata.parseDs make 0 c = .error e := by
  apply refused_bind
  intro tag c₁ _
  apply refused_bind
  intro algorithm c₂ _
  apply refused_bind
  intro kind c₃ _
  exact refused_left (read_negative (by decide) c₃)

theorem parseDnskey_zero (make : DnskeyData → Rdata) (c : Reader) :
    ∃ e, Rdata.parseDnskey make 0 c = .error e := by
  apply refused_bind
  intro flags c₁ _
  apply refused_bind
  intro protocol c₂ _
  apply refused_bind
  intro algorithm c₃ _
  exact refused_left (read_negative (by decide) c₃)

theorem parseUri_zero (c : Reader) : ∃ e, Rdata.parseUri 0 c = .error e := by
  apply refused_bind
  intro priority c₁ _
  apply refused_bind
  intro weight c₂ _
  exact refused_left (read_negative (by decide) c₂)

/-- A registered type is one with names, a text, one whose reader is loose, or one whose
reader refuses to read nothing. -/
theorem reader_zero {rtype : RRType} {codec : Nat → Read Rdata}
    (registered : Rdata.registry.lookup rtype = some codec) :
    rtype ∈ Rdata.nameBearing ∨ rtype = RRType.txt ∨ rtype = RRType.spf ∨
      (rtype, codec) ∈ looseReaders ∨ ∀ c, ∃ e, codec 0 c = .error e := by
  have held := Rdata.lookup_mem registered
  simp only [Rdata.registry, List.mem_cons, Prod.mk.injEq, List.not_mem_nil, or_false] at held
  rcases held with h | h | h | h | h | h | h | h | h | h | h | h | h | h | h | h | h | h | h | h | h | h |
    h | h | h | h | h | h
  all_goals obtain ⟨rfl, rfl⟩ := h
  all_goals first
    | exact .inl (by decide)
    | exact .inr (.inl rfl)
    | exact .inr (.inr (.inl rfl))
    | skip
  · exact .inr (.inr (.inr (.inr fun c => ⟨_, rfl⟩)))
  · exact .inr (.inr (.inr (.inr fun c => ⟨_, rfl⟩)))
  · exact .inr (.inr (.inr (.inl List.mem_cons_self)))
  · exact .inr (.inr (.inr (.inr parseCaa_zero)))
  · exact .inr (.inr (.inr (.inr parseSshfp_zero)))
  · exact .inr (.inr (.inr (.inr parseTlsa_zero)))
  · exact .inr (.inr (.inr (.inr (parseDs_zero .ds))))
  · exact .inr (.inr (.inr (.inr (parseDs_zero .cds))))
  · exact .inr (.inr (.inr (.inr (parseDnskey_zero .dnskey))))
  · exact .inr (.inr (.inr (.inr (parseDnskey_zero .cdnskey))))
  · exact .inr (.inr (.inr (.inr parseNsec3_zero)))
  · exact .inr (.inr (.inr (.inl (List.mem_cons_of_mem _ List.mem_cons_self))))
  · exact .inr (.inr (.inr (.inr parseUri_zero)))
  · exact .inr (.inr (.inr (.inl (List.mem_cons_of_mem _ (List.mem_cons_of_mem _
      List.mem_cons_self)))))

/-! ### What comes back -/

theorem emptyData_octets (rtype : RRType) : (emptyData rtype).octets = [] := by
  rw [emptyData]
  split
  · rfl
  · split <;> rfl

/-- Data of an update, or none. -/
def RR.Sent (rr : RR) : Prop := rr.Valid ∨ rr.rdata = emptyData rr.rtype

/-- A text without strings is valid data. -/
theorem RR.Sent.cases {rr : RR} (sent : rr.Sent) :
    rr.Valid ∨ (rr.rdata = .unknown rr.rtype [] ∧ rr.rtype ≠ RRType.txt ∧ rr.rtype ≠ RRType.spf) := by
  rcases sent with valid | empty
  · exact .inl valid
  · rw [emptyData] at empty
    by_cases isTxt : rr.rtype = RRType.txt
    · rw [if_pos isTxt] at empty
      refine .inl (.inl ?_)
      rw [empty, isTxt]
      exact ⟨True.intro, fun s held => (by cases held), rfl⟩
    · rw [if_neg isTxt] at empty
      by_cases isSpf : rr.rtype = RRType.spf
      · rw [if_pos isSpf] at empty
        refine .inl (.inl ?_)
        rw [empty, isSpf]
        exact ⟨True.intro, fun s held => (by cases held), rfl⟩
      · rw [if_neg isSpf] at empty
        exact .inr ⟨empty, isTxt, isSpf⟩

theorem RR.Sent.data {rr : RR} (sent : rr.Sent) :
    (rr.rdata.Typed ∧ rr.rdata.Fits ∧ rr.rdata.rdataType = rr.rtype) ∨
      ∃ octets, rr.rdata = .unknown rr.rtype octets := by
  rcases sent.cases with (typed | ⟨raw, _⟩) | ⟨empty, _⟩
  · exact .inl typed
  · exact .inr raw
  · exact .inr ⟨[], empty⟩

/-- A record of an update lands exactly where it is spared. -/
theorem RR.Sent.lands_iff {rr : RR} (sent : rr.Sent) (short : rr.rdata.octets.length ≤ 65535)
    {buf more : Octets} {pos : Nat} (before : Before ⟨buf, pos⟩ pos (rr.rdata.octets ++ more)) :
    Lands buf pos rr ↔ Spared buf pos rr := by
  rcases sent.cases with (⟨typed, fits, kind⟩ | ⟨⟨octets, raw⟩, unregistered⟩) | ⟨empty, notTxt, notSpf⟩
  · have lands : Lands buf pos rr := by
      refine ⟨short, rr.rdata, ?_, rfl⟩
      rw [← kind]
      exact parseRdata_of_fits typed fits before
    have spared : Spared buf pos rr := by
      intro raw
      rw [raw] at typed
      exact typed.elim
    exact iff_of_true lands spared
  · have lands : Lands buf pos rr := by
      rw [raw, octets_unknown] at before short
      rw [lands_raw_iff raw before]
      refine ⟨short, fun codec registered => ?_⟩
      rw [unregistered] at registered
      cases registered
    have spared : Spared buf pos rr := by
      intro _
      refine ⟨fun _ => unregistered, fun reader held same => ?_⟩
      have loose : ∀ reader ∈ looseReaders, Rdata.registry.lookup reader.1 ≠ none := by
        intro reader held
        simp only [looseReaders, List.mem_cons, List.not_mem_nil, or_false] at held
        rcases held with rfl | rfl | rfl <;> exact Option.some_ne_none _
      refine absurd ?_ (loose reader held)
      rw [same]
      exact unregistered
    exact iff_of_true lands spared
  · rw [empty, octets_unknown] at before
    rw [lands_raw_iff empty before]
    constructor
    · intro ⟨_, refused⟩ _
      constructor
      · intro bearing
        cases registered : Rdata.registry.lookup rr.rtype with
        | none => rfl
        | some codec => exact absurd bearing (refused codec registered).1
      · intro reader held same
        have registered : Rdata.registry.lookup rr.rtype = some reader.2 := by
          rw [← same]
          simp only [looseReaders, List.mem_cons, List.not_mem_nil, or_false] at held
          rcases held with rfl | rfl | rfl <;> rfl
        exact (refused reader.2 registered).2
    · intro spared
      obtain ⟨named, loose⟩ := spared empty
      refine ⟨Nat.zero_le _, fun codec registered => ?_⟩
      have inert : rr.rtype ∉ Rdata.nameBearing := by
        intro bearing
        rw [named bearing] at registered
        cases registered
      refine ⟨inert, ?_⟩
      rcases reader_zero registered with bearing | isTxt | isSpf | held | refuses
      · exact absurd bearing inert
      · exact absurd isTxt notTxt
      · exact absurd isSpf notSpf
      · exact loose _ held rfl
      · exact refuses _

namespace Message

variable {m : Message}

theorem IsUpdate.sent (update : m.IsUpdate) {rr : RR} (held : rr ∈ m.records) : rr.Sent := by
  rcases List.mem_append.mp held with inside | inside
  · rcases List.mem_append.mp inside with first | second
    · have known := update.prerequisites rr first
      split at known
      · exact .inr known
      · exact .inl known
    · have known := update.updates rr second
      split at known
      · exact .inr known
      · exact .inl known
  · exact .inl (update.others rr inside)

theorem IsUpdate.writable (update : m.IsUpdate) : m.Writable where
  questions := update.questions
  records rr held := by
    refine ⟨update.names rr held, update.ttls rr held, ?_⟩
    rcases (update.sent held).data with ⟨typed, fits, -⟩ | ⟨octets, raw⟩
    · exact emits_of_fits typed fits
    · exact ⟨octets, fun w => by rw [raw, Rdata.emit]⟩
  plain := update.plain
  counts := update.counts
  options := update.options

/-- An update is read back exactly when each of its records without data is spared. -/
theorem update_roundTrips_iff (update : m.IsUpdate) (compress : Bool) :
    m.RoundTrips compress ↔
      ∃ bytes, m.toWire none compress = .ok bytes ∧ m.EachPlaced compress (Spared bytes) := by
  have writable := update.writable
  obtain ⟨w, first, second, third, written, layout⟩ := writable.toEmits.layout compress
  have wire := toWire_of_write written
  have lands_iff : m.EachPlaced compress (Lands w.buf) ↔ m.EachPlaced compress (Spared w.buf) :=
    layout.eachPlaced_congr writable.toEmits fun rr held pos more before =>
      (update.sent held).lands_iff (update.sizes rr held) before
  constructor
  · intro ⟨bytes, encoded, back, again, same⟩
    rw [wire] at encoded
    cases encoded
    exact ⟨w.buf, wire, lands_iff.mp (layout.lands_of_parse writable
      (fun rr held => determined_of_data (update.sent held).data) again same)⟩
  · intro ⟨bytes, encoded, spared⟩
    rw [wire] at encoded
    cases encoded
    obtain ⟨back, again, same⟩ := layout.parse_of_lands writable (lands_iff.mpr spared)
    exact ⟨w.buf, wire, back, again, same⟩

/-- If the name is in use, delete its records of one type. -/
def deleteSet (rtype : RRType) : Message where
  flags := 0x2800
  questions := [⟨exampleName.parent, RRType.soa, RRClass.in⟩]
  answers := [⟨exampleName, RRType.any, RRClass.any, 0, emptyData RRType.any⟩]
  authority := [⟨exampleName, rtype, RRClass.any, 0, emptyData rtype⟩]

theorem deleteSet_update (rtype : RRType) : (deleteSet rtype).IsUpdate where
  questions q held := by
    rw [List.mem_singleton.mp held]
    exact show LegalName exampleName.parent by decide
  names rr held := by
    simp only [deleteSet, records, List.append_nil, List.mem_cons, List.mem_append,
      List.not_mem_nil, or_false] at held
    rcases held with rfl | rfl <;> exact show LegalName exampleName by decide
  ttls rr held := by
    simp only [deleteSet, records, List.append_nil, List.mem_cons, List.mem_append,
      List.not_mem_nil, or_false] at held
    rcases held with rfl | rfl <;> exact show InRange 32 0 by decide
  prerequisites rr held := by
    rw [List.mem_singleton.mp held, if_pos (.inl rfl)]
  updates rr held := by
    rw [List.mem_singleton.mp held, if_pos rfl]
  others rr held := by cases held
  sizes rr held := by
    simp only [deleteSet, records, List.append_nil, List.mem_cons, List.mem_append,
      List.not_mem_nil, or_false] at held
    rcases held with rfl | rfl
    · rw [emptyData_octets]
      exact Nat.zero_le _
    · rw [emptyData_octets]
      exact Nat.zero_le _
  plain rr held := by cases held
  counts := ⟨Nat.le_of_ble_eq_true rfl, Nat.le_of_ble_eq_true rfl, Nat.le_of_ble_eq_true rfl,
    Nat.le_of_ble_eq_true rfl⟩
  options edns present := by cases present

theorem roundTrips_iff_deleteAddresses : (deleteSet RRType.a).RoundTrips true ↔
    ∃ bytes, (deleteSet RRType.a).toWire none true = .ok bytes ∧
      (deleteSet RRType.a).EachPlaced true (Spared bytes) :=
  update_roundTrips_iff (deleteSet_update RRType.a) true

/-- The deletion of a set of servers is refused with its whole message. -/
theorem deleteServers_lost :
    (deleteSet RRType.ns).IsUpdate ∧ ¬ (deleteSet RRType.ns).RoundTrips true := by
  refine ⟨deleteSet_update RRType.ns, ?_⟩
  have refused : ((deleteSet RRType.ns).toWire none true).toOption.bind (fun bytes =>
      (Message.parse bytes).toOption) = none := by
    decide +kernel
  intro ⟨bytes, written, back, again, _⟩
  rw [written] at refused
  have lost : (Message.parse bytes).toOption = none := refused
  rw [again] at lost
  cases lost

end Message

end Trench.Wire
