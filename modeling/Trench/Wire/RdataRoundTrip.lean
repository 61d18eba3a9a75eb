import Mathlib
import Trench.Wire.RdataCodec

set_option autoImplicit false

/- Every class of record data is read back from the octets it writes, wherever they
stand, and everything a reader returns can be written. -/
namespace Trench.Wire.Rdata

open Cursor (Parses Leads Ensures Before raiseIf)
open Name (labelOctets)
open Reader

def InRange (bits : Nat) (v : Int) : Prop := 0 ≤ v ∧ v < 2 ^ bits

instance (bits : Nat) (v : Int) : Decidable (InRange bits v) := by unfold InRange; infer_instance

/-- At most 255 octets on the wire. -/
def LegalName (name : Name) : Prop := name.wireLen ≤ maxName

instance (name : Name) : Decidable (LegalName name) := by unfold LegalName; infer_instance

/-- The limits of each class: what its fields can carry on the wire. An address is
in the text form that is written for its octets. -/
def Fits : Rdata → Prop
  | .a address => ∃ octets : Octets, octets.length = 4 ∧ address = inetNtop4 octets
  | .aaaa address => ∃ octets : Octets, octets.length = 16 ∧ address = inetNtop6 octets
  | .ns name | .cname name | .ptr name | .dname name => LegalName name
  | .soa d => LegalName d.mname ∧ LegalName d.rname ∧ InRange 32 d.serial ∧ InRange 32 d.refresh ∧
      InRange 32 d.retry ∧ InRange 32 d.expire ∧ InRange 32 d.minimum
  | .mx d => InRange 16 d.preference ∧ LegalName d.exchange
  | .srv d => InRange 16 d.priority ∧ InRange 16 d.weight ∧ InRange 16 d.port ∧ LegalName d.target
  | .txt strings | .spf strings => ∀ s ∈ strings, s.length ≤ 255
  | .hinfo d => d.cpu.length ≤ 255 ∧ d.os.length ≤ 255
  | .caa d => InRange 8 d.flags ∧ d.tag.length ≤ 255
  | .rrsig d => LegalName d.signer
  | .nsec d => LegalName d.nextName
  | .nsec3 d => d.salt.length ≤ 255 ∧ d.nextHashed.length ≤ 255
  | .nsec3param d => d.salt.length ≤ 255
  | .naptr d => d.flags.length ≤ 255 ∧ d.service.length ≤ 255 ∧ d.regexp.length ≤ 255 ∧
      LegalName d.replacement
  | .svcb d | .https d => LegalName d.target
  | .tsig d => LegalName d.algorithm ∧ d.mac.length ≤ 65535 ∧ d.other.length ≤ 65535
  | .sshfp _ | .tlsa _ | .ds _ | .cds _ | .dnskey _ | .cdnskey _ | .uri _ | .unknown _ _ => True

/-! ### Parts -/

/-- A number in range is the value of its fixed-width field. -/
theorem of_inRange16 {v : Int} (range : InRange 16 v) : ∃ n : UInt16, v = n.toNat := by
  obtain ⟨low, high⟩ := range
  refine ⟨UInt16.ofNat v.toNat, ?_⟩
  rw [UInt16.toNat_ofNat']
  omega

theorem of_inRange32 {v : Int} (range : InRange 32 v) : ∃ n : UInt32, v = n.toNat := by
  obtain ⟨low, high⟩ := range
  refine ⟨UInt32.ofNat v.toNat, ?_⟩
  rw [UInt32.toNat_ofNat']
  omega

theorem of_inRange8 {v : Int} (range : InRange 8 v) : ∃ n : UInt8, v = n.toNat := by
  obtain ⟨low, high⟩ := range
  refine ⟨UInt8.ofNat v.toNat, ?_⟩
  rw [UInt8.toNat_ofNat']
  omega

@[simp] theorem ofInt_toNat16 (n : UInt16) : UInt16.ofInt n.toNat = n := by
  have bound := n.toNat_lt
  apply UInt16.toNat_inj.mp
  rw [UInt16.ofInt, UInt16.toNat_ofNat']
  omega

@[simp] theorem ofInt_toNat32 (n : UInt32) : UInt32.ofInt n.toNat = n := by
  have bound := n.toNat_lt
  apply UInt32.toNat_inj.mp
  rw [UInt32.ofInt, UInt32.toNat_ofNat']
  omega

@[simp] theorem ofInt_toNat8 (n : UInt8) : UInt8.ofInt n.toNat = n := by
  have bound := n.toNat_lt
  apply UInt8.toNat_inj.mp
  rw [UInt8.ofInt, UInt8.toNat_ofNat']
  omega

theorem inRange_u16 (v : UInt16) : InRange 16 v.toNat := by
  have bound := v.toNat_lt
  constructor <;> omega

theorem inRange_u32 (v : UInt32) : InRange 32 v.toNat := by
  have bound := v.toNat_lt
  constructor <;> omega

theorem inRange_u8 (v : UInt8) : InRange 8 v.toNat := by
  have bound := v.toNat_lt
  constructor <;> omega

def countedOctets (s : Octets) : Octets := [UInt8.ofNat s.length] ++ s

def counted16Octets (s : Octets) : Octets := octets16 (UInt16.ofNat s.length) ++ s

def nameOctets (name : Name) : Octets := labelOctets name.labels ++ [0]

theorem counted_eq (w : Writer) (s : Octets) : w.counted s = w.raw (countedOctets s) := by
  rw [Writer.counted, Writer.u8, Writer.raw_raw]
  rfl

theorem counted16_eq (w : Writer) (s : Octets) : w.counted16 s = w.raw (counted16Octets s) := by
  rw [Writer.counted16, Writer.u16, Writer.raw_raw]
  rfl

theorem parses_counted (pos : Nat) (s : Octets) (short : s.length ≤ 255) :
    Parses readCounted pos (countedOctets s) s := by
  refine (parses_u8 pos (UInt8.ofNat s.length)).bind (parses_read _ s _ ?_)
  rw [UInt8.toNat_ofNat', Nat.mod_eq_of_lt (by omega)]

theorem parses_counted16 (pos : Nat) (s : Octets) (short : s.length ≤ 65535) :
    Parses readCounted16 pos (counted16Octets s) s := by
  refine (parses_u16 pos (UInt16.ofNat s.length)).bind (parses_read _ s _ ?_)
  rw [UInt16.toNat_ofNat', Nat.mod_eq_of_lt (by omega)]

theorem parses_readTo (pos stop : Nat) (s : Octets) (width : stop = pos + s.length) :
    Parses (readTo stop) pos s s := by
  refine ((parses_tell pos).bind (parses_read _ s _ ?_)).congr (by simp)
  omega

theorem ensures_counted : Ensures readCounted (fun s => s.length ≤ 255) :=
  Ensures.bind .trivial fun n _ => Reader.ensures_counted n

theorem ensures_counted16 : Ensures readCounted16 (fun s => s.length ≤ 65535) :=
  Ensures.bind .trivial fun n _ => (ensures_read _).mono fun s same => by
    have bound := n.toNat_lt
    omega

theorem ensures_legal : Ensures readName LegalName := ensures_readName

/-! ### Forward -/

/-- The octets a value writes. Its type's reader gets it back from them, and with
whatever length, the reader takes just these octets when it returns the value. -/
structure Coded (rd : Rdata) (codec : Nat → Read Rdata) (octets : Octets) : Prop where
  emitted : ∀ w, rd.emit w = .ok (w.raw octets)
  parsed : ∀ pos, Parses (codec octets.length) pos octets rd
  extent : ∀ (n : Nat) (c next : Reader) (more : Octets) (other : Rdata),
    Before c c.pos (octets ++ more) → codec n c = .ok (other, next) → other.fold = rd.fold →
      next = c.advance octets.length

/-- A reader that does not look at the length. -/
theorem Coded.of_const {rd : Rdata} {codec : Nat → Read Rdata} {octets : Octets}
    (const : ∀ n m, codec n = codec m) (emitted : ∀ w, rd.emit w = .ok (w.raw octets))
    (parsed : ∀ pos, Parses (codec octets.length) pos octets rd) : Coded rd codec octets := by
  refine ⟨emitted, parsed, fun n c next more other before read _ => ?_⟩
  rw [const n octets.length, parsed c.pos c more before] at read
  cases read
  rfl

theorem leads_read {α : Type} (f : Octets → Read α) (pos : Nat) {m n : Int} (count : n = m) :
    Leads (read m >>= f) (read n >>= f) pos [] :=
  count ▸ Leads.refl _ pos

theorem leads_readTo {α : Type} (f : Octets → Read α) (pos stop : Nat) {n : Int}
    (count : n = (stop : Int) - pos) : Leads (readTo stop >>= f) (read n >>= f) pos [] := by
  intro c more here
  have start : Reader.tell c = .ok (c.pos, c) := rfl
  rw [readTo, bind_assoc, Cursor.bind_ok start, here.pos_eq, count]
  rfl

/-- A reader whose last part takes what the length leaves behind `front`. -/
theorem Coded.of_tail {codec : Nat → Read Rdata} {front tail : Octets} {f : Octets → Rdata}
    (emitted : ∀ w, (f tail).emit w = .ok (w.raw (front ++ tail)))
    (leads : ∀ n pos, Leads (codec n)
      (read ((n : Int) - front.length) >>= fun t => pure (f t)) pos front)
    (inj : ∀ t, (f t).fold = (f tail).fold → t = tail) :
    Coded (f tail) codec (front ++ tail) := by
  refine ⟨emitted, fun pos c more here => ?_, fun n c next more other here read same => ?_⟩
  · rw [List.append_assoc] at here
    have count : (((front ++ tail).length : Nat) : Int) - front.length = tail.length := by
      rw [List.length_append]
      omega
    rw [leads _ pos c _ here, count,
      ((parses_read _ tail tail.length rfl).bind_pure (f := f)) _ more here.advance,
      Cursor.advance_advance, List.length_append]
  · rw [List.append_assoc] at here
    rw [leads n c.pos c _ here] at read
    obtain ⟨t, last, taken, rest⟩ := Cursor.bind_eq_ok.mp read
    cases rest
    cases inj t same
    have width := ensures_read _ _ _ _ taken
    rw [Reader.read] at taken
    split at taken
    · cases taken
    · cases taken
      rw [Cursor.advance_advance, List.length_append]
      congr 2
      omega

/-- A name class: the name and nothing else. -/
theorem coded_name (make : Name → Rdata) (name : Name) (legal : LegalName name)
    (writes : ∀ w, (make name).emit w = .ok (w.writeName name false)) :
    Coded (make name) (parseName make) (nameOctets name) := by
  apply Coded.of_const (fun _ _ => rfl)
  · intro w
    rw [writes, Writer.writeName_plain]
    rfl
  · exact fun pos => (parses_readName pos name legal).bind_pure

/-- An address class: a fixed number of octets behind a test of the length. -/
theorem coded_address {codec : Nat → Read Rdata} {f : Octets → Rdata} {octets : Octets}
    {width : Nat} {e : WireError} (size : octets.length = width)
    (reads : ∀ n, codec n = (do
      raiseIf (n ≠ width) e
      let octets ← read width
      return f octets))
    (emitted : ∀ w, (f octets).emit w = .ok (w.raw octets)) : Coded (f octets) codec octets := by
  have parsed : ∀ pos, Parses (codec octets.length) pos octets (f octets) := by
    intro pos
    rw [reads]
    exact ((Parses.raiseIf pos (by simp [size])).bind
      ((parses_read _ octets width (by simp [size])).bind_pure)).congr (by simp)
  refine ⟨emitted, parsed, fun n c next more other before read _ => ?_⟩
  by_cases same : n = octets.length
  · rw [same, parsed c.pos c more before] at read
    cases read
    rfl
  · have failed : (raiseIf (n ≠ width) e : Read Unit) c = .error e := by
      rw [raiseIf, if_pos (size ▸ same), Cursor.throw_apply]
    rw [reads, Cursor.bind_error failed] at read
    cases read

theorem coded_a {address : Text} (fits : Fits (.a address)) :
    ∃ octets, Coded (.a address) parseA octets := by
  obtain ⟨octets, four, rfl⟩ := fits
  refine ⟨octets, coded_address (f := fun octets => .a (inetNtop4 octets)) four (fun _ => rfl) ?_⟩
  intro w
  simp only [emit, inetPton4_inetNtop4 octets four]

theorem coded_aaaa {address : Text} (fits : Fits (.aaaa address)) :
    ∃ octets, Coded (.aaaa address) parseAaaa octets := by
  obtain ⟨octets, sixteen, rfl⟩ := fits
  refine ⟨octets, coded_address (f := fun octets => .aaaa (inetNtop6 octets)) sixteen
    (fun _ => rfl) ?_⟩
  intro w
  simp only [emit, inetPton6_inetNtop6 octets sixteen]

theorem coded_soa {d : SoaData} (fits : Fits (.soa d)) : ∃ octets, Coded (.soa d) parseSoa octets := by
  obtain ⟨mname, rname, serial, refresh, retry, expire, minimum⟩ := d
  obtain ⟨first, second, inSerial, inRefresh, inRetry, inExpire, inMinimum⟩ := fits
  obtain ⟨serial, rfl⟩ := of_inRange32 inSerial
  obtain ⟨refresh, rfl⟩ := of_inRange32 inRefresh
  obtain ⟨retry, rfl⟩ := of_inRange32 inRetry
  obtain ⟨expire, rfl⟩ := of_inRange32 inExpire
  obtain ⟨minimum, rfl⟩ := of_inRange32 inMinimum
  refine ⟨nameOctets mname ++ (nameOctets rname ++ (octets32 serial ++ (octets32 refresh ++
    (octets32 retry ++ (octets32 expire ++ octets32 minimum))))), .of_const (fun _ _ => rfl) (fun w => ?_) fun pos => ?_⟩
  · simp only [emit, Writer.int32, ofInt_toNat32, Writer.u32, Writer.writeName_plain,
      Writer.raw_raw, nameOctets, List.append_assoc]
  · exact (parses_readName pos mname first).bind ((parses_readName _ rname second).bind
      ((parses_u32 _ serial).bind ((parses_u32 _ refresh).bind ((parses_u32 _ retry).bind
      ((parses_u32 _ expire).bind ((parses_u32 _ minimum).bind_pure))))))

theorem coded_mx {d : MxData} (fits : Fits (.mx d)) : ∃ octets, Coded (.mx d) parseMx octets := by
  obtain ⟨preference, exchange⟩ := d
  obtain ⟨preference, rfl⟩ := of_inRange16 fits.1
  refine ⟨octets16 preference ++ nameOctets exchange, .of_const (fun _ _ => rfl) (fun w => ?_) fun pos => ?_⟩
  · simp only [emit, Writer.int16, ofInt_toNat16, Writer.u16, Writer.writeName_plain,
      Writer.raw_raw, nameOctets]
  · exact (parses_u16 pos preference).bind ((parses_readName _ exchange fits.2).bind_pure)

theorem coded_srv {d : SrvData} (fits : Fits (.srv d)) :
    ∃ octets, Coded (.srv d) parseSrv octets := by
  obtain ⟨priority, weight, port, target⟩ := d
  obtain ⟨inPriority, inWeight, inPort, legal⟩ := fits
  obtain ⟨priority, rfl⟩ := of_inRange16 inPriority
  obtain ⟨weight, rfl⟩ := of_inRange16 inWeight
  obtain ⟨port, rfl⟩ := of_inRange16 inPort
  refine ⟨octets16 priority ++ (octets16 weight ++ (octets16 port ++ nameOctets target)),
    .of_const (fun _ _ => rfl) (fun w => ?_) fun pos => ?_⟩
  · simp only [emit, Writer.int16, ofInt_toNat16, Writer.u16, Writer.writeName_plain,
      Writer.raw_raw, nameOctets, List.append_assoc]
  · exact (parses_u16 pos priority).bind ((parses_u16 _ weight).bind ((parses_u16 _ port).bind
      ((parses_readName _ target legal).bind_pure)))

/-- Strings of legal length, one after the other. -/
theorem emitStrings_eq (w : Writer) (strings : List Octets) (short : ∀ s ∈ strings, s.length ≤ 255) :
    emitStrings w strings = .ok (w.raw (strings.flatMap countedOctets)) := by
  induction strings generalizing w with
  | nil => simp [emitStrings]
  | cons s rest ih =>
      have fits : ¬ s.length > 255 := not_lt.mpr (short s List.mem_cons_self)
      rw [emitStrings, if_neg fits, ih _ fun t held => short t (List.mem_cons_of_mem _ held),
        counted_eq, Writer.raw_raw, List.flatMap_cons]

theorem parses_readStrings (strings : List Octets) (short : ∀ s ∈ strings, s.length ≤ 255)
    (fuel pos : Nat) (out : List Octets) (enough : strings.length < fuel) :
    Parses (readStrings fuel (pos + (strings.flatMap countedOctets).length) out) pos
      (strings.flatMap countedOctets) (out ++ strings) := by
  induction strings generalizing fuel pos out with
  | nil =>
      obtain ⟨left, rfl⟩ : ∃ left, fuel = left + 1 := ⟨fuel - 1, by omega⟩
      intro c tail here
      have stop : ¬ c.pos < pos := by rw [here.pos_eq]; omega
      rw [readStrings, Cursor.bind_ok (show tell c = .ok (c.pos, c) from rfl)]
      simp only [List.flatMap_nil, List.length_nil, Nat.add_zero, stop, ↓reduceIte,
        List.append_nil, Cursor.advance_zero]
      rfl
  | cons s rest ih =>
      obtain ⟨left, rfl⟩ : ∃ left, fuel = left + 1 := ⟨fuel - 1, by omega⟩
      rw [List.length_cons] at enough
      have first := parses_counted pos s (short s List.mem_cons_self)
      have next := ih (fun t held => short t (List.mem_cons_of_mem _ held)) left
        (pos + (countedOctets s).length) (out ++ [s]) (by omega)
      have both := first.bind (f := fun s => readStrings left
        (pos + (countedOctets s).length + (rest.flatMap countedOctets).length) (out ++ [s])) next
      intro c tail here
      have width : 0 < (countedOctets s).length := by simp [countedOctets]
      have go : c.pos < pos + ((s :: rest).flatMap countedOctets).length := by
        rw [here.pos_eq, List.flatMap_cons, List.length_append]
        omega
      rw [readStrings, Cursor.bind_ok (show tell c = .ok (c.pos, c) from rfl)]
      simp only [go, ↓reduceIte]
      rw [List.flatMap_cons] at here ⊢
      rw [List.append_assoc, List.singleton_append] at both
      have run := both c tail here
      rw [Cursor.bind_ok (first c _ (List.append_assoc _ _ _ ▸ here))] at run ⊢
      rw [List.length_append, ← Nat.add_assoc, ← List.length_append]
      exact run

theorem readCounted_advance {c next : Reader} {s : Octets}
    (read : readCounted c = .ok (s, next)) : next = c.advance (countedOctets s).length := by
  obtain ⟨n, middle, first, rest⟩ := Cursor.bind_eq_ok.mp read
  have width := ensures_read _ _ _ _ rest
  rw [u8] at first
  split at first
  · cases first
    rw [Reader.read] at rest
    split at rest
    · cases rest
    · cases rest
      rw [Cursor.advance_advance]
      congr 1
      simp only [countedOctets, List.length_append, List.length_singleton]
      omega
  · cases first

/-- The loop stops behind the strings it returns. -/
theorem readStrings_advance (fuel stop : Nat) (out : List Octets) {found : List Octets}
    {c next : Reader} (read : readStrings fuel stop out c = .ok (found, next)) :
    ∃ strings, found = out ++ strings ∧ next = c.advance (strings.flatMap countedOctets).length := by
  induction fuel generalizing out c with
  | zero =>
      cases read
      exact ⟨[], (List.append_nil _).symm, rfl⟩
  | succ fuel ih =>
      have here : Reader.tell c = .ok (c.pos, c) := rfl
      rw [readStrings, Cursor.bind_ok here] at read
      split at read
      · obtain ⟨s, middle, first, rest⟩ := Cursor.bind_eq_ok.mp read
        obtain ⟨strings, same, last⟩ := ih (out ++ [s]) rest
        refine ⟨s :: strings, by rw [same, List.append_assoc, List.singleton_append], ?_⟩
        rw [last, readCounted_advance first, Cursor.advance_advance, List.flatMap_cons,
          List.length_append]
      · cases read
        exact ⟨[], (List.append_nil _).symm, rfl⟩

theorem coded_txt (make : List Octets → Rdata) (strings : List Octets)
    (short : ∀ s ∈ strings, s.length ≤ 255)
    (writes : ∀ w, (make strings).emit w = emitStrings w strings)
    (inj : ∀ others, (make others).fold = (make strings).fold → others = strings) :
    Coded (make strings) (parseTxt make) (strings.flatMap countedOctets) := by
  have few : strings.length ≤ (strings.flatMap countedOctets).length := by
    clear short writes inj
    induction strings with
    | nil => exact Nat.zero_le _
    | cons s rest ih =>
        simp only [List.length_cons, List.flatMap_cons, List.length_append, countedOctets,
          List.length_nil]
        omega
  refine ⟨fun w => by rw [writes, emitStrings_eq w strings short], fun pos => ?_, ?_⟩
  · have loop := parses_readStrings strings short ((strings.flatMap countedOctets).length + 1) pos []
      (by omega)
    exact ((parses_tell pos).bind (loop.bind_pure)).congr (by simp)
  · intro n c next more other here read same
    rw [parseTxt, Cursor.bind_ok (show tell c = .ok (c.pos, c) from rfl)] at read
    obtain ⟨others, last, loop, rest⟩ := Cursor.bind_eq_ok.mp read
    cases rest
    cases inj others same
    obtain ⟨found, equal, stopped⟩ := readStrings_advance _ _ [] loop
    rw [equal, List.nil_append]
    exact stopped

theorem coded_hinfo {d : HinfoData} (fits : Fits (.hinfo d)) :
    ∃ octets, Coded (.hinfo d) parseHinfo octets := by
  refine ⟨countedOctets d.cpu ++ countedOctets d.os, .of_const (fun _ _ => rfl) (fun w => ?_) fun pos => ?_⟩
  · simp only [emit, counted_eq, Writer.raw_raw]
  · exact (parses_counted pos d.cpu fits.1).bind ((parses_counted _ d.os fits.2).bind_pure)

theorem coded_caa {d : CaaData} (fits : Fits (.caa d)) :
    ∃ octets, Coded (.caa d) parseCaa octets := by
  obtain ⟨flags, tag, value⟩ := d
  obtain ⟨flags, rfl⟩ := of_inRange8 fits.1
  refine ⟨([flags] ++ countedOctets tag) ++ value, .of_tail
    (f := fun t => .caa ⟨flags.toNat, tag, t⟩) (fun w => ?_) (fun n pos => ?_) fun t same => ?_⟩
  · simp only [emit, Writer.int8, ofInt_toNat8, Writer.u8, counted_eq, Writer.raw_raw]
  · refine ((parses_tell pos).leads ((parses_u8 _ flags).leads
      ((parses_counted _ tag fits.2).leads (leads_readTo _ _ _ ?_)))).congr (by simp)
    simp only [List.length_append, List.length_nil]
    omega
  · exact congrArg CaaData.value (Rdata.caa.inj same)

theorem coded_sshfp (d : SshfpData) : ∃ octets, Coded (.sshfp d) parseSshfp octets := by
  refine ⟨([d.algorithm] ++ [d.fpType]) ++ d.fingerprint, .of_tail
    (f := fun t => .sshfp { d with fingerprint := t }) (fun w => ?_) (fun n pos => ?_) fun t same => ?_⟩
  · simp only [emit, Writer.u8, Writer.raw_raw]
  · exact ((parses_u8 pos d.algorithm).leads ((parses_u8 _ d.fpType).leads
      (leads_read _ _ (by simp)))).congr (by simp)
  · exact congrArg SshfpData.fingerprint (Rdata.sshfp.inj same)

theorem coded_tlsa (d : TlsaData) : ∃ octets, Coded (.tlsa d) parseTlsa octets := by
  refine ⟨([d.usage] ++ [d.selector] ++ [d.mtype]) ++ d.cert, .of_tail
    (f := fun t => .tlsa { d with cert := t }) (fun w => ?_) (fun n pos => ?_) fun t same => ?_⟩
  · simp only [emit, Writer.u8, Writer.raw_raw]
  · exact ((parses_u8 pos d.usage).leads ((parses_u8 _ d.selector).leads
      ((parses_u8 _ d.mtype).leads (leads_read _ _ (by simp))))).congr (by simp)
  · exact congrArg TlsaData.cert (Rdata.tlsa.inj same)

theorem coded_ds (make : DsData → Rdata) (d : DsData)
    (writes : ∀ w, (make d).emit w = .ok (emitDs d w))
    (inj : ∀ e, (make e).fold = (make d).fold → e = d) :
    ∃ octets, Coded (make d) (parseDs make) octets := by
  refine ⟨(octets16 d.keyTag ++ [d.algorithm] ++ [d.digestType]) ++ d.digest, .of_tail
    (f := fun t => make { d with digest := t }) (fun w => ?_) (fun n pos => ?_) fun t same => ?_⟩
  · simp only [writes, emitDs, Writer.u16, Writer.u8, Writer.raw_raw]
  · exact ((parses_u16 pos d.keyTag).leads ((parses_u8 _ d.algorithm).leads
      ((parses_u8 _ d.digestType).leads (leads_read _ _ (by simp))))).congr (by simp)
  · exact congrArg DsData.digest (inj _ same)

theorem coded_dnskey (make : DnskeyData → Rdata) (d : DnskeyData)
    (writes : ∀ w, (make d).emit w = .ok (emitDnskey d w))
    (inj : ∀ e, (make e).fold = (make d).fold → e = d) :
    ∃ octets, Coded (make d) (parseDnskey make) octets := by
  refine ⟨(octets16 d.flags ++ [d.protocol] ++ [d.algorithm]) ++ d.publicKey, .of_tail
    (f := fun t => make { d with publicKey := t }) (fun w => ?_) (fun n pos => ?_) fun t same => ?_⟩
  · simp only [writes, emitDnskey, Writer.u16, Writer.u8, Writer.raw_raw]
  · exact ((parses_u16 pos d.flags).leads ((parses_u8 _ d.protocol).leads
      ((parses_u8 _ d.algorithm).leads (leads_read _ _ (by simp))))).congr (by simp)
  · exact congrArg DnskeyData.publicKey (inj _ same)

theorem coded_rrsig {d : RrsigData} (fits : Fits (.rrsig d)) :
    ∃ octets, Coded (.rrsig d) parseRrsig octets := by
  refine ⟨(octets16 d.typeCovered ++ [d.algorithm] ++ [d.labels] ++ octets32 d.originalTtl ++
    octets32 d.expiration ++ octets32 d.inception ++ octets16 d.keyTag ++
    nameOctets d.signer) ++ d.signature, .of_tail
    (f := fun t => .rrsig { d with signature := t }) (fun w => ?_) (fun n pos => ?_) fun t same => ?_⟩
  · simp only [emit, Writer.u16, Writer.u8, Writer.u32, Writer.writeName_plain, Writer.raw_raw,
      nameOctets]
  · refine ((parses_tell pos).leads ((parses_u16 _ d.typeCovered).leads
      ((parses_u8 _ d.algorithm).leads ((parses_u8 _ d.labels).leads
      ((parses_u32 _ d.originalTtl).leads ((parses_u32 _ d.expiration).leads
      ((parses_u32 _ d.inception).leads ((parses_u16 _ d.keyTag).leads
      ((parses_readName _ d.signer fits).leads
      (leads_readTo _ _ _ ?_)))))))))).congr (by simp [nameOctets])
    simp only [List.length_append, List.length_singleton, length_octets16, length_octets32,
      List.length_nil, nameOctets]
    omega
  · exact congrArg RrsigData.signature (Rdata.rrsig.inj same)

theorem coded_nsec {d : NsecData} (fits : Fits (.nsec d)) :
    ∃ octets, Coded (.nsec d) parseNsec octets := by
  refine ⟨nameOctets d.nextName ++ d.typeBitmap, .of_tail
    (f := fun t => .nsec { d with typeBitmap := t }) (fun w => ?_) (fun n pos => ?_) fun t same => ?_⟩
  · simp only [emit, Writer.writeName_plain, Writer.raw_raw, nameOctets]
  · refine ((parses_tell pos).leads ((parses_readName _ d.nextName fits).leads
      (leads_readTo _ _ _ ?_))).congr (by simp [nameOctets])
    simp only [List.length_append, List.length_singleton, List.length_nil, nameOctets]
    omega
  · exact congrArg NsecData.typeBitmap (Rdata.nsec.inj same)

theorem coded_nsec3param {d : Nsec3ParamData} (fits : Fits (.nsec3param d)) :
    ∃ octets, Coded (.nsec3param d) parseNsec3param octets := by
  refine ⟨[d.hashAlgorithm] ++ ([d.flags] ++ (octets16 d.iterations ++ countedOctets d.salt)),
    .of_const (fun _ _ => rfl) (fun w => ?_) fun pos => ?_⟩
  · simp only [emit, Writer.u8, Writer.u16, counted_eq, Writer.raw_raw, List.append_assoc]
  · exact (parses_u8 pos d.hashAlgorithm).bind ((parses_u8 _ d.flags).bind
      ((parses_u16 _ d.iterations).bind ((parses_counted _ d.salt fits).bind_pure)))

theorem coded_nsec3 {d : Nsec3Data} (fits : Fits (.nsec3 d)) :
    ∃ octets, Coded (.nsec3 d) parseNsec3 octets := by
  refine ⟨([d.hashAlgorithm] ++ [d.flags] ++ octets16 d.iterations ++ countedOctets d.salt ++
    countedOctets d.nextHashed) ++ d.typeBitmap, .of_tail
    (f := fun t => .nsec3 { d with typeBitmap := t }) (fun w => ?_) (fun n pos => ?_) fun t same => ?_⟩
  · simp only [emit, Writer.u8, Writer.u16, counted_eq, Writer.raw_raw]
  · refine ((parses_tell pos).leads ((parses_u8 _ d.hashAlgorithm).leads
      ((parses_u8 _ d.flags).leads ((parses_u16 _ d.iterations).leads
      ((parses_counted _ d.salt fits.1).leads ((parses_counted _ d.nextHashed fits.2).leads
      (leads_readTo _ _ _ ?_))))))).congr (by simp)
    simp only [List.length_append, List.length_singleton, length_octets16, List.length_nil]
    omega
  · exact congrArg Nsec3Data.typeBitmap (Rdata.nsec3.inj same)

theorem coded_naptr {d : NaptrData} (fits : Fits (.naptr d)) :
    ∃ octets, Coded (.naptr d) parseNaptr octets := by
  obtain ⟨flags, service, regexp, legal⟩ := fits
  refine ⟨octets16 d.order ++ (octets16 d.preference ++ (countedOctets d.flags ++
    (countedOctets d.service ++ (countedOctets d.regexp ++ nameOctets d.replacement)))),
    .of_const (fun _ _ => rfl) (fun w => ?_) fun pos => ?_⟩
  · simp only [emit, Writer.u16, counted_eq, Writer.writeName_plain, Writer.raw_raw, nameOctets,
      List.append_assoc]
  · exact (parses_u16 pos d.order).bind ((parses_u16 _ d.preference).bind
      ((parses_counted _ d.flags flags).bind ((parses_counted _ d.service service).bind
      ((parses_counted _ d.regexp regexp).bind
      ((parses_readName _ d.replacement legal).bind_pure)))))

theorem coded_uri (d : UriData) : ∃ octets, Coded (.uri d) parseUri octets := by
  refine ⟨(octets16 d.priority ++ octets16 d.weight) ++ d.target, .of_tail
    (f := fun t => .uri { d with target := t }) (fun w => ?_) (fun n pos => ?_) fun t same => ?_⟩
  · simp only [emit, Writer.u16, Writer.raw_raw]
  · exact ((parses_u16 pos d.priority).leads ((parses_u16 _ d.weight).leads
      (leads_read _ _ (by simp)))).congr (by simp)
  · exact congrArg UriData.target (Rdata.uri.inj same)

theorem coded_svcb (make : SvcbData → Rdata) (d : SvcbData) (legal : LegalName d.target)
    (writes : ∀ w, (make d).emit w = .ok (emitSvcb d w))
    (inj : ∀ e, (make e).fold = (make d).fold → e.params = d.params) :
    ∃ octets, Coded (make d) (parseSvcb make) octets := by
  refine ⟨(octets16 d.priority ++ nameOctets d.target) ++ d.params, .of_tail
    (f := fun t => make { d with params := t }) (fun w => ?_) (fun n pos => ?_) fun t same => ?_⟩
  · simp only [writes, emitSvcb, Writer.u16, Writer.writeName_plain, Writer.raw_raw, nameOctets]
  · refine ((parses_tell pos).leads ((parses_u16 _ d.priority).leads
      ((parses_readName _ d.target legal).leads
      (leads_readTo _ _ _ ?_)))).congr (by simp [nameOctets])
    simp only [List.length_append, List.length_singleton, length_octets16, List.length_nil,
      nameOctets]
    omega
  · exact inj _ same

theorem joinTime_parts (time : BitVec 48) :
    joinTime (UInt16.ofNat (time.toNat / 2 ^ 32)) (UInt32.ofNat (time.toNat % 2 ^ 32)) = time := by
  have bound := time.isLt
  apply BitVec.eq_of_toNat_eq
  simp only [joinTime, BitVec.toNat_ofNat, UInt16.toNat_ofNat', UInt32.toNat_ofNat']
  omega

/-- The octets of a TSIG, shared by the record codec and the signer. -/
def tsigOctets (d : TsigData) : Octets :=
  nameOctets d.algorithm ++ (octets16 (UInt16.ofNat (d.timeSigned.toNat / 2 ^ 32)) ++
    (octets32 (UInt32.ofNat (d.timeSigned.toNat % 2 ^ 32)) ++ (octets16 d.fudge ++
    (counted16Octets d.mac ++ (octets16 d.originalId ++ (octets16 d.error ++
    counted16Octets d.other))))))

theorem emitTsig_eq (d : TsigData) (w : Writer) : emitTsig d w = w.raw (tsigOctets d) := by
  simp only [emitTsig, tsigOctets, Writer.u16, Writer.u32, counted16_eq, Writer.writeName_plain,
    Writer.raw_raw, nameOctets, List.append_assoc]

theorem parses_parseTsig {d : TsigData} (fits : Fits (.tsig d)) (pos n : Nat) :
    Parses (parseTsig n) pos (tsigOctets d) d := by
  obtain ⟨legal, mac, other⟩ := fits
  have read := (parses_readName pos d.algorithm legal).bind
    (f := fun algorithm => do
      let high ← u16
      let low ← u32
      let fudge ← u16
      let mac ← readCounted16
      let originalId ← u16
      let error ← u16
      let other ← readCounted16
      return (⟨algorithm, joinTime high low, fudge, mac, originalId, error, other⟩ : TsigData))
    ((parses_u16 _ (UInt16.ofNat (d.timeSigned.toNat / 2 ^ 32))).bind
    ((parses_u32 _ (UInt32.ofNat (d.timeSigned.toNat % 2 ^ 32))).bind ((parses_u16 _ d.fudge).bind
    ((parses_counted16 _ d.mac mac).bind ((parses_u16 _ d.originalId).bind
    ((parses_u16 _ d.error).bind ((parses_counted16 _ d.other other).bind_pure)))))))
  rw [joinTime_parts] at read
  exact read

theorem coded_tsig {d : TsigData} (fits : Fits (.tsig d)) :
    ∃ octets, Coded (.tsig d) parseTsigRdata octets :=
  ⟨tsigOctets d, .of_const (fun _ _ => rfl) (fun w => by simp only [emit, emitTsig_eq])
    fun pos => (parses_parseTsig fits pos _).bind_pure⟩

/-- Data of a registered class, not octets kept raw. -/
def Typed : Rdata → Prop
  | .unknown _ _ => False
  | _ => True

instance (rd : Rdata) : Decidable rd.Typed := by
  cases rd <;> unfold Typed <;> infer_instance

/-- Whatever fits its class is read back by its type's codec. -/
theorem coded_of_fits {rd : Rdata} (typed : rd.Typed) (fits : rd.Fits) :
    ∃ codec octets, registry.lookup rd.rdataType = some codec ∧ Coded rd codec octets := by
  cases rd with
  | a address => exact ⟨_, (coded_a fits).choose, rfl, (coded_a fits).choose_spec⟩
  | aaaa address => exact ⟨_, (coded_aaaa fits).choose, rfl, (coded_aaaa fits).choose_spec⟩
  | ns name => exact ⟨_, _, rfl, coded_name .ns name fits fun _ => rfl⟩
  | cname name => exact ⟨_, _, rfl, coded_name .cname name fits fun _ => rfl⟩
  | ptr name => exact ⟨_, _, rfl, coded_name .ptr name fits fun _ => rfl⟩
  | dname name => exact ⟨_, _, rfl, coded_name .dname name fits fun _ => rfl⟩
  | soa d => exact ⟨_, (coded_soa fits).choose, rfl, (coded_soa fits).choose_spec⟩
  | mx d => exact ⟨_, (coded_mx fits).choose, rfl, (coded_mx fits).choose_spec⟩
  | srv d => exact ⟨_, (coded_srv fits).choose, rfl, (coded_srv fits).choose_spec⟩
  | txt strings => exact ⟨_, _, rfl, coded_txt .txt strings fits (fun _ => rfl) fun _ same => Rdata.txt.inj same⟩
  | spf strings => exact ⟨_, _, rfl, coded_txt .spf strings fits (fun _ => rfl) fun _ same => Rdata.spf.inj same⟩
  | hinfo d => exact ⟨_, (coded_hinfo fits).choose, rfl, (coded_hinfo fits).choose_spec⟩
  | caa d => exact ⟨_, (coded_caa fits).choose, rfl, (coded_caa fits).choose_spec⟩
  | sshfp d => exact ⟨_, (coded_sshfp d).choose, rfl, (coded_sshfp d).choose_spec⟩
  | tlsa d => exact ⟨_, (coded_tlsa d).choose, rfl, (coded_tlsa d).choose_spec⟩
  | ds d =>
      have coded := coded_ds .ds d (fun _ => rfl) fun _ same => Rdata.ds.inj same
      exact ⟨_, coded.choose, rfl, coded.choose_spec⟩
  | cds d =>
      have coded := coded_ds .cds d (fun _ => rfl) fun _ same => Rdata.cds.inj same
      exact ⟨_, coded.choose, rfl, coded.choose_spec⟩
  | dnskey d =>
      have coded := coded_dnskey .dnskey d (fun _ => rfl) fun _ same => Rdata.dnskey.inj same
      exact ⟨_, coded.choose, rfl, coded.choose_spec⟩
  | cdnskey d =>
      have coded := coded_dnskey .cdnskey d (fun _ => rfl) fun _ same => Rdata.cdnskey.inj same
      exact ⟨_, coded.choose, rfl, coded.choose_spec⟩
  | rrsig d => exact ⟨_, (coded_rrsig fits).choose, rfl, (coded_rrsig fits).choose_spec⟩
  | nsec d => exact ⟨_, (coded_nsec fits).choose, rfl, (coded_nsec fits).choose_spec⟩
  | nsec3 d => exact ⟨_, (coded_nsec3 fits).choose, rfl, (coded_nsec3 fits).choose_spec⟩
  | nsec3param d =>
      exact ⟨_, (coded_nsec3param fits).choose, rfl, (coded_nsec3param fits).choose_spec⟩
  | naptr d => exact ⟨_, (coded_naptr fits).choose, rfl, (coded_naptr fits).choose_spec⟩
  | uri d => exact ⟨_, (coded_uri d).choose, rfl, (coded_uri d).choose_spec⟩
  | svcb d =>
      have coded := coded_svcb .svcb d fits (fun _ => rfl) fun _ same => by
        simp only [Rdata.fold, Rdata.svcb.injEq, SvcbData.mk.injEq] at same
        exact same.2.2
      exact ⟨_, coded.choose, rfl, coded.choose_spec⟩
  | https d =>
      have coded := coded_svcb .https d fits (fun _ => rfl) fun _ same => by
        simp only [Rdata.fold, Rdata.https.injEq, SvcbData.mk.injEq] at same
        exact same.2.2
      exact ⟨_, coded.choose, rfl, coded.choose_spec⟩
  | tsig d => exact ⟨_, (coded_tsig fits).choose, rfl, (coded_tsig fits).choose_spec⟩
  | unknown rtype data => exact typed.elim

/-! ### Backward -/

/-- What a codec returns: data of its own class that fits. -/
def Sound (t : RRType) (codec : Nat → Read Rdata) : Prop :=
  ∀ n, Ensures (codec n) fun rd => rd.Typed ∧ rd.Fits ∧ rd.rdataType = t

theorem sound_a : Sound RRType.a parseA := fun _ =>
  .bind .raiseIf fun _ _ => .bind (ensures_read 4) fun octets width =>
    .pure ⟨True.intro, ⟨octets, by omega, rfl⟩, rfl⟩

theorem sound_aaaa : Sound RRType.aaaa parseAaaa := fun _ =>
  .bind .raiseIf fun _ _ => .bind (ensures_read 16) fun octets width =>
    .pure ⟨True.intro, ⟨octets, by omega, rfl⟩, rfl⟩

theorem sound_name {t : RRType} {make : Name → Rdata}
    (good : ∀ name, LegalName name → (make name).Typed ∧ (make name).Fits ∧
      (make name).rdataType = t) : Sound t (parseName make) := fun _ =>
  .bind ensures_legal fun name legal => .pure (good name legal)

theorem sound_soa : Sound RRType.soa parseSoa := fun _ =>
  .bind ensures_legal fun _ mname => .bind ensures_legal fun _ rname =>
  .bind .trivial fun serial _ => .bind .trivial fun refresh _ => .bind .trivial fun retry _ =>
  .bind .trivial fun expire _ => .bind .trivial fun minimum _ =>
    .pure ⟨True.intro, ⟨mname, rname, inRange_u32 serial, inRange_u32 refresh, inRange_u32 retry,
      inRange_u32 expire, inRange_u32 minimum⟩, rfl⟩

theorem sound_mx : Sound RRType.mx parseMx := fun _ =>
  .bind .trivial fun preference _ => .bind ensures_legal fun _ legal =>
    .pure ⟨True.intro, ⟨inRange_u16 preference, legal⟩, rfl⟩

theorem sound_srv : Sound RRType.srv parseSrv := fun _ =>
  .bind .trivial fun priority _ => .bind .trivial fun weight _ => .bind .trivial fun port _ =>
  .bind ensures_legal fun _ legal =>
    .pure ⟨True.intro, ⟨inRange_u16 priority, inRange_u16 weight, inRange_u16 port, legal⟩, rfl⟩

theorem ensures_readStrings (fuel stop : Nat) (out : List Octets)
    (sofar : ∀ s ∈ out, s.length ≤ 255) :
    Ensures (readStrings fuel stop out) fun strings => ∀ s ∈ strings, s.length ≤ 255 := by
  induction fuel generalizing out with
  | zero => exact .pure sofar
  | succ fuel ih =>
      rw [readStrings]
      refine .bind .trivial fun here _ => ?_
      split
      · refine .bind ensures_counted fun s short => ih _ ?_
        intro t held
        rcases List.mem_append.mp held with held | held
        · exact sofar t held
        · exact List.mem_singleton.mp held ▸ short
      · exact .pure sofar

theorem sound_txt {t : RRType} {make : List Octets → Rdata}
    (good : ∀ strings, (∀ s ∈ strings, s.length ≤ 255) → (make strings).Typed ∧
      (make strings).Fits ∧ (make strings).rdataType = t) : Sound t (parseTxt make) := fun n =>
  .bind .trivial fun here _ =>
    .bind (ensures_readStrings _ _ [] fun _ held => by cases held) fun strings short =>
      .pure (good strings short)

theorem sound_hinfo : Sound RRType.hinfo parseHinfo := fun _ =>
  .bind ensures_counted fun _ cpu => .bind ensures_counted fun _ os =>
    .pure ⟨True.intro, ⟨cpu, os⟩, rfl⟩

theorem sound_caa : Sound RRType.caa parseCaa := fun _ =>
  .bind .trivial fun _ _ => .bind .trivial fun flags _ => .bind ensures_counted fun _ tag =>
  .bind .trivial fun _ _ => .pure ⟨True.intro, ⟨inRange_u8 flags, tag⟩, rfl⟩

theorem sound_sshfp : Sound RRType.sshfp parseSshfp := fun _ =>
  .bind .trivial fun _ _ => .bind .trivial fun _ _ => .bind .trivial fun _ _ =>
    .pure ⟨True.intro, True.intro, rfl⟩

theorem sound_tlsa : Sound RRType.tlsa parseTlsa := fun _ =>
  .bind .trivial fun _ _ => .bind .trivial fun _ _ => .bind .trivial fun _ _ =>
  .bind .trivial fun _ _ => .pure ⟨True.intro, True.intro, rfl⟩

theorem sound_ds {t : RRType} {make : DsData → Rdata}
    (good : ∀ d, (make d).Typed ∧ (make d).Fits ∧ (make d).rdataType = t) :
    Sound t (parseDs make) := fun _ =>
  .bind .trivial fun _ _ => .bind .trivial fun _ _ => .bind .trivial fun _ _ =>
  .bind .trivial fun _ _ => .pure (good _)

theorem sound_dnskey {t : RRType} {make : DnskeyData → Rdata}
    (good : ∀ d, (make d).Typed ∧ (make d).Fits ∧ (make d).rdataType = t) :
    Sound t (parseDnskey make) := fun _ =>
  .bind .trivial fun _ _ => .bind .trivial fun _ _ => .bind .trivial fun _ _ =>
  .bind .trivial fun _ _ => .pure (good _)

theorem sound_rrsig : Sound RRType.rrsig parseRrsig := fun _ =>
  .bind .trivial fun _ _ => .bind .trivial fun _ _ => .bind .trivial fun _ _ =>
  .bind .trivial fun _ _ => .bind .trivial fun _ _ => .bind .trivial fun _ _ =>
  .bind .trivial fun _ _ => .bind .trivial fun _ _ => .bind ensures_legal fun _ legal =>
  .bind .trivial fun _ _ => .pure ⟨True.intro, legal, rfl⟩

theorem sound_nsec : Sound RRType.nsec parseNsec := fun _ =>
  .bind .trivial fun _ _ => .bind ensures_legal fun _ legal => .bind .trivial fun _ _ =>
    .pure ⟨True.intro, legal, rfl⟩

theorem sound_nsec3 : Sound RRType.nsec3 parseNsec3 := fun _ =>
  .bind .trivial fun _ _ => .bind .trivial fun _ _ => .bind .trivial fun _ _ =>
  .bind .trivial fun _ _ => .bind ensures_counted fun _ salt =>
  .bind ensures_counted fun _ next => .bind .trivial fun _ _ =>
    .pure ⟨True.intro, ⟨salt, next⟩, rfl⟩

theorem sound_nsec3param : Sound RRType.nsec3param parseNsec3param := fun _ =>
  .bind .trivial fun _ _ => .bind .trivial fun _ _ => .bind .trivial fun _ _ =>
  .bind ensures_counted fun _ salt => .pure ⟨True.intro, salt, rfl⟩

theorem sound_naptr : Sound RRType.naptr parseNaptr := fun _ =>
  .bind .trivial fun _ _ => .bind .trivial fun _ _ => .bind ensures_counted fun _ flags =>
  .bind ensures_counted fun _ service => .bind ensures_counted fun _ regexp =>
  .bind ensures_legal fun _ legal =>
    .pure ⟨True.intro, ⟨flags, service, regexp, legal⟩, rfl⟩

theorem sound_uri : Sound RRType.uri parseUri := fun _ =>
  .bind .trivial fun _ _ => .bind .trivial fun _ _ => .bind .trivial fun _ _ =>
    .pure ⟨True.intro, True.intro, rfl⟩

theorem sound_svcb {t : RRType} {make : SvcbData → Rdata}
    (good : ∀ d, LegalName d.target → (make d).Typed ∧ (make d).Fits ∧ (make d).rdataType = t) :
    Sound t (parseSvcb make) := fun _ =>
  .bind .trivial fun _ _ => .bind .trivial fun _ _ => .bind ensures_legal fun _ legal =>
  .bind .trivial fun _ _ => .pure (good _ legal)

theorem ensures_parseTsig (n : Nat) : Ensures (parseTsig n) fun d => Fits (.tsig d) :=
  .bind ensures_legal fun _ legal => .bind .trivial fun _ _ => .bind .trivial fun _ _ =>
  .bind .trivial fun _ _ => .bind ensures_counted16 fun _ mac => .bind .trivial fun _ _ =>
  .bind .trivial fun _ _ => .bind ensures_counted16 fun _ other => .pure ⟨legal, mac, other⟩

theorem sound_tsig : Sound RRType.tsig parseTsigRdata := fun n =>
  .bind (ensures_parseTsig n) fun _ fits => .pure ⟨True.intro, fits, rfl⟩

/-- Every registered codec returns data of its class that can be written again. -/
theorem sound_of_registered : ∀ entry ∈ registry, Sound entry.1 entry.2 := by
  simp only [registry, List.forall_mem_cons]
  exact ⟨sound_a, sound_aaaa, sound_name fun _ legal => ⟨True.intro, legal, rfl⟩,
    sound_name fun _ legal => ⟨True.intro, legal, rfl⟩,
    sound_name fun _ legal => ⟨True.intro, legal, rfl⟩,
    sound_name fun _ legal => ⟨True.intro, legal, rfl⟩, sound_soa, sound_mx, sound_srv,
    sound_txt fun _ short => ⟨True.intro, short, rfl⟩,
    sound_txt fun _ short => ⟨True.intro, short, rfl⟩, sound_hinfo, sound_caa, sound_sshfp,
    sound_tlsa, sound_ds fun _ => ⟨True.intro, True.intro, rfl⟩,
    sound_ds fun _ => ⟨True.intro, True.intro, rfl⟩,
    sound_dnskey fun _ => ⟨True.intro, True.intro, rfl⟩,
    sound_dnskey fun _ => ⟨True.intro, True.intro, rfl⟩, sound_rrsig, sound_nsec, sound_nsec3,
    sound_nsec3param, sound_naptr, sound_uri, sound_svcb fun _ legal => ⟨True.intro, legal, rfl⟩,
    sound_svcb fun _ legal => ⟨True.intro, legal, rfl⟩, sound_tsig, fun _ held => by cases held⟩

theorem lookup_mem {entries : List (RRType × (Nat → Read Rdata))} {t : RRType}
    {codec : Nat → Read Rdata} (found : entries.lookup t = some codec) : (t, codec) ∈ entries := by
  induction entries with
  | nil => cases found
  | cons entry rest ih =>
      obtain ⟨first, parse⟩ := entry
      rw [List.lookup_cons] at found
      split at found
      · next same =>
          cases found
          rw [beq_iff_eq.mp same]
          exact List.mem_cons_self
      · exact List.mem_cons_of_mem _ (ih found)

theorem sound_of_lookup {t : RRType} {codec : Nat → Read Rdata}
    (found : registry.lookup t = some codec) : Sound t codec :=
  sound_of_registered _ (lookup_mem found)

end Trench.Wire.Rdata
