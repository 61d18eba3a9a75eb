import Mathlib
import Trench.AuthZone.Zonefile
import Trench.Wire.NameText
import Trench.Wire.RecordRoundTrip

set_option autoImplicit false

/- The data of a record in a zone file: when they can be read, when they are left out, and when the
wire has room for them. -/
namespace Trench.AuthZone

open Wire
open Wire.Rdata (LegalName InRange)
open Engine (utf8)

namespace Zonefile

variable (u : Strings)

/-! ### What the data of a record say -/

/-- The places of the names in the data of a type. -/
def Kind.names : Kind → List Nat
  | .ns | .ptr | .cname | .dname => [0]
  | .mx => [1]
  | .srv => [3]
  | .soa => [0, 1]
  | .a | .aaaa | .txt | .caa => []

/-- The places of its numbers. -/
def Kind.numbers : Kind → List Nat
  | .mx | .caa => [0]
  | .srv => [0, 1, 2]
  | .soa => [2, 3, 4, 5, 6]
  | .a | .aaaa | .ns | .ptr | .cname | .dname | .txt => []

/-- How many bits its numbers have on the wire. -/
def Kind.width : Kind → Nat
  | .caa => 8
  | .soa => 32
  | _ => 16

/-- How many words its data have at least. -/
def Kind.fields : Kind → Nat
  | .a | .aaaa | .ns | .ptr | .cname | .dname => 1
  | .mx | .caa => 2
  | .srv => 4
  | .txt => 0
  | .soa => 7

/-- A word that denotes a name under the origin. -/
def Nameable (org : Name) (s : Text) : Prop := ∃ name, qualify s org = .ok name

/-- A record as its line has it. -/
structure Entry where
  owner : Name
  ttl : Int
  kind : Kind
  data : List Text
  org : Name

namespace Entry

variable (e : Entry)

def number (i : Nat) : Option Int := e.data[i]?.bind u.int

/-- Its names denote names, as far as the numbers before them are numbers. -/
def Named : Prop :=
  ∀ i ∈ e.kind.names, (∀ j ∈ e.kind.numbers, j < i → (e.number u j).isSome) →
    ∀ s ∈ e.data[i]?, Nameable e.org s

/-- It has its words, and numbers where they are due; without them it is left out. -/
def Carries : Prop :=
  e.kind.fields ≤ e.data.length ∧ ∀ j ∈ e.kind.numbers, (e.number u j).isSome

instance : Decidable (e.Carries u) := inferInstanceAs (Decidable (_ ∧ _))

/-- Its numbers fit their fields, its addresses are written as the reader of the wire writes them,
its strings are of legal length. -/
def InBounds : Prop :=
  (∀ j ∈ e.kind.numbers, ∀ n ∈ e.number u j, InRange e.kind.width n) ∧
    match e.kind with
    | .a => ∀ s ∈ e.data[0]?, ∃ octets : Octets, octets.length = 4 ∧ s = inetNtop4 octets
    | .aaaa => ∀ s ∈ e.data[0]?, ∃ octets : Octets, octets.length = 16 ∧ s = inetNtop6 octets
    | .txt => (quoted e.data).length ≤ 255
    | .caa => ∀ tag ∈ e.data[1]?, (utf8 tag).length ≤ 255 ∧
        2 + (utf8 tag).length + (quoted (e.data.drop 2)).length ≤ 65535
    | _ => True

end Entry

/-- Data of a type, within the bounds of the wire or not. -/
structure Holds (kind : Kind) (rd : Rdata) (bounded : Prop) : Prop where
  typed : rd.Typed
  rtype : rd.rdataType = kind.rtype
  fits : rd.Fits ∧ rd.octets.length ≤ 65535 ↔ bounded

theorem length_nameOctets {name : Name} (legal : LegalName name) : (Rdata.nameOctets name).length ≤ 255 := by
  rw [LegalName, Name.wireLen_eq] at legal
  rw [Rdata.nameOctets, List.length_append]
  exact legal

theorem octets_eq {rd : Rdata} {out : Octets} (emitted : rd.emit Writer.empty = .ok (Writer.empty.raw out)) :
    rd.octets = out := by
  rw [Rdata.octets, emitted]
  rfl

theorem legal_of_qualify {org name : Name} {s : Text} (legal : LegalName org)
    (read : qualify s org = .ok name) : LegalName name := by
  rw [qualify] at read
  split at read
  · cases read
    exact legal
  · split at read <;> exact Name.wireLen_of_fromText read

theorem holds_a (s : Text) :
    Holds .a (.a s) (∃ octets : Octets, octets.length = 4 ∧ s = inetNtop4 octets) where
  typed := True.intro
  rtype := rfl
  fits := by
    refine ⟨And.left, fun fits => ⟨fits, ?_⟩⟩
    obtain ⟨octets, four, rfl⟩ := fits
    have emitted : (Rdata.a (inetNtop4 octets)).emit Writer.empty = .ok (Writer.empty.raw octets) := by
      simp only [Rdata.emit, inetPton4_inetNtop4 octets four]
    rw [octets_eq emitted]
    omega

theorem holds_aaaa (s : Text) :
    Holds .aaaa (.aaaa s) (∃ octets : Octets, octets.length = 16 ∧ s = inetNtop6 octets) where
  typed := True.intro
  rtype := rfl
  fits := by
    refine ⟨And.left, fun fits => ⟨fits, ?_⟩⟩
    obtain ⟨octets, sixteen, rfl⟩ := fits
    have emitted : (Rdata.aaaa (inetNtop6 octets)).emit Writer.empty = .ok (Writer.empty.raw octets) := by
      simp only [Rdata.emit, inetPton6_inetNtop6 octets sixteen]
    rw [octets_eq emitted]
    omega

/-- The name classes. -/
theorem holds_name {kind : Kind} {make : Name → Rdata} {name : Name} (legal : LegalName name)
    (typed : (make name).Typed) (rtype : (make name).rdataType = kind.rtype)
    (fits : (make name).Fits ↔ LegalName name)
    (writes : ∀ w, (make name).emit w = .ok (w.writeName name false)) : Holds kind (make name) True where
  typed
  rtype
  fits := by
    rw [fits, iff_true]
    refine ⟨legal, ?_⟩
    have short := length_nameOctets legal
    have emitted : (make name).emit Writer.empty = .ok (Writer.empty.raw (Rdata.nameOctets name)) := by
      rw [writes, Writer.writeName_plain, Rdata.nameOctets]
    rw [octets_eq emitted]
    omega

theorem holds_mx {d : MxData} (legal : LegalName d.exchange) :
    Holds .mx (.mx d) (InRange 16 d.preference) where
  typed := True.intro
  rtype := rfl
  fits := by
    refine ⟨fun both => both.1.1, fun range => ⟨⟨range, legal⟩, ?_⟩⟩
    have short := length_nameOctets legal
    have emitted : (Rdata.mx d).emit Writer.empty = .ok (Writer.empty.raw
        (octets16 (UInt16.ofInt d.preference) ++ Rdata.nameOctets d.exchange)) := by
      simp only [Rdata.emit, Writer.int16, Writer.u16, Writer.writeName_plain, Writer.raw_raw, Rdata.nameOctets]
    rw [octets_eq emitted, List.length_append, length_octets16]
    omega

theorem holds_srv {d : SrvData} (legal : LegalName d.target) :
    Holds .srv (.srv d) (InRange 16 d.priority ∧ InRange 16 d.weight ∧ InRange 16 d.port) where
  typed := True.intro
  rtype := rfl
  fits := by
    refine ⟨fun both => ⟨both.1.1, both.1.2.1, both.1.2.2.1⟩,
      fun ranges => ⟨⟨ranges.1, ranges.2.1, ranges.2.2, legal⟩, ?_⟩⟩
    have short := length_nameOctets legal
    have emitted : (Rdata.srv d).emit Writer.empty = .ok (Writer.empty.raw
        (octets16 (UInt16.ofInt d.priority) ++ (octets16 (UInt16.ofInt d.weight) ++
          (octets16 (UInt16.ofInt d.port) ++ Rdata.nameOctets d.target)))) := by
      simp only [Rdata.emit, Writer.int16, Writer.u16, Writer.writeName_plain, Writer.raw_raw,
        Rdata.nameOctets, List.append_assoc]
    rw [octets_eq emitted]
    simp only [List.length_append, length_octets16]
    omega

theorem holds_txt (s : Octets) : Holds .txt (.txt [s]) (s.length ≤ 255) where
  typed := True.intro
  rtype := rfl
  fits := by
    constructor
    · exact fun both => both.1 s List.mem_cons_self
    · intro short
      have each : ∀ t ∈ [s], t.length ≤ 255 := List.forall_mem_singleton.mpr short
      refine ⟨each, ?_⟩
      have emitted : (Rdata.txt [s]).emit Writer.empty =
          .ok (Writer.empty.raw ([s].flatMap Rdata.countedOctets)) := Rdata.emitStrings_eq _ [s] each
      rw [octets_eq emitted, List.flatMap_cons, List.flatMap_nil, List.append_nil, Rdata.countedOctets,
        List.length_append, List.length_singleton]
      omega

theorem octets_caa (d : CaaData) :
    (Rdata.caa d).octets.length = 2 + d.tag.length + d.value.length := by
  have emitted : (Rdata.caa d).emit Writer.empty = .ok (Writer.empty.raw
      ([UInt8.ofInt d.flags] ++ (Rdata.countedOctets d.tag ++ d.value))) := by
    simp only [Rdata.emit, Writer.int8, Writer.u8, Rdata.counted_eq, Writer.raw_raw, List.append_assoc]
  rw [octets_eq emitted]
  simp only [Rdata.countedOctets, List.length_append, List.length_singleton]
  omega

theorem holds_caa (d : CaaData) :
    Holds .caa (.caa d) (InRange 8 d.flags ∧ d.tag.length ≤ 255 ∧ 2 + d.tag.length + d.value.length ≤ 65535) where
  typed := True.intro
  rtype := rfl
  fits := by
    rw [octets_caa]
    exact and_assoc

theorem holds_soa {d : SoaData} (mname : LegalName d.mname) (rname : LegalName d.rname) :
    Holds .soa (.soa d) (InRange 32 d.serial ∧ InRange 32 d.refresh ∧ InRange 32 d.retry ∧
      InRange 32 d.expire ∧ InRange 32 d.minimum) where
  typed := True.intro
  rtype := rfl
  fits := by
    refine ⟨fun both => both.1.2.2, fun ranges => ⟨⟨mname, rname, ranges⟩, ?_⟩⟩
    have first := length_nameOctets mname
    have second := length_nameOctets rname
    have emitted : (Rdata.soa d).emit Writer.empty = .ok (Writer.empty.raw
        (Rdata.nameOctets d.mname ++ (Rdata.nameOctets d.rname ++
          (octets32 (UInt32.ofInt d.serial) ++ (octets32 (UInt32.ofInt d.refresh) ++
            (octets32 (UInt32.ofInt d.retry) ++ (octets32 (UInt32.ofInt d.expire) ++
              octets32 (UInt32.ofInt d.minimum)))))))) := by
      simp only [Rdata.emit, Writer.int32, Writer.u32, Writer.writeName_plain, Writer.raw_raw,
        Rdata.nameOctets, List.append_assoc]
    rw [octets_eq emitted]
    simp only [List.length_append, length_octets32]
    omega

/-- What reading the data of a record comes to. -/
structure Read (e : Entry) : Prop where
  unnamed : ¬ e.Named u → ∃ w, readRdata u e.kind e.data e.org = .error (.wire w)
  carried : e.Named u → e.Carries u →
    ∃ rd, readRdata u e.kind e.data e.org = .ok rd ∧ Holds e.kind rd (e.InBounds u)
  dropped : e.Named u → ¬ e.Carries u →
    ∃ fault, readRdata u e.kind e.data e.org = .error fault ∧ ∀ w, fault ≠ .wire w

theorem Holds.congr {kind : Kind} {rd : Rdata} {p q : Prop} (holds : Holds kind rd p) (same : p ↔ q) :
    Holds kind rd q :=
  ⟨holds.typed, holds.rtype, holds.fits.trans same⟩

section

variable {u} {owner : Name} {ttl : Int} {data : List Text} {org : Name}

/-- A type whose data are one word. -/
theorem read_word {kind : Kind} (make : Text → Rdata) (bounded : Text → Prop)
    (names : kind.names = []) (numbers : kind.numbers = []) (fields : kind.fields = 1)
    (bounds : ∀ e : Entry, e.kind = kind → (e.InBounds u ↔ ∀ s ∈ e.data[0]?, bounded s))
    (reads : ∀ s more, readRdata u kind (s :: more) org = .ok (make s))
    (reads_nil : readRdata u kind [] org = .error .index)
    (holds : ∀ s, Holds kind (make s) (bounded s)) : Read u ⟨owner, ttl, kind, data, org⟩ := by
  have named : (⟨owner, ttl, kind, data, org⟩ : Entry).Named u := by simp [Entry.Named, names]
  have inside := bounds ⟨owner, ttl, kind, data, org⟩ rfl
  obtain _ | ⟨s, more⟩ := data
  · refine ⟨absurd named, fun _ carries => ?_, fun _ _ => ⟨.index, reads_nil, by simp⟩⟩
    have enough := carries.1
    simp [fields] at enough
  · refine ⟨absurd named, fun _ _ => ⟨make s, reads s more, (holds s).congr ?_⟩, fun _ lacks => absurd ?_ lacks⟩
    · rw [inside]
      simp
    · exact ⟨by simp [fields], by simp [numbers]⟩

theorem read_txt : Read u ⟨owner, ttl, .txt, data, org⟩ where
  unnamed unnamed := absurd (fun i held => by cases held) unnamed
  carried _ _ := by
    refine ⟨.txt [quoted data], rfl, (holds_txt _).congr ?_⟩
    simp [Entry.InBounds, Kind.numbers]
  dropped _ lacks := absurd ⟨Nat.zero_le _, by simp [Kind.numbers]⟩ lacks

/-- One step of a reading failed, and the record is left out. -/
def Drops {α : Type} (read : Except Fault α) : Prop := ∃ fault, read = .error fault ∧ ∀ w, fault ≠ .wire w

theorem Drops.bind {α β : Type} {read : Except Fault α} (drops : Drops read) (f : α → Except Fault β) :
    Drops (read >>= f) := by
  obtain ⟨fault, rfl, other⟩ := drops
  exact ⟨fault, rfl, other⟩

variable (u data org) in
def numberAt (i : Nat) : Except Fault Int := tokenAt data i >>= int u

variable (data org) in
def nameAt (i : Nat) : Except Fault Name := tokenAt data i >>= name org

/-- A number that is read, or one that is not. -/
theorem numberAt_cases (e : Entry) (i : Nat) :
    (∃ n, e.number u i = some n ∧ numberAt u e.data i = .ok n) ∨
      (e.number u i = none ∧ Drops (numberAt u e.data i)) := by
  rw [numberAt, Entry.number, tokenAt]
  cases e.data[i]? with
  | none => exact .inr ⟨rfl, .index, rfl, by simp⟩
  | some s =>
      cases number : u.int s with
      | none => exact .inr ⟨number, .value, by simp [int, number, bind, Except.bind], by simp⟩
      | some n => exact .inl ⟨n, number, by simp [int, number, bind, Except.bind]⟩

/-- A name that is read, one that is refused, or none. -/
theorem nameAt_cases (data : List Text) (legal : LegalName org) (i : Nat) :
    (∃ s found, data[i]? = some s ∧ qualify s org = .ok found ∧ LegalName found ∧ nameAt data org i = .ok found) ∨
      (∃ s w, data[i]? = some s ∧ qualify s org = .error w ∧ nameAt data org i = .error (.wire w)) ∨
      (data[i]? = none ∧ Drops (nameAt data org i)) := by
  rw [nameAt, tokenAt]
  cases data[i]? with
  | none => exact .inr (.inr ⟨rfl, .index, rfl, by simp⟩)
  | some s =>
      cases read : qualify s org with
      | ok found =>
          refine .inl ⟨s, found, rfl, read, legal_of_qualify legal read, ?_⟩
          simp [name, read, bind, Except.bind]
      | error w => exact .inr (.inl ⟨s, w, rfl, read, by simp [name, read, bind, Except.bind]⟩)

theorem nameable_iff {s : Text} {found : Name} (read : qualify s org = .ok found) : Nameable org s ↔ True :=
  iff_true_intro ⟨found, read⟩

theorem not_nameable {s : Text} {w : WireError} (refused : qualify s org = .error w) : ¬ Nameable org s := by
  rintro ⟨found, read⟩
  rw [refused] at read
  cases read

/-- A type whose data are numbers and a name behind them. -/
theorem read_last {e : Entry} (legal : LegalName e.org) {k : Nat} (names : e.kind.names = [k])
    (before : ∀ j ∈ e.kind.numbers, j < k) (fields : e.kind.fields = k + 1)
    (reads : (∀ j ∈ e.kind.numbers, (e.number u j).isSome) → ∃ make : Name → Rdata,
      readRdata u e.kind e.data e.org = (make <$> nameAt e.data e.org k) ∧
        ∀ found, LegalName found → Holds e.kind (make found) (e.InBounds u))
    (drops : ¬ (∀ j ∈ e.kind.numbers, (e.number u j).isSome) → Drops (readRdata u e.kind e.data e.org)) :
    Read u e := by
  by_cases numbers : ∀ j ∈ e.kind.numbers, (e.number u j).isSome
  · obtain ⟨make, same, holds⟩ := reads numbers
    have named_iff : e.Named u ↔ ∀ s ∈ e.data[k]?, Nameable e.org s := by
      rw [Entry.Named, names, List.forall_mem_singleton]
      exact ⟨fun named => named fun j held _ => numbers j held, fun named _ => named⟩
    have carries_iff : e.Carries u ↔ k < e.data.length := by
      rw [Entry.Carries, fields, Nat.succ_le_iff]
      exact and_iff_left numbers
    rcases nameAt_cases e.data legal k with
      ⟨s, found, there, read, short, at_k⟩ | ⟨s, w, there, refused, at_k⟩ | ⟨missing, dropped⟩
    · have inside : k < e.data.length := (List.getElem?_eq_some_iff.mp there).1
      refine ⟨fun unnamed => absurd ?_ unnamed, fun _ _ => ⟨make found, ?_, holds found short⟩,
        fun _ lacks => absurd (carries_iff.mpr inside) lacks⟩
      · rw [named_iff, there]
        rintro _ ⟨⟩
        exact ⟨found, read⟩
      · rw [same, at_k]
        rfl
    · have unnamed : ¬ e.Named u := by
        rw [named_iff, there]
        exact fun named => not_nameable refused (named s rfl)
      refine ⟨fun _ => ⟨w, ?_⟩, fun named => absurd named unnamed, fun named => absurd named unnamed⟩
      rw [same, at_k]
      rfl
    · have outside : ¬ k < e.data.length := not_lt.mpr (List.getElem?_eq_none_iff.mp missing)
      refine ⟨fun unnamed => absurd ?_ unnamed, fun _ carries => absurd (carries_iff.mp carries) outside,
        fun _ _ => ?_⟩
      · rw [named_iff, missing]
        rintro _ ⟨⟩
      · obtain ⟨fault, failed, other⟩ := dropped
        exact ⟨fault, by rw [same, failed]; rfl, other⟩
  · refine ⟨fun unnamed => absurd ?_ unnamed, fun _ carries => absurd carries.2 numbers, fun _ _ => drops numbers⟩
    rw [Entry.Named, names, List.forall_mem_singleton]
    exact fun ahead => absurd (fun j held => ahead j held (before j held)) numbers

/-- A type whose data are one name. -/
theorem read_name {kind : Kind} (make : Name → Rdata) (legal : LegalName org)
    (names : kind.names = [0]) (numbers : kind.numbers = []) (fields : kind.fields = 1)
    (bounds : ∀ e : Entry, e.kind = kind → e.InBounds u)
    (reads : readRdata u kind data org = (make <$> nameAt data org 0))
    (holds : ∀ name, LegalName name → Holds kind (make name) True) :
    Read u ⟨owner, ttl, kind, data, org⟩ := by
  have none (P : Nat → Prop) : ∀ j ∈ kind.numbers, P j := by simp [numbers]
  refine read_last (e := ⟨owner, ttl, kind, data, org⟩) legal names (none _) fields (fun _ => ⟨make, reads, ?_⟩)
    fun absent => absurd (none _) absent
  exact fun found short => (holds found short).congr (iff_of_true True.intro (bounds _ rfl))

theorem numberAt_ok {e : Entry} {i : Nat} (present : (e.number u i).isSome) :
    ∃ n, e.number u i = some n ∧ numberAt u e.data i = .ok n := by
  rcases numberAt_cases (u := u) e i with found | ⟨absent, -⟩
  · exact found
  · rw [absent] at present
    cases present

theorem numberAt_drops {e : Entry} {i : Nat} (absent : ¬ (e.number u i).isSome) :
    Drops (numberAt u e.data i) := by
  rcases numberAt_cases (u := u) e i with ⟨n, found, -⟩ | ⟨-, drops⟩
  · exact absurd (Option.isSome_iff_exists.mpr ⟨n, found⟩) absent
  · exact drops

theorem read_mx (legal : LegalName org) : Read u ⟨owner, ttl, .mx, data, org⟩ := by
  have reads : readRdata u .mx data org = numberAt u data 0 >>= fun preference =>
      (fun exchange => Rdata.mx { preference, exchange }) <$> nameAt data org 1 := by
    simp only [readRdata, numberAt, nameAt, bind_assoc, map_eq_pure_bind]
  refine read_last legal rfl (by simp [Kind.numbers]) rfl (fun numbers => ?_) fun lacks => ?_
  · obtain ⟨n, number, first⟩ := numberAt_ok (numbers 0 (by simp [Kind.numbers]))
    refine ⟨fun exchange => .mx ⟨n, exchange⟩, ?_, fun found short => (holds_mx short).congr ?_⟩
    · rw [reads, first]
      rfl
    · simp [Entry.InBounds, Kind.numbers, number, Kind.width]
  · rw [reads]
    exact (numberAt_drops fun present => lacks (by simpa [Kind.numbers] using present)).bind _

theorem read_srv (legal : LegalName org) : Read u ⟨owner, ttl, .srv, data, org⟩ := by
  have reads : readRdata u .srv data org = numberAt u data 0 >>= fun priority =>
      numberAt u data 1 >>= fun weight => numberAt u data 2 >>= fun port =>
        (fun target => Rdata.srv { priority, weight, port, target }) <$> nameAt data org 3 := by
    simp only [readRdata, numberAt, nameAt, bind_assoc, map_eq_pure_bind]
  let e : Entry := ⟨owner, ttl, .srv, data, org⟩
  refine read_last legal rfl (by simp [Kind.numbers]) rfl (fun numbers => ?_) fun lacks => ?_
  · obtain ⟨p, number₀, first⟩ := numberAt_ok (numbers 0 (by simp [Kind.numbers]))
    obtain ⟨w, number₁, second⟩ := numberAt_ok (numbers 1 (by simp [Kind.numbers]))
    obtain ⟨port, number₂, third⟩ := numberAt_ok (numbers 2 (by simp [Kind.numbers]))
    refine ⟨fun target => .srv ⟨p, w, port, target⟩, ?_, fun found short => (holds_srv short).congr ?_⟩
    · rw [reads, first]
      change (numberAt u data 1 >>= _) = _
      rw [second]
      change (numberAt u data 2 >>= _) = _
      rw [third]
      rfl
    · simp [Entry.InBounds, Kind.numbers, number₀, number₁, number₂, Kind.width]
  · change Drops (readRdata u .srv data org)
    rw [reads]
    rcases numberAt_cases (u := u) e 0 with ⟨p, number₀, first⟩ | ⟨-, drops⟩
    · rcases numberAt_cases (u := u) e 1 with ⟨w, number₁, second⟩ | ⟨-, drops⟩
      · have third : ¬ (e.number u 2).isSome := fun present => lacks (by
          simpa [Kind.numbers, e, number₀, number₁] using present)
        rw [show numberAt u data 0 = _ from first]
        change Drops (numberAt u data 1 >>= _)
        rw [show numberAt u data 1 = _ from second]
        exact (numberAt_drops third).bind _
      · rw [show numberAt u data 0 = _ from first]
        exact drops.bind _
    · exact drops.bind _

theorem read_caa : Read u ⟨owner, ttl, .caa, data, org⟩ := by
  have named : (⟨owner, ttl, .caa, data, org⟩ : Entry).Named u := by simp [Entry.Named, Kind.names]
  have reads : readRdata u .caa data org = numberAt u data 0 >>= fun flags =>
      (fun tag => Rdata.caa { flags, tag := utf8 tag, value := quoted (data.drop 2) }) <$> tokenAt data 1 := by
    simp only [readRdata, numberAt, bind_assoc, map_eq_pure_bind]
  refine ⟨absurd named, fun _ carries => ?_, fun _ lacks => ?_⟩
  · obtain ⟨n, number, first⟩ := numberAt_ok (carries.2 0 (by simp [Kind.numbers]))
    have inside : 1 < data.length := carries.1
    have there : data[1]? = some data[1] := List.getElem?_eq_getElem inside
    refine ⟨.caa ⟨n, utf8 data[1], quoted (data.drop 2)⟩, ?_, (holds_caa _).congr ?_⟩
    · rw [reads, first]
      change _ <$> tokenAt data 1 = _
      rw [tokenAt, there]
      rfl
    · simp [Entry.InBounds, Kind.numbers, number, Kind.width, there]
  · change Drops (readRdata u .caa data org)
    rw [reads]
    rcases numberAt_cases (u := u) ⟨owner, ttl, .caa, data, org⟩ 0 with ⟨n, number, first⟩ | ⟨-, drops⟩
    · have outside : data[1]? = none := by
        refine List.getElem?_eq_none (not_lt.mp fun inside => lacks ⟨inside, ?_⟩)
        simp [Kind.numbers, number]
      rw [show numberAt u data 0 = _ from first]
      refine ⟨.index, ?_, by simp⟩
      change _ <$> tokenAt data 1 = _
      rw [tokenAt, outside]
      rfl
    · exact drops.bind _

/-- Words that are all numbers, or one that is none. -/
theorem mapM_int_cases (u : Strings) (xs : List Text) :
    (∃ ns, xs.mapM (int u) = .ok ns ∧ xs.map u.int = ns.map some) ∨
      (Drops (xs.mapM (int u)) ∧ ∃ s ∈ xs, u.int s = none) := by
  induction xs with
  | nil => exact .inl ⟨[], rfl, rfl⟩
  | cons s rest ih =>
      rw [List.mapM_cons]
      cases number : u.int s with
      | none =>
          have failed : int u s = .error .value := by rw [int, number]
          refine .inr ⟨⟨.value, ?_, by simp⟩, s, List.mem_cons_self, number⟩
          rw [failed]
          rfl
      | some n =>
          have read : int u s = .ok n := by rw [int, number]
          rcases ih with ⟨ns, others, same⟩ | ⟨drops, bad, held, none⟩
          · refine .inl ⟨n :: ns, ?_, ?_⟩
            · rw [read]
              change (rest.mapM (int u) >>= _) = _
              rw [others]
              rfl
            · rw [List.map_cons, List.map_cons, same, number]
          · refine .inr ⟨?_, bad, List.mem_cons_of_mem _ held, none⟩
            rw [read]
            exact drops.bind _

def soaOf (mname rname : Name) (ns : List Int) : Except Fault Rdata :=
  match ns with
  | [serial, refresh, retry, expire, minimum] => .ok (.soa { mname, rname, serial, refresh, retry, expire, minimum })
  | _ => .error .type

theorem soaOf_drops {mname rname : Name} {ns : List Int} (short : ns.length < 5) : Drops (soaOf mname rname ns) := by
  rcases ns with _ | ⟨_, _ | ⟨_, _ | ⟨_, _ | ⟨_, _ | ⟨_, rest⟩⟩⟩⟩⟩
  all_goals first
    | exact ⟨.type, rfl, by simp⟩
    | (simp only [List.length_cons] at short; omega)

theorem number_drop (e : Entry) {i : Nat} (within : i < 5) :
    e.number u (2 + i) = (((e.data.drop 2).take 5).map u.int)[i]?.join := by
  rw [List.getElem?_map, List.getElem?_take_of_lt within, List.getElem?_drop, Entry.number]
  cases e.data[2 + i]? <;> rfl

theorem forall_numbers_soa {P : Nat → Prop} : (∀ j ∈ Kind.soa.numbers, P j) ↔ ∀ i < 5, P (2 + i) := by
  constructor
  · intro each i within
    exact each (2 + i) (by simp only [Kind.numbers, List.mem_cons, List.not_mem_nil, or_false]; omega)
  · intro each j held
    simp only [Kind.numbers, List.mem_cons, List.not_mem_nil, or_false] at held
    obtain ⟨i, within, rfl⟩ : ∃ i < 5, 2 + i = j := ⟨j - 2, by omega, by omega⟩
    exact each i within

/-- The numbers of an SOA, its names having been read. -/
theorem soa_numbers {e : Entry} (soa : e.kind = .soa) {mname rname : Name} (first : LegalName mname)
    (second : LegalName rname) :
    (e.Carries u → ∃ rd, ((e.data.drop 2).take 5).mapM (int u) >>= soaOf mname rname = .ok rd ∧
      Holds .soa rd (e.InBounds u)) ∧
    (¬ e.Carries u → Drops (((e.data.drop 2).take 5).mapM (int u) >>= soaOf mname rname)) := by
  have carries_iff : e.Carries u ↔ 7 ≤ e.data.length ∧ ∀ i < 5, (e.number u (2 + i)).isSome := by
    rw [Entry.Carries, soa, forall_numbers_soa]
    rfl
  rcases mapM_int_cases u ((e.data.drop 2).take 5) with ⟨ns, numbers, same⟩ | ⟨drops, bad, held, none⟩
  · have count : ns.length = min 5 (e.data.length - 2) := by
      have lengths := congrArg List.length same
      rw [List.length_map, List.length_map, List.length_take, List.length_drop] at lengths
      exact lengths.symm
    have number (i : Nat) (within : i < 5) : e.number u (2 + i) = ns[i]? := by
      rw [number_drop e within, same, List.getElem?_map]
      cases ns[i]? <;> rfl
    rw [numbers]
    constructor
    · intro carries
      have long := (carries_iff.mp carries).1
      obtain ⟨serial, refresh, retry, expire, minimum, rfl⟩ : ∃ a b c d f, ns = [a, b, c, d, f] := by
        rcases ns with _ | ⟨a, _ | ⟨b, _ | ⟨c, _ | ⟨d, _ | ⟨f, _ | ⟨g, rest⟩⟩⟩⟩⟩⟩
        all_goals first
          | exact ⟨_, _, _, _, _, rfl⟩
          | (simp only [List.length_nil, List.length_cons] at count; omega)
      refine ⟨.soa ⟨mname, rname, serial, refresh, retry, expire, minimum⟩, rfl, (holds_soa first second).congr ?_⟩
      rw [Entry.InBounds, soa, forall_numbers_soa, and_iff_left True.intro]
      constructor
      · rintro ⟨r₀, r₁, r₂, r₃, r₄⟩ i within n held
        rw [number i within] at held
        obtain rfl | rfl | rfl | rfl | rfl : i = 0 ∨ i = 1 ∨ i = 2 ∨ i = 3 ∨ i = 4 := by omega
        all_goals
          cases held
          assumption
      · intro each
        have at_place (i : Nat) (within : i < 5) (n : Int) (held : [serial, refresh, retry, expire, minimum][i]? = some n) :
            InRange 32 n := each i within n (number i within ▸ held)
        exact ⟨at_place 0 (by decide) _ rfl, at_place 1 (by decide) _ rfl, at_place 2 (by decide) _ rfl,
          at_place 3 (by decide) _ rfl, at_place 4 (by decide) _ rfl⟩
    · intro lacks
      refine soaOf_drops (not_le.mp fun five => lacks (carries_iff.mpr ⟨by omega, fun i within => ?_⟩))
      rw [number i within, List.getElem?_eq_getElem (by omega)]
      rfl
  · refine ⟨fun carries => ?_, fun _ => drops.bind _⟩
    obtain ⟨i, inside, rfl⟩ := List.mem_iff_getElem.mp held
    have within : i < 5 := by
      rw [List.length_take] at inside
      omega
    have present := (carries_iff.mp carries).2 i within
    rw [number_drop e within, List.getElem?_map, List.getElem?_eq_getElem inside, Option.map_some, none] at present
    cases present

theorem read_soa (legal : LegalName org) : Read u ⟨owner, ttl, .soa, data, org⟩ := by
  let e : Entry := ⟨owner, ttl, .soa, data, org⟩
  have reads : readRdata u .soa data org = nameAt data org 0 >>= fun mname => nameAt data org 1 >>= fun rname =>
      ((data.drop 2).take 5).mapM (int u) >>= soaOf mname rname := by
    simp only [readRdata, nameAt, bind_assoc]
    rfl
  have named_iff : e.Named u ↔ (∀ s ∈ data[0]?, Nameable org s) ∧ ∀ s ∈ data[1]?, Nameable org s := by
    simp [e, Entry.Named, Kind.names, Kind.numbers]
  have refusal (w : WireError) (unnamed : ¬ e.Named u) (failed : readRdata u .soa data org = .error (.wire w)) :
      Read u e :=
    ⟨fun _ => ⟨w, failed⟩, fun named => absurd named unnamed, fun named => absurd named unnamed⟩
  have omission (i : Nat) (few : i < 7) (missing : data[i]? = none) (drops : Drops (readRdata u .soa data org))
      (named : e.Named u) : Read u e := by
    refine ⟨fun unnamed => absurd named unnamed, fun _ carries => ?_, fun _ _ => drops⟩
    have enough : 7 ≤ data.length := carries.1
    have short := List.getElem?_eq_none_iff.mp missing
    omega
  rcases nameAt_cases data legal 0 with
    ⟨first, mname, there₀, read₀, short₀, at₀⟩ | ⟨first, w, there₀, refused, at₀⟩ | ⟨missing, drops⟩
  · rw [at₀] at reads
    change _ = nameAt data org 1 >>= _ at reads
    have named₀ : ∀ s ∈ data[0]?, Nameable org s := by
      rw [there₀]
      rintro _ ⟨⟩
      exact ⟨mname, read₀⟩
    rcases nameAt_cases data legal 1 with
      ⟨second, rname, there₁, read₁, short₁, at₁⟩ | ⟨second, w, there₁, refused, at₁⟩ | ⟨missing, drops⟩
    · have named₁ : ∀ s ∈ data[1]?, Nameable org s := by
        rw [there₁]
        rintro _ ⟨⟩
        exact ⟨rname, read₁⟩
      rw [at₁] at reads
      change _ = List.mapM (int u) ((data.drop 2).take 5) >>= _ at reads
      obtain ⟨carried, dropped⟩ := soa_numbers (u := u) (e := e) rfl short₀ short₁
      refine ⟨fun unnamed => absurd (named_iff.mpr ⟨named₀, named₁⟩) unnamed, fun _ carries => ?_, fun _ lacks => ?_⟩
      · obtain ⟨rd, read, holds⟩ := carried carries
        exact ⟨rd, reads.trans read, holds⟩
      · change Drops (readRdata u .soa data org)
        rw [reads]
        exact dropped lacks
    · rw [at₁] at reads
      refine refusal w (fun named => ?_) reads
      rw [named_iff, there₁] at named
      exact not_nameable refused (named.2 second rfl)
    · refine omission 1 (by decide) missing (reads ▸ drops.bind _) (named_iff.mpr ⟨named₀, ?_⟩)
      rw [missing]
      rintro _ ⟨⟩
  · rw [at₀] at reads
    refine refusal w (fun named => ?_) reads
    rw [named_iff, there₀] at named
    exact not_nameable refused (named.1 first rfl)
  · have empty : data = [] := List.getElem?_eq_none_iff.mp missing |> Nat.le_zero.mp |> List.eq_nil_of_length_eq_zero
    refine omission 0 (by decide) missing (reads ▸ drops.bind _) (named_iff.mpr ?_)
    rw [empty]
    exact ⟨by rintro _ ⟨⟩, by rintro _ ⟨⟩⟩

end

theorem inBounds_of_name {u : Strings} {e : Entry} (name : e.kind = .ns ∨ e.kind = .ptr ∨ e.kind = .cname ∨ e.kind = .dname) :
    e.InBounds u := by
  rw [Entry.InBounds]
  rcases name with kind | kind | kind | kind <;> simp [kind, Kind.numbers]

/-- One case per type. -/
theorem read_entry (e : Entry) (legal : LegalName e.org) : Read u e := by
  obtain ⟨owner, ttl, kind, data, org⟩ := e
  have single (make : Name → Rdata) : (do return make (← name org (← tokenAt data 0)) : Except Fault Rdata) =
      (make <$> nameAt data org 0) := by
    simp only [nameAt, map_eq_pure_bind, bind_assoc]
  cases kind with
  | a =>
      exact read_word .a (fun s => ∃ octets : Octets, octets.length = 4 ∧ s = inetNtop4 octets) rfl rfl rfl
        (fun e kind => by simp [Entry.InBounds, kind, Kind.numbers]) (fun _ _ => rfl) rfl holds_a
  | aaaa =>
      exact read_word .aaaa (fun s => ∃ octets : Octets, octets.length = 16 ∧ s = inetNtop6 octets) rfl rfl rfl
        (fun e kind => by simp [Entry.InBounds, kind, Kind.numbers]) (fun _ _ => rfl) rfl holds_aaaa
  | ns =>
      exact read_name .ns legal rfl rfl rfl (fun _ kind => inBounds_of_name (.inl kind)) (single _)
        fun _ short => holds_name short True.intro rfl .rfl fun _ => rfl
  | ptr =>
      exact read_name .ptr legal rfl rfl rfl (fun _ kind => inBounds_of_name (.inr (.inl kind))) (single _)
        fun _ short => holds_name short True.intro rfl .rfl fun _ => rfl
  | cname =>
      exact read_name .cname legal rfl rfl rfl (fun _ kind => inBounds_of_name (.inr (.inr (.inl kind)))) (single _)
        fun _ short => holds_name short True.intro rfl .rfl fun _ => rfl
  | dname =>
      exact read_name .dname legal rfl rfl rfl (fun _ kind => inBounds_of_name (.inr (.inr (.inr kind)))) (single _)
        fun _ short => holds_name short True.intro rfl .rfl fun _ => rfl
  | mx => exact read_mx legal
  | srv => exact read_srv legal
  | txt => exact read_txt
  | caa => exact read_caa
  | soa => exact read_soa legal

end Zonefile

end Trench.AuthZone
