import Mathlib
import Trench.Wire.Message
import Trench.Wire.RdataRoundTrip

set_option autoImplicit false

/- Written records against what is read from them. Every record's data must land: its
type's reader, set before the data in the final buffer, gives it back. That is all
that reading a section back depends on. -/
namespace Trench.Wire

open Cursor (Parses Ensures Before raiseIf)
open Reader
open Rdata (LegalName InRange nameOctets Coded)

/-! ### Equality up to letter case -/

def RR.fold (rr : RR) : RR := { rr with name := rr.name.canonicalize, rdata := rr.rdata.fold }

theorem canonicalize_congr {a b : Name} (same : a.lower = b.lower) :
    a.canonicalize = b.canonicalize := by
  rw [Name.canonicalize, Name.canonicalize, same]

/-! ### One record -/

/-- A record the writer takes: its numbers are in range and its data emits the
same octets wherever it is written. -/
structure RR.Writable (rr : RR) : Prop where
  legal : LegalName rr.name
  ttl : InRange 32 rr.ttl
  emits : ∃ octets, ∀ w, rr.rdata.emit w = .ok (w.raw octets)

/-- The octets of a record's data. -/
def Rdata.octets (rd : Rdata) : Octets :=
  match rd.emit Writer.empty with
  | .ok w => w.buf
  | .error _ => []

theorem RR.Writable.emit_eq {rr : RR} (writable : rr.Writable) (w : Writer) :
    rr.rdata.emit w = .ok (w.raw rr.rdata.octets) := by
  obtain ⟨octets, emits⟩ := writable.emits
  have same : rr.rdata.octets = octets := by
    rw [Rdata.octets, emits]
    rfl
  rw [same, emits]

/-- Where the data of a record starts when `after` is the writer behind it. -/
def RR.dataPos (rr : RR) (after : Writer) : Nat := after.tell - rr.rdata.octets.length

/-- What stands between two writers: a name read back in its letters' fold, the
fixed fields, and the data. -/
structure RRWritten (w : Writer) (rr : RR) (after : Writer) : Prop where
  sound : after.Sound
  grows : ∃ out, after.buf = w.buf ++ out
  head : ∃ other : Name, other.lower = rr.name.lower ∧ ∀ more : Octets,
    readHead ⟨after.buf ++ more, w.tell⟩ =
      .ok (⟨other, rr.rtype, rr.rclass, UInt32.ofInt rr.ttl, UInt16.ofNat rr.rdata.octets.length⟩,
        ⟨after.buf ++ more, rr.dataPos after⟩)
  ends : rr.dataPos after + rr.rdata.octets.length = after.tell
  body : ∀ more : Octets,
    Before ⟨after.buf ++ more, rr.dataPos after⟩ (rr.dataPos after) (rr.rdata.octets ++ more)

/-- The fixed fields behind a name. -/
def fixedFields (rtype : RRType) (rclass : RRClass) (ttl : UInt32) (rdlen : UInt16) : Octets :=
  octets16 rtype ++ (octets16 rclass ++ (octets32 ttl ++ octets16 rdlen))

theorem readHead_of_name {c next : Reader} {other : Name} {rtype : RRType} {rclass : RRClass}
    {ttl : UInt32} {rdlen : UInt16} {tail : Octets} (name : readName c = .ok (other, next))
    (here : Before next next.pos (fixedFields rtype rclass ttl rdlen ++ tail)) :
    readHead c = .ok (⟨other, rtype, rclass, ttl, rdlen⟩, next.advance 10) := by
  have fields : Parses (do
      let rtype ← u16
      let rclass ← u16
      let ttl ← u32
      let rdlen ← u16
      return (⟨other, rtype, rclass, ttl, rdlen⟩ : RRHead)) next.pos
        (fixedFields rtype rclass ttl rdlen) ⟨other, rtype, rclass, ttl, rdlen⟩ :=
    (parses_u16 _ rtype).bind ((parses_u16 _ rclass).bind ((parses_u32 _ ttl).bind
      (parses_u16 _ rdlen).bind_pure))
  rw [readHead, Cursor.bind_ok name]
  exact fields next tail here

theorem writeRR_written {w : Writer} (sound : w.Sound) {rr : RR} (writable : rr.Writable)
    (compress : Bool) : ∃ after, writeRR compress w rr = .ok after ∧ RRWritten w rr after := by
  obtain ⟨sound', ⟨out, grown⟩, other, same, read⟩ :=
    Writer.writeName_spec sound rr.name compress writable.legal
  let named := w.writeName rr.name compress
  let fields := fixedFields rr.rtype rr.rclass (UInt32.ofInt rr.ttl)
    (UInt16.ofNat rr.rdata.octets.length)
  have written : writeRR compress w rr = .ok ((named.raw fields).raw rr.rdata.octets) := by
    let start := ((named.u16 rr.rtype).u16 rr.rclass).int32 rr.ttl
    have width : (start.reserveU16.2.raw rr.rdata.octets).tell - start.reserveU16.2.tell =
        rr.rdata.octets.length := by
      simp only [Writer.tell, Writer.raw_buf, List.length_append, Nat.add_sub_cancel_left]
    have patched := start.patch_reserved rr.rdata.octets (UInt16.ofNat rr.rdata.octets.length)
    rw [writeRR]
    simp only [writable.emit_eq]
    change Except.ok ((start.reserveU16.2.raw rr.rdata.octets).patchU16 start.reserveU16.1
      (UInt16.ofNat ((start.reserveU16.2.raw rr.rdata.octets).tell - start.reserveU16.2.tell))) = _
    rw [width, patched]
    simp only [start, fields, Writer.u16, Writer.int32, Writer.u32, Writer.raw_raw, fixedFields,
      List.append_assoc]
  have place : rr.dataPos ((named.raw fields).raw rr.rdata.octets) = named.tell + 10 := by
    simp only [RR.dataPos, Writer.tell, Writer.raw_buf, List.length_append, fields, fixedFields,
      length_octets16, length_octets32]
    omega
  refine ⟨_, written, (sound'.raw _).raw _, ⟨out ++ (fields ++ rr.rdata.octets), ?_⟩,
    ⟨other, same, fun more => ?_⟩, ?_, fun more => ?_⟩
  · simp only [Writer.raw_buf, named, grown, List.append_assoc]
  · have name := read (fields ++ (rr.rdata.octets ++ more))
    rw [place, Writer.raw_buf, Writer.raw_buf, List.append_assoc, List.append_assoc]
    have here : Before ⟨named.buf ++ (fields ++ (rr.rdata.octets ++ more)), named.tell⟩ named.tell
        (fields ++ (rr.rdata.octets ++ more)) := by
      refine ⟨rfl, ?_, ?_⟩
      · simp only [Writer.tell, List.length_append]
        omega
      · simp only [Cursor.rest, Writer.tell, List.drop_left]
    exact readHead_of_name name here
  · simp only [RR.dataPos, Writer.tell, Writer.raw_buf, List.length_append]
    omega
  · rw [place]
    refine ⟨rfl, ?_, ?_⟩
    · simp only [Writer.tell, Writer.raw_buf, List.length_append, fields, fixedFields,
        length_octets16, length_octets32]
      omega
    · have start : named.tell + 10 = (named.buf ++ fields).length := by
        simp only [Writer.tell, List.length_append, fields, fixedFields, length_octets16,
          length_octets32]
      simp only [Cursor.rest, Writer.raw_buf, start, List.append_assoc]
      rw [← List.append_assoc, List.drop_left]

theorem octets_of_coded {rd : Rdata} {codec : Nat → Read Rdata} {octets : Octets}
    (coded : Coded rd codec octets) : rd.octets = octets := by
  rw [Rdata.octets, coded.emitted]
  rfl

/-- Data that fits its class is read back by its type's reader. -/
theorem parseRdata_of_fits {rd : Rdata} {c : Reader} {more : Octets} (typed : rd.Typed)
    (fits : rd.Fits) (before : Before c c.pos (rd.octets ++ more)) :
    Rdata.parseRdata rd.rdataType rd.octets.length c = .ok (rd, c.advance rd.octets.length) := by
  obtain ⟨codec, octets, found, coded⟩ := Rdata.coded_of_fits typed fits
  have same := octets_of_coded coded
  rw [same] at before ⊢
  simp only [Rdata.parseRdata, found, coded.parsed c.pos c more before, Cursor.advance_pos,
    ne_eq, not_true_eq_false, ↓reduceIte]

theorem parseRdata_unregistered {rtype : RRType} {c : Reader} {data more : Octets}
    (unregistered : Rdata.registry.lookup rtype = none) (before : Before c c.pos (data ++ more)) :
    Rdata.parseRdata rtype data.length c =
      .ok (.unknown rtype data, c.advance data.length) := by
  simp only [Rdata.parseRdata, unregistered, Rdata.readUnknown]
  exact (parses_read c.pos data data.length rfl).bind_pure c more before

theorem emits_of_fits {rd : Rdata} (typed : rd.Typed) (fits : rd.Fits) :
    ∃ octets, ∀ w, rd.emit w = .ok (w.raw octets) := by
  obtain ⟨codec, octets, -, coded⟩ := Rdata.coded_of_fits typed fits
  exact ⟨octets, coded.emitted⟩

/-- Set before a record's data, its type's reader gives the data back. -/
def Lands (buf : Octets) (pos : Nat) (rr : RR) : Prop :=
  rr.rdata.octets.length ≤ 65535 ∧ ∃ rd,
    Rdata.parseRdata rr.rtype rr.rdata.octets.length ⟨buf, pos⟩ =
      .ok (rd, ⟨buf, pos + rr.rdata.octets.length⟩) ∧ rd.fold = rr.rdata.fold

/-- Only the length the data has makes a reader give it back. -/
def Determined (rr : RR) : Prop :=
  ∀ (n : Nat) (c next : Reader) (more : Octets) (rd : Rdata),
    Before c c.pos (rr.rdata.octets ++ more) → Rdata.parseRdata rr.rtype n c = .ok (rd, next) →
      rd.fold = rr.rdata.fold → n = rr.rdata.octets.length ∧ next = c.advance n

theorem toNat_rdlen {n : Nat} (short : n ≤ 65535) : (UInt16.ofNat n).toNat = n := by
  rw [UInt16.toNat_ofNat', Nat.mod_eq_of_lt (by omega)]

theorem toNat_ofInt32 {v : Int} (range : InRange 32 v) : ((UInt32.ofInt v).toNat : Int) = v := by
  obtain ⟨n, rfl⟩ := Rdata.of_inRange32 range
  rw [Rdata.ofInt_toNat32]

section Record

variable {w after : Writer} {rr : RR} {buf more : Octets} {owner : Bool}

/-- The reader of records on a written record: only its data can go wrong. -/
theorem readRRs_written (written : RRWritten w rr after) (buffer : buf = after.buf ++ more)
    (plain : owner = true → rr.rtype ≠ RRType.opt) :
    ∃ other : Name, other.lower = rr.name.lower ∧ ∀ n edns,
      readRRs owner (n + 1) edns ⟨buf, w.tell⟩ =
        (do
          let rr ← readBody ⟨other, rr.rtype, rr.rclass, UInt32.ofInt rr.ttl,
            UInt16.ofNat rr.rdata.octets.length⟩
          let (more, edns) ← readRRs owner n edns
          return (rr :: more, edns) : Read (List RR × Option Edns)) ⟨buf, rr.dataPos after⟩ := by
  obtain ⟨other, same, read⟩ := written.head
  refine ⟨other, same, fun n edns => ?_⟩
  have apart : ¬ (rr.rtype = RRType.opt ∧ owner = true) := fun both => plain both.2 both.1
  rw [readRRs, buffer, Cursor.bind_ok (read more)]
  simp only [apart, ↓reduceIte]

theorem readBody_of_lands {other : Name} (writable : rr.Writable)
    (before : Before ⟨buf, rr.dataPos after⟩ (rr.dataPos after) (rr.rdata.octets ++ more))
    (lands : Lands buf (rr.dataPos after) rr) (same : other.lower = rr.name.lower) :
    ∃ back : RR, back.fold = rr.fold ∧
      readBody ⟨other, rr.rtype, rr.rclass, UInt32.ofInt rr.ttl,
        UInt16.ofNat rr.rdata.octets.length⟩ ⟨buf, rr.dataPos after⟩ =
          .ok (back, ⟨buf, rr.dataPos after + rr.rdata.octets.length⟩) := by
  obtain ⟨short, rd, parsed, folded⟩ := lands
  have inside : rr.dataPos after + rr.rdata.octets.length ≤ buf.length := by
    have total := congrArg List.length before.rest_eq
    have start := before.inside
    simp only [Cursor.length_rest, List.length_append] at total start
    omega
  refine ⟨⟨other, rr.rtype, rr.rclass, (UInt32.ofInt rr.ttl).toNat, rd⟩, ?_, ?_⟩
  · simp only [RR.fold, toNat_ofInt32 writable.ttl, folded, canonicalize_congr same]
  · have here : Reader.tell ⟨buf, rr.dataPos after⟩ =
        .ok (rr.dataPos after, ⟨buf, rr.dataPos after⟩) := rfl
    rw [readBody, Cursor.bind_ok here]
    simp only [toNat_rdlen short]
    rw [Cursor.bind_ok parsed, Cursor.bind_ok (seek_inside inside)]
    rfl

theorem lands_of_readBody {other : Name} {back : RR} {next : Reader} (determined : Determined rr)
    (before : Before ⟨buf, rr.dataPos after⟩ (rr.dataPos after) (rr.rdata.octets ++ more))
    (read : readBody ⟨other, rr.rtype, rr.rclass, UInt32.ofInt rr.ttl,
      UInt16.ofNat rr.rdata.octets.length⟩ ⟨buf, rr.dataPos after⟩ = .ok (back, next))
    (same : back.fold = rr.fold) :
    Lands buf (rr.dataPos after) rr ∧
      next = ⟨buf, rr.dataPos after + rr.rdata.octets.length⟩ := by
  rw [readBody] at read
  obtain ⟨start, c, here, read⟩ := Cursor.bind_eq_ok.mp read
  cases here
  obtain ⟨rd, middle, parsed, read⟩ := Cursor.bind_eq_ok.mp read
  obtain ⟨_, last, sought, read⟩ := Cursor.bind_eq_ok.mp read
  cases read
  have folded : rd.fold = rr.rdata.fold := congrArg RR.rdata same
  obtain ⟨width, rfl⟩ := determined _ _ _ more rd before parsed folded
  have short : rr.rdata.octets.length ≤ 65535 := by
    rw [← width]
    exact Nat.le_of_lt_succ (UInt16.toNat_lt _)
  rw [width] at parsed sought
  refine ⟨⟨short, rd, parsed, folded⟩, ?_⟩
  rw [Reader.seek] at sought
  split at sought
  · cases sought
  · cases sought
    rfl

end Record

/-! ### A section -/

/-- What holds of every record and the place its data has, when they are written
from `w` on. -/
def EachPlaced (holds : Nat → RR → Prop) (compress : Bool) : Writer → List RR → Prop
  | _, [] => True
  | w, rr :: rest => ∀ after, writeRR compress w rr = .ok after →
      holds (rr.dataPos after) rr ∧ EachPlaced holds compress after rest

theorem eachPlaced_of_forall {holds : Nat → RR → Prop} {compress : Bool} {w : Writer}
    {rrs : List RR} (each : ∀ pos rr, holds pos rr) : EachPlaced holds compress w rrs := by
  induction rrs generalizing w with
  | nil => exact True.intro
  | cons rr rest ih => exact fun after _ => ⟨each _ rr, ih⟩

theorem writeRRs_written {w : Writer} (sound : w.Sound) (compress : Bool) (rrs : List RR)
    (writable : ∀ rr ∈ rrs, rr.Writable) :
    ∃ after, writeRRs compress w rrs = .ok after ∧ after.Sound ∧ ∃ out, after.buf = w.buf ++ out := by
  induction rrs generalizing w with
  | nil => exact ⟨w, rfl, sound, [], (List.append_nil _).symm⟩
  | cons rr rest ih =>
      obtain ⟨middle, first, written⟩ :=
        writeRR_written sound (writable rr List.mem_cons_self) compress
      obtain ⟨after, others, sound, out, grown⟩ :=
        ih written.sound fun rr held => writable rr (List.mem_cons_of_mem _ held)
      obtain ⟨start, begun⟩ := written.grows
      refine ⟨after, ?_, sound, start ++ out, ?_⟩
      · rw [writeRRs, first]
        exact others
      · rw [grown, begun, List.append_assoc]

section Sections

variable {buf : Octets} {compress : Bool} (owner : Bool)

/-- Records whose data lands are read back, and the reader goes on behind them. -/
theorem readRRs_of_lands {w after : Writer} {rrs : List RR} {more : Octets} (sound : w.Sound)
    (writable : ∀ rr ∈ rrs, rr.Writable) (plain : owner = true → ∀ rr ∈ rrs, rr.rtype ≠ RRType.opt)
    (written : writeRRs compress w rrs = .ok after) (buffer : buf = after.buf ++ more)
    (lands : EachPlaced (Lands buf) compress w rrs) :
    ∃ back : List RR, back.map RR.fold = rrs.map RR.fold ∧ ∀ k edns,
      readRRs owner (rrs.length + k) edns ⟨buf, w.tell⟩ =
        (do
          let (rest, edns) ← readRRs owner k edns
          return (back ++ rest, edns) : Read (List RR × Option Edns)) ⟨buf, after.tell⟩ := by
  induction rrs generalizing w with
  | nil =>
      cases written
      refine ⟨[], rfl, fun k edns => ?_⟩
      simp only [List.length_nil, Nat.zero_add, List.nil_append]
      exact congrArg (fun p : Read _ => p ⟨buf, after.tell⟩) (bind_pure _).symm
  | cons rr rest ih =>
      obtain ⟨middle, first, step⟩ := writeRR_written sound (writable rr List.mem_cons_self) compress
      have others : ∀ rr ∈ rest, rr.Writable := fun rr held =>
        writable rr (List.mem_cons_of_mem _ held)
      obtain ⟨last, finish, -, out, grown⟩ := writeRRs_written step.sound compress rest others
      have ends : last = after := by
        rw [writeRRs, first] at written
        exact Except.ok.inj (finish.symm.trans written)
      subst ends
      have whole : buf = middle.buf ++ (out ++ more) := by
        rw [buffer, grown, List.append_assoc]
      obtain ⟨here, later⟩ := lands middle first
      obtain ⟨back, folded, reads⟩ := ih step.sound others
        (fun siphon rr held => plain siphon rr (List.mem_cons_of_mem _ held)) finish later
      obtain ⟨other, same, head⟩ := readRRs_written step whole fun siphon =>
        plain siphon rr List.mem_cons_self
      have before := whole ▸ step.body (out ++ more)
      obtain ⟨first', equal, read⟩ :=
        readBody_of_lands (writable rr List.mem_cons_self) before here same
      refine ⟨first' :: back, ?_, fun k edns => ?_⟩
      · rw [List.map_cons, List.map_cons, equal, folded]
      · rw [List.length_cons, Nat.add_right_comm, head, Cursor.bind_ok read, step.ends,
          Cursor.bind_apply, reads, Cursor.bind_apply, Cursor.bind_apply]
        cases readRRs owner k edns ⟨buf, last.tell⟩ <;> rfl

/-- Records that are read back have data that lands. -/
theorem lands_of_readRRs {w after : Writer} {rrs list : List RR} {more : Octets} {k : Nat}
    {edns last : Option Edns} {next : Reader} (sound : w.Sound)
    (writable : ∀ rr ∈ rrs, rr.Writable) (plain : owner = true → ∀ rr ∈ rrs, rr.rtype ≠ RRType.opt)
    (determined : ∀ rr ∈ rrs, Determined rr)
    (written : writeRRs compress w rrs = .ok after) (buffer : buf = after.buf ++ more)
    (read : readRRs owner (rrs.length + k) edns ⟨buf, w.tell⟩ = .ok ((list, last), next))
    (same : (list.take rrs.length).map RR.fold = rrs.map RR.fold) :
    EachPlaced (Lands buf) compress w rrs ∧
      readRRs owner k edns ⟨buf, after.tell⟩ = .ok ((list.drop rrs.length, last), next) := by
  induction rrs generalizing w list edns with
  | nil =>
      cases written
      exact ⟨True.intro, by simpa using read⟩
  | cons rr rest ih =>
      obtain ⟨middle, first, step⟩ := writeRR_written sound (writable rr List.mem_cons_self) compress
      have others : ∀ rr ∈ rest, rr.Writable := fun rr held =>
        writable rr (List.mem_cons_of_mem _ held)
      obtain ⟨final, finish, -, out, grown⟩ := writeRRs_written step.sound compress rest others
      have ends : final = after := by
        rw [writeRRs, first] at written
        exact Except.ok.inj (finish.symm.trans written)
      subst ends
      have whole : buf = middle.buf ++ (out ++ more) := by
        rw [buffer, grown, List.append_assoc]
      obtain ⟨other, -, head⟩ := readRRs_written step whole fun siphon =>
        plain siphon rr List.mem_cons_self
      rw [List.length_cons, Nat.add_right_comm, head] at read
      obtain ⟨back, c, body, read⟩ := Cursor.bind_eq_ok.mp read
      obtain ⟨⟨tail, e⟩, c', remaining, read⟩ := Cursor.bind_eq_ok.mp read
      cases read
      simp only [List.length_cons, List.take_succ_cons, List.map_cons, List.cons.injEq] at same
      have before := whole ▸ step.body (out ++ more)
      obtain ⟨here, rfl⟩ :=
        lands_of_readBody (determined rr List.mem_cons_self) before body same.1
      rw [step.ends] at remaining
      obtain ⟨later, onward⟩ := ih step.sound others
        (fun siphon rr held => plain siphon rr (List.mem_cons_of_mem _ held))
        (fun rr held => determined rr (List.mem_cons_of_mem _ held)) finish remaining same.2
      refine ⟨fun middle' again => ?_, onward⟩
      rw [first] at again
      cases again
      exact ⟨here, later⟩

end Sections

theorem writeRRs_append (compress : Bool) (w : Writer) (first second : List RR) :
    writeRRs compress w (first ++ second) =
      writeRRs compress w first >>= fun w => writeRRs compress w second := by
  induction first generalizing w with
  | nil => rfl
  | cons rr rest ih =>
      rw [List.cons_append, writeRRs, writeRRs]
      cases writeRR compress w rr with
      | error e => rfl
      | ok next => exact ih next

theorem eachPlaced_append {holds : Nat → RR → Prop} {compress : Bool} {w middle : Writer}
    {first second : List RR} (written : writeRRs compress w first = .ok middle) :
    EachPlaced holds compress w (first ++ second) ↔
      EachPlaced holds compress w first ∧ EachPlaced holds compress middle second := by
  induction first generalizing w with
  | nil =>
      cases written
      simp only [List.nil_append, EachPlaced, true_and]
  | cons rr rest ih =>
      rw [List.cons_append, EachPlaced, EachPlaced]
      rw [writeRRs] at written
      cases one : writeRR compress w rr with
      | error e =>
          rw [one] at written
          cases written
      | ok next =>
          rw [one] at written
          have tail := ih written
          simp only [Except.ok.injEq, forall_eq', tail, and_assoc]

theorem eachPlaced_congr {holds others : Nat → RR → Prop} {compress : Bool} {w after : Writer}
    {rrs : List RR} {buf more : Octets} (sound : w.Sound) (writable : ∀ rr ∈ rrs, rr.Writable)
    (written : writeRRs compress w rrs = .ok after) (buffer : buf = after.buf ++ more)
    (same : ∀ rr ∈ rrs, ∀ pos more, Before ⟨buf, pos⟩ pos (rr.rdata.octets ++ more) →
      (holds pos rr ↔ others pos rr)) :
    EachPlaced holds compress w rrs ↔ EachPlaced others compress w rrs := by
  induction rrs generalizing w with
  | nil => exact Iff.rfl
  | cons rr rest ih =>
      obtain ⟨middle, first, step⟩ := writeRR_written sound (writable rr List.mem_cons_self) compress
      have tailWritable : ∀ rr ∈ rest, rr.Writable := fun rr held =>
        writable rr (List.mem_cons_of_mem _ held)
      obtain ⟨final, finish, -, out, grown⟩ :=
        writeRRs_written step.sound compress rest tailWritable
      have ends : final = after := by
        rw [writeRRs, first] at written
        exact Except.ok.inj (finish.symm.trans written)
      subst ends
      have whole : buf = middle.buf ++ (out ++ more) := by
        rw [buffer, grown, List.append_assoc]
      have here := same rr List.mem_cons_self _ _ (whole ▸ step.body (out ++ more))
      have later := ih step.sound tailWritable finish fun rr held =>
        same rr (List.mem_cons_of_mem _ held)
      simp only [EachPlaced, first, Except.ok.injEq, forall_eq', here, later]

end Trench.Wire
