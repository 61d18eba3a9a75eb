import Mathlib
import Trench.Wire.NameOrder
import Trench.Wire.Cursor

set_option autoImplicit false

namespace Trench.Wire

open Cursor (Parses Ensures Before)
open Name (labelOctets)

def maxPointerHops : Nat := 128

set_option maxRecDepth 4000 in
theorem length_of_plain (c : UInt8) (plain : c &&& 0xC0 = 0) : c.toNat ≤ maxLabel := by
  revert c
  decide

namespace Reader

/-- `r.read(length)` for a plain label, keeping the bounds the length octet shows. -/
def readLabel (n : Nat) (positive : 1 ≤ n) (bound : n ≤ maxLabel) : Read Label := fun r =>
  if fits : n ≤ r.rest.length then
    .ok (⟨r.rest.take n, by rw [List.length_take]; omega, by rw [List.length_take]; omega⟩,
      r.advance n)
  else .error (.readPastEnd n r.pos r.buf.length)

theorem ensures_readLabel (n : Nat) (positive : 1 ≤ n) (bound : n ≤ maxLabel) :
    Ensures (readLabel n positive bound) (fun label => label.octets.length = n) := by
  intro c label next h
  simp only [readLabel] at h
  split at h
  · next fits =>
      cases h
      simp only [List.length_take]
      omega
  · cases h

/-- The loop of `read_name`. Each round adds a label of at least one octet or
takes a pointer, so `fuel` is not what ends it: see `readLabels_fuel`. -/
def readLabels : Nat → List Label → Nat → Nat → Option Nat → Read Name
  | 0, _, _, _, _ => throw .pointerLoop
  | fuel + 1, labels, hops, total, resume => do
      let length ← u8
      if zero : length = 0 then
        match resume with
        | some pos => seek pos
        | none => pure ()
        return ⟨labels⟩
      else if plain : length &&& 0xC0 = 0 then
        let label ← readLabel length.toNat
          (Nat.one_le_iff_ne_zero.mpr fun none => zero (UInt8.toNat_inj.mp none))
          (length_of_plain length plain)
        let total := total + length.toNat + 1
        Cursor.raiseIf (total > maxName) .nameExceeds255
        readLabels fuel (labels ++ [label]) hops total resume
      else if length &&& 0xC0 = 0xC0 then
        let hops := hops + 1
        Cursor.raiseIf (hops > maxPointerHops) .pointerLoop
        let low ← u8
        let ptr := (length &&& 0x3F).toNat * 256 + low.toNat
        let here ← tell
        let resume := some (resume.getD here)
        -- a pointer must refer to earlier data
        Cursor.raiseIf (ptr ≥ here - 2) .forwardPointer
        seek ptr
        readLabels fuel labels hops total resume
      else throw .reservedLabelType

def nameFuel : Nat := maxName + maxPointerHops + 1

/-- Read a possibly compressed name. -/
def readName : Read Name := readLabels nameFuel [] 0 1 none

end Reader

namespace Writer

/-- The loop of `write_name`; `key` is the wire key of the suffix still to write. -/
def writeLabels (compress : Bool) : Writer → Octets → List Label → Writer
  | w, _, [] => w.u8 0
  | w, key, label :: rest =>
      let plain (w : Writer) := (w.u8 (UInt8.ofNat label.octets.length)).raw label.octets
      if compress then
        match w.names.lookup key with
        | some off => w.u16 (UInt16.ofNat (0xC000 ||| off))
        | none =>
            let here := w.tell
            let w := if here ≤ 0x3FFF then { w with names := (key, here) :: w.names } else w
            writeLabels compress (plain w) (key.drop (label.octets.length + 1)) rest
      else writeLabels compress (plain w) key rest

def writeName (w : Writer) (name : Name) (compress : Bool := true) : Writer :=
  writeLabels compress w (if compress then name.key else []) name.labels

end Writer

/-! ### What is read back -/

/-- A name can be read at `pos`: labels, then the root octet or a pointer to an
earlier such place. Counts the pointers and says where the cursor resumes. -/
inductive NameAt (buf : Octets) : (pos : Nat) → List Label → (hops stop : Nat) → Prop where
  | root {pos : Nat} {tail : Octets} (here : buf.drop pos = 0 :: tail) :
      NameAt buf pos [] 0 (pos + 1)
  | label {pos : Nat} {label : Label} {tail : Octets} {rest : List Label} {hops stop : Nat}
      (here : buf.drop pos = UInt8.ofNat label.octets.length :: (label.octets ++ tail))
      (next : NameAt buf (pos + (label.octets.length + 1)) rest hops stop) :
      NameAt buf pos (label :: rest) hops stop
  | pointer {pos ptr : Nat} {tail : Octets} {labels : List Label} {hops stop : Nat}
      (here : buf.drop pos = octets16 (UInt16.ofNat (0xC000 ||| ptr)) ++ tail)
      (small : ptr ≤ 0x3FFF) (earlier : ptr < pos) (target : NameAt buf ptr labels hops stop) :
      NameAt buf pos labels (hops + 1) (pos + 2)

theorem drop_append_of_cons {buf : Octets} {pos : Nat} {first : UInt8} {tail : Octets}
    (here : buf.drop pos = first :: tail) (more : Octets) :
    (buf ++ more).drop pos = first :: (tail ++ more) := by
  have inside : pos ≤ buf.length := by
    by_contra outside
    rw [List.drop_eq_nil_of_le (by omega)] at here
    cases here
  rw [List.drop_append_of_le_length inside, here, List.cons_append]

/-- What can be read in a buffer can be read once more octets follow. -/
theorem NameAt.append {buf : Octets} {pos : Nat} {labels : List Label} {hops stop : Nat}
    (found : NameAt buf pos labels hops stop) (more : Octets) :
    NameAt (buf ++ more) pos labels hops stop := by
  induction found with
  | root here => exact .root (drop_append_of_cons here more)
  | @label pos label tail rest hops stop here _ ih =>
      have grown := drop_append_of_cons here more
      rw [List.append_assoc] at grown
      exact .label grown ih
  | @pointer pos ptr tail labels hops stop here small earlier _ ih =>
      exact .pointer (drop_append_of_cons here more) small earlier ih

/-- A name starts at an octet of the buffer. -/
theorem NameAt.pos_lt {buf : Octets} {pos : Nat} {labels : List Label} {hops stop : Nat}
    (found : NameAt buf pos labels hops stop) : pos < buf.length := by
  have nonempty : buf.drop pos ≠ [] := by
    cases found with
    | root here => rw [here]; exact List.cons_ne_nil _ _
    | label here _ => rw [here]; exact List.cons_ne_nil _ _
    | pointer here _ _ _ =>
        rw [here]
        exact List.cons_ne_nil _ _
  exact not_le.mp fun outside => nonempty (List.drop_eq_nil_of_le outside)

/-- A plain label list, written out to the root octet. -/
theorem NameAt.plain {buf : Octets} {pos : Nat} {labels : List Label} {tail : Octets}
    (here : buf.drop pos = labelOctets labels ++ 0 :: tail) :
    NameAt buf pos labels 0 (pos + (labelOctets labels).length + 1) := by
  induction labels generalizing pos with
  | nil => exact .root here
  | cons label rest ih =>
      have next : buf.drop (pos + (label.octets.length + 1)) = labelOctets rest ++ 0 :: tail := by
        rw [← List.drop_drop, here]
        simp [labelOctets]
      have inner := ih next
      simp only [labelOctets, List.length_cons, List.length_append]
      rw [show pos + (label.octets.length + (labelOctets rest).length + 1) + 1 =
        pos + (label.octets.length + 1) + (labelOctets rest).length + 1 by omega]
      rw [labelOctets, List.cons_append, List.append_assoc] at here
      exact .label here inner

namespace Reader

theorem u8_of_drop {r : Reader} {v : UInt8} {tail : Octets} (here : r.rest = v :: tail) :
    u8 r = .ok (v, r.advance 1) := by
  simp only [u8, here]

theorem seek_inside {r : Reader} {pos : Nat} (inside : pos ≤ r.buf.length) :
    seek pos r = .ok ((), { r with pos := pos }) := by
  simp only [seek, Nat.not_lt.mpr inside, ↓reduceIte]

set_option maxRecDepth 4000 in
theorem lengthOctet_plain (c : UInt8) (bound : c.toNat ≤ maxLabel) : c &&& 0xC0 = 0 := by
  revert c
  decide

/-- The two octets of a pointer: the kind bits and the target's high part. -/
theorem pointer_octet (ptr : Nat) (small : ptr ≤ 0x3FFF) :
    (UInt16.ofNat (0xC000 ||| ptr)).toNat = 0xC000 + ptr := by
  have split : 0xC000 ||| ptr = 0xC000 + ptr := by
    have disjoint := Nat.two_pow_add_eq_or_of_lt (i := 14) (b := ptr) (by omega) 3
    simpa using disjoint.symm
  rw [split, UInt16.toNat_ofNat', Nat.mod_eq_of_lt (by omega)]

set_option maxRecDepth 4000 in
theorem pointer_kind (c : UInt8) (kind : 0xC0 ≤ c.toNat) :
    c ≠ 0 ∧ c &&& 0xC0 ≠ 0 ∧ c &&& 0xC0 = 0xC0 ∧ (c &&& 0x3F).toNat = c.toNat - 0xC0 := by
  revert c
  decide

/-- Reading from a place where a name stands gives that name, and leaves the
cursor behind the first pointer taken, or behind the root octet. -/
theorem readLabels_of_nameAt {buf : Octets} {pos : Nat} {labels : List Label} {hops stop : Nat}
    (found : NameAt buf pos labels hops stop) {fuel sofar total : Nat} {acc : List Label}
    {resume : Option Nat} (enough : labels.length + hops < fuel)
    (few : sofar + hops ≤ maxPointerHops)
    (short : total + (labelOctets labels).length ≤ maxName)
    (back : ∀ p, resume = some p → p ≤ buf.length) :
    readLabels fuel acc sofar total resume ⟨buf, pos⟩ =
      .ok (⟨acc ++ labels⟩, ⟨buf, resume.getD stop⟩) := by
  induction found generalizing fuel sofar total acc resume with
  | @root pos tail here =>
      obtain ⟨left, rfl⟩ : ∃ left, fuel = left + 1 := ⟨fuel - 1, by omega⟩
      rw [readLabels, Cursor.bind_ok (u8_of_drop (r := ⟨buf, pos⟩) here)]
      simp only [↓reduceDIte, List.append_nil]
      cases resume with
      | none => rfl
      | some p =>
          simp only
          rw [Cursor.bind_ok (seek_inside (r := (⟨buf, pos⟩ : Reader).advance 1) (back p rfl))]
          rfl
  | @label pos label tail rest hops stop here next ih =>
      obtain ⟨left, rfl⟩ : ∃ left, fuel = left + 1 := ⟨fuel - 1, by omega⟩
      have octet := Name.lengthOctet_toNat label
      have nonzero := Name.lengthOctet_ne_zero label
      have plain := lengthOctet_plain (UInt8.ofNat label.octets.length)
        (by rw [octet]; exact label.bounded)
      have body : ((⟨buf, pos⟩ : Reader).advance 1).rest = label.octets ++ tail := by
        rw [Cursor.rest_advance, Cursor.rest, here, List.drop_one, List.tail_cons]
      have read (positive : 1 ≤ (UInt8.ofNat label.octets.length).toNat)
          (bound : (UInt8.ofNat label.octets.length).toNat ≤ maxLabel) :
          readLabel (UInt8.ofNat label.octets.length).toNat positive bound
            ((⟨buf, pos⟩ : Reader).advance 1) =
          .ok (label, ⟨buf, pos + (label.octets.length + 1)⟩) := by
        have fits : label.octets.length ≤ (label.octets ++ tail).length := by simp
        simp only [readLabel, body, octet, fits, ↓reduceDIte, List.take_left]
        simp only [Cursor.advance, Nat.add_assoc, Nat.add_comm 1]
      simp only [labelOctets, List.length_cons, List.length_append] at short
      rw [readLabels, Cursor.bind_ok (u8_of_drop (r := ⟨buf, pos⟩) here)]
      simp only [nonzero, plain, ↓reduceDIte]
      rw [Cursor.bind_ok (read _ _)]
      have within : ¬ (total + (UInt8.ofNat label.octets.length).toNat + 1 > maxName) := by
        rw [octet]
        omega
      rw [Cursor.bind_ok (Cursor.raiseIf_apply _ _ within), ih (by simp at enough; omega) few (by rw [octet]; omega) back]
      simp only [List.append_assoc, List.cons_append, List.nil_append]
  | @pointer pos ptr tail labels hops stop here small earlier target ih =>
      obtain ⟨left, rfl⟩ : ∃ left, fuel = left + 1 := ⟨fuel - 1, by omega⟩
      have value := pointer_octet ptr small
      have high : (UInt8.ofNat ((UInt16.ofNat (0xC000 ||| ptr)).toNat / 256)).toNat =
          0xC0 + ptr / 256 := by
        rw [value, UInt8.toNat_ofNat', Nat.mod_eq_of_lt (by omega)]
        omega
      have low : (UInt8.ofNat ((UInt16.ofNat (0xC000 ||| ptr)).toNat % 256)).toNat =
          ptr % 256 := by
        rw [value, UInt8.toNat_ofNat']
        omega
      simp only [octets16, List.cons_append, List.nil_append] at here
      generalize UInt8.ofNat ((UInt16.ofNat (0xC000 ||| ptr)).toNat / 256) = first at here high
      generalize UInt8.ofNat ((UInt16.ofNat (0xC000 ||| ptr)).toNat % 256) = second at here low
      obtain ⟨nonzero, notPlain, kind, rest⟩ := pointer_kind first (by omega)
      have next : ((⟨buf, pos⟩ : Reader).advance 1).rest = second :: tail := by
        rw [Cursor.rest_advance, Cursor.rest, here, List.drop_one, List.tail_cons]
      have length := congrArg List.length here
      simp only [List.length_drop, List.length_cons] at length
      rw [readLabels, Cursor.bind_ok (u8_of_drop (r := ⟨buf, pos⟩) here)]
      have hopsOk : ¬ (sofar + 1 > maxPointerHops) := by omega
      simp only [nonzero, notPlain, ↓reduceDIte]
      simp only [kind, ↓reduceIte]
      rw [Cursor.bind_ok (Cursor.raiseIf_apply _ _ hopsOk), Cursor.bind_ok (u8_of_drop next),
        Cursor.bind_ok (show tell (((⟨buf, pos⟩ : Reader).advance 1).advance 1) =
          .ok (pos + 2, ⟨buf, pos + 2⟩) from rfl)]
      have goal : (first &&& 0x3F).toNat * 256 + second.toNat = ptr := by
        rw [rest, low, high]
        omega
      have earlier' : ¬ ((first &&& 0x3F).toNat * 256 + second.toNat ≥ pos + 2 - 2) := by omega
      rw [Cursor.bind_ok (Cursor.raiseIf_apply _ _ earlier'), goal, Cursor.bind_ok (seek_inside (r := ⟨buf, pos + 2⟩) (by simp only; omega))]
      rw [ih (by omega) (by omega) short]
      · simp only [Option.getD_some]
      · intro p same
        cases same
        cases resume with
        | none => simp only [Option.getD_none]; omega
        | some p => exact back p rfl

/-- A name of legal length is read back from where it stands. -/
theorem readName_of_nameAt {buf : Octets} {pos : Nat} {name : Name} {hops stop : Nat}
    (found : NameAt buf pos name.labels hops stop) (legal : name.wireLen ≤ maxName)
    (few : hops ≤ maxPointerHops) : readName ⟨buf, pos⟩ = .ok (name, ⟨buf, stop⟩) := by
  have width := name.wireLen_eq
  have count := Name.length_le_labelOctets name.labels
  exact readLabels_of_nameAt found (by simp only [nameFuel]; omega) (by omega) (by omega)
    (fun p h => by cases h)

/-- An uncompressed name is read wherever it stands. -/
theorem parses_readName (pos : Nat) (name : Name) (legal : name.wireLen ≤ maxName) :
    Parses readName pos (labelOctets name.labels ++ [0]) name := by
  intro c tail here
  have place : c.buf.drop c.pos = labelOctets name.labels ++ 0 :: tail := by
    rw [← List.singleton_append, ← List.append_assoc]
    exact here.rest_eq
  have read := readName_of_nameAt (NameAt.plain place) legal (Nat.zero_le _)
  rw [read, List.length_append, List.length_singleton, Cursor.advance, ← Nat.add_assoc]

theorem ensures_readLabels (fuel : Nat) (acc : List Label) (hops total : Nat)
    (resume : Option Nat) (start : total = (Name.mk acc).wireLen) (bound : total ≤ maxName) :
    Ensures (readLabels fuel acc hops total resume) (fun name => name.wireLen ≤ maxName) := by
  induction fuel generalizing acc hops total resume with
  | zero => exact .throw
  | succ fuel ih =>
      rw [readLabels]
      refine Ensures.bind .trivial fun length _ => ?_
      split
      · cases resume with
        | none => exact .pure (start ▸ bound)
        | some p => exact .bind .trivial fun _ _ => .pure (start ▸ bound)
      · split
        · refine Ensures.bind (ensures_readLabel _ _ _) fun label width => ?_
          refine Ensures.bind .raiseIf fun _ short => ih _ _ _ _ ?_ (not_lt.mp short)
          rw [start, Name.wireLen_snoc, width]
        · split
          · refine .bind .raiseIf fun _ _ => .bind .trivial fun low _ => ?_
            refine .bind .trivial fun here _ => .bind .raiseIf fun _ _ => ?_
            exact .bind .trivial fun _ _ => ih _ _ _ _ start bound
          · exact .throw

/-- Every name that is read fits in 255 octets. -/
theorem ensures_readName : Ensures readName (fun name => name.wireLen ≤ maxName) :=
  ensures_readLabels nameFuel [] 0 1 none rfl (by decide)

/-- More fuel changes nothing once every remaining label and pointer has a round. -/
theorem readLabels_fuel (fuel : Nat) (acc : List Label) (hops total : Nat) (resume : Option Nat)
    (bound : total ≤ maxName) (few : hops ≤ maxPointerHops)
    (enough : (maxName - total) + (maxPointerHops - hops) < fuel) :
    readLabels (fuel + 1) acc hops total resume = readLabels fuel acc hops total resume := by
  induction fuel generalizing acc hops total resume with
  | zero => omega
  | succ fuel ih =>
      rw [readLabels, readLabels]
      refine Cursor.bind_congr fun length => ?_
      split
      · rfl
      · next nonzero =>
        split
        · have positive : length.toNat ≠ 0 := fun none => nonzero (UInt8.toNat_inj.mp none)
          refine Cursor.bind_congr fun label => Cursor.raiseIf_bind_congr fun short => ?_
          exact ih _ _ _ _ (not_lt.mp short) few (by omega)
        · split
          · refine Cursor.raiseIf_bind_congr fun short => Cursor.bind_congr fun low => ?_
            refine Cursor.bind_congr fun here => Cursor.bind_congr fun _ => ?_
            exact Cursor.bind_congr fun _ => ih _ _ _ _ bound (not_lt.mp short) (by omega)
          · rfl

end Reader

/-! ### What is written -/

/-- An entry of the compression table: below the pointer limit there stands a
name equal to its key, reached over fewer pointers than it has labels. -/
def TableEntry (buf : Octets) (entry : Octets × Nat) : Prop :=
  entry.2 ≤ 0x3FFF ∧ ∃ labels hops stop, NameAt buf entry.2 labels hops stop ∧
    entry.1 = labelOctets (labels.map Label.lower) ++ [0] ∧ hops < labels.length

theorem TableEntry.append {buf : Octets} {entry : Octets × Nat} (sound : TableEntry buf entry)
    (more : Octets) : TableEntry (buf ++ more) entry := by
  obtain ⟨small, labels, hops, stop, found, key, few⟩ := sound
  exact ⟨small, labels, hops, stop, found.append more, key, few⟩

namespace Writer

/-- Every entry of the table can be pointed to. -/
def Sound (w : Writer) : Prop := ∀ entry ∈ w.names, TableEntry w.buf entry

theorem sound_empty : empty.Sound := fun _ inside => by cases inside

theorem Sound.raw {w : Writer} (sound : w.Sound) (bytes : Octets) : (w.raw bytes).Sound :=
  fun entry inside => (sound entry inside).append bytes

/-- Writing a plain name adds its octets only. -/
theorem writeLabels_plain (w : Writer) (key : Octets) (labels : List Label) :
    writeLabels false w key labels = w.raw (labelOctets labels ++ [0]) := by
  induction labels generalizing w with
  | nil => rfl
  | cons label rest ih =>
      simp only [writeLabels, Bool.false_eq_true, ↓reduceIte, ih, u8, raw_raw, labelOctets,
        List.cons_append, List.append_assoc, List.nil_append]

theorem writeName_plain (w : Writer) (name : Name) :
    w.writeName name false = w.raw (labelOctets name.labels ++ [0]) :=
  writeLabels_plain w _ name.labels

/-- What writing a label list leaves behind: the octets and the table only grow,
the new entries are sound, and an equal name stands at the old end. -/
structure Written (w : Writer) (labels : List Label) (after : Writer) : Prop where
  grows : ∃ out, after.buf = w.buf ++ out
  fresh : ∀ entry ∈ after.names, entry ∈ w.names ∨ TableEntry after.buf entry
  found : ∃ others hops, NameAt after.buf w.tell others hops after.tell ∧
    others.map Label.lower = labels.map Label.lower ∧ hops ≤ labels.length

theorem lookup_mem {names : List (Octets × Nat)} {key : Octets} {off : Nat}
    (found : names.lookup key = some off) : (key, off) ∈ names := by
  induction names with
  | nil => cases found
  | cons entry rest ih =>
      obtain ⟨first, pos⟩ := entry
      rw [List.lookup_cons] at found
      split at found
      · next same =>
          cases found
          rw [beq_iff_eq.mp same]
          exact List.mem_cons_self
      · exact List.mem_cons_of_mem _ (ih found)

/-- One label starts at the old end, the rest of the name follows it. -/
theorem written_cons {w start after : Writer} {label : Label} {rest : List Label}
    (plain : start.buf = w.buf ++ UInt8.ofNat label.octets.length :: label.octets)
    (table : ∀ entry ∈ start.names, entry ∈ w.names ∨
      entry = (labelOctets ((label :: rest).map Label.lower) ++ [0], w.tell) ∧ w.tell ≤ 0x3FFF)
    (tail : Written start rest after) : Written w (label :: rest) after := by
  obtain ⟨⟨out, grown⟩, fresh, others, hops, found, same, few⟩ := tail
  have place : start.tell = w.tell + (label.octets.length + 1) := by
    simp only [tell, plain, List.length_append, List.length_cons]
  have here : after.buf.drop w.tell =
      UInt8.ofNat label.octets.length :: (label.octets ++ out) := by
    simp only [grown, plain, tell, List.append_assoc, List.drop_left, List.cons_append]
  have whole : NameAt after.buf w.tell (label :: others) hops after.tell :=
    .label here (place ▸ found)
  have count : others.length = rest.length := by simpa using congrArg List.length same
  refine ⟨⟨UInt8.ofNat label.octets.length :: label.octets ++ out, ?_⟩, ?_,
    label :: others, hops, whole, ?_, ?_⟩
  · rw [grown, plain, List.append_assoc]
  · intro entry inside
    rcases fresh entry inside with early | sound
    · rcases table entry early with old | ⟨rfl, low⟩
      · exact .inl old
      · refine .inr ⟨low, label :: others, hops, after.tell, whole, ?_, ?_⟩
        · simp only [List.map_cons, same]
        · simp only [List.length_cons]
          omega
    · exact .inr sound
  · simp only [List.map_cons, same]
  · simp only [List.length_cons]
    omega

/-- Entries for longer suffixes of the name being written wait for its end; a
shorter suffix never matches them. -/
theorem writeLabels_written (w : Writer) (labels : List Label)
    (sound : ∀ entry ∈ w.names,
      entry.1.length ≤ (labelOctets (labels.map Label.lower) ++ [0]).length →
      TableEntry w.buf entry) :
    Written w labels
      (writeLabels true w (labelOctets (labels.map Label.lower) ++ [0]) labels) := by
  induction labels generalizing w with
  | nil =>
      refine ⟨⟨[0], rfl⟩, fun entry inside => .inl inside, [], 0, ?_, rfl, Nat.le_refl _⟩
      have here : (w.buf ++ [0]).drop w.tell = 0 :: [] := by simp [tell]
      have stop : (w.u8 0).tell = w.tell + 1 := by simp [tell, u8]
      exact stop ▸ NameAt.root here
  | cons label rest ih =>
      have width := label.lower.bounded
      have drop : (labelOctets ((label :: rest).map Label.lower) ++ [0]).drop
          (label.octets.length + 1) = labelOctets (rest.map Label.lower) ++ [0] := by
        have same : label.octets.length = label.lower.octets.length := by simp [Label.lower]
        rw [same]
        simp [labelOctets]
      rw [writeLabels]
      simp only [↓reduceIte]
      split
      · next off found =>
          obtain ⟨small, others, hops, stop, target, key, few⟩ :=
            sound _ (lookup_mem found) (Nat.le_refl _)
          have same : others.map Label.lower = (label :: rest).map Label.lower :=
            ((Name.labelOctets_zero_inj (x := []) (y := []) key).1).symm
          have count : others.length = (label :: rest).length := by
            simpa using congrArg List.length same
          have here : (w.buf ++ octets16 (UInt16.ofNat (0xC000 ||| off))).drop w.tell =
              octets16 (UInt16.ofNat (0xC000 ||| off)) ++ [] := by simp [tell]
          have stopped : (w.u16 (UInt16.ofNat (0xC000 ||| off))).tell = w.tell + 2 := by
            simp [tell, u16]
          refine ⟨⟨_, rfl⟩, fun entry inside => .inl inside, others, hops + 1, ?_, same, by omega⟩
          exact stopped ▸ NameAt.pointer here small target.pos_lt (target.append _)
      · next absent =>
          rw [drop]
          refine written_cons ?_ ?_ (ih _ ?_)
          · split <;> simp [u8, raw]
          · intro entry inside
            split at inside
            · next low =>
                simp only [raw_names, u8, List.mem_cons] at inside
                rcases inside with rfl | old
                · exact .inr ⟨rfl, low⟩
                · exact .inl old
            · exact .inl inside
          · intro entry inside short
            have shorter : (labelOctets (rest.map Label.lower) ++ [0]).length <
                (labelOctets ((label :: rest).map Label.lower) ++ [0]).length := by
              rw [← drop, List.length_drop]
              simp only [List.map_cons, labelOctets, List.cons_append, List.length_cons]
              omega
            have old : entry ∈ w.names := by
              split at inside
              · simp only [raw_names, u8, List.mem_cons] at inside
                rcases inside with rfl | old
                · simp only at short
                  omega
                · exact old
              · exact inside
            have grown := (sound entry old (by omega)).append
              (UInt8.ofNat label.octets.length :: label.octets)
            split <;> simpa [u8, raw] using grown

/-- A written name, compressed or not, is read back as an equal name, and the
table stays sound. -/
theorem writeName_spec {w : Writer} (sound : w.Sound) (name : Name) (compress : Bool)
    (legal : name.wireLen ≤ maxName) :
    (w.writeName name compress).Sound ∧
    (∃ out, (w.writeName name compress).buf = w.buf ++ out) ∧
    ∃ other : Name, other.lower = name.lower ∧ ∀ more : Octets,
      Reader.readName ⟨(w.writeName name compress).buf ++ more, w.tell⟩ =
        .ok (other, ⟨(w.writeName name compress).buf ++ more, (w.writeName name compress).tell⟩) := by
  cases compress with
  | false =>
      rw [writeName_plain]
      refine ⟨sound.raw _, ⟨_, rfl⟩, name, rfl, fun more => ?_⟩
      have here : ((w.raw (labelOctets name.labels ++ [0])).buf ++ more).drop w.tell =
          labelOctets name.labels ++ 0 :: more := by simp [tell]
      have read := Reader.readName_of_nameAt (NameAt.plain here) legal (Nat.zero_le _)
      rw [read]
      simp [tell, Nat.add_assoc]
  | true =>
      obtain ⟨grows, fresh, others, hops, found, same, few⟩ :=
        writeLabels_written w name.labels fun entry inside _ => sound entry inside
      have lengths : (Name.mk others).wireLen = name.wireLen :=
        Name.wireLen_of_lower (by simpa only [Name.lower] using same)
      have narrow := Name.length_le_labelOctets name.labels
      have width := name.wireLen_eq
      have bound : name.labels.length ≤ 127 := name.labels_le_of_legal legal
      refine ⟨fun entry inside => (fresh entry inside).elim (fun old => ?_) id, grows,
        ⟨others⟩, same, fun more => ?_⟩
      · obtain ⟨out, grown⟩ := grows
        exact grown ▸ (sound entry old).append out
      · exact Reader.readName_of_nameAt (found.append more) (lengths ▸ legal)
          (by simp only [maxPointerHops]; omega)

end Writer

end Trench.Wire
