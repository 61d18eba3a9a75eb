import Mathlib
import Trench.Wire.MessageRoundTrip

set_option autoImplicit false

/- How many octets a message takes. Only owner and question names are compressed, so
what a record takes depends on the names before it, and on nothing else. -/
namespace Trench.Wire

open Name (labelOctets)

/-! ### Data -/

theorem emitStrings_cases (strings : List Octets) :
    (∃ octets, ∀ w, Rdata.emitStrings w strings = .ok (w.raw octets)) ∨
      ∃ e, ∀ w, Rdata.emitStrings w strings = .error e := by
  induction strings with
  | nil =>
      refine .inl ⟨[], fun w => ?_⟩
      rw [Writer.raw_nil]
      rfl
  | cons s rest ih =>
      by_cases long : s.length > 255
      · refine .inr ⟨.txtChunk, fun w => ?_⟩
        rw [Rdata.emitStrings, if_pos long]
      · rcases ih with ⟨octets, written⟩ | ⟨e, failed⟩
        · refine .inl ⟨Rdata.countedOctets s ++ octets, fun w => ?_⟩
          rw [Rdata.emitStrings, if_neg long, written, Rdata.counted_eq, Writer.raw_raw]
        · refine .inr ⟨e, fun w => ?_⟩
          rw [Rdata.emitStrings, if_neg long, failed]

/-- Data is written as the same octets everywhere, or refused everywhere. -/
theorem Rdata.emit_cases (rd : Rdata) :
    (∀ w, rd.emit w = .ok (w.raw rd.octets)) ∨ ∃ e, ∀ w, rd.emit w = .error e := by
  have known (octets : Octets) (written : ∀ w, rd.emit w = .ok (w.raw octets)) :
      ∀ w, rd.emit w = .ok (w.raw rd.octets) := by
    have same : rd.octets = octets := by
      rw [Rdata.octets, written]
      rfl
    rw [same]
    exact written
  cases rd with
  | a address =>
      cases found : inetPton4 address with
      | none => exact .inr ⟨.badAddress address, fun w => by simp only [emit, found]⟩
      | some octets => exact .inl (known octets fun w => by simp only [emit, found])
  | aaaa address =>
      cases found : inetPton6 address with
      | none => exact .inr ⟨.badAddress address, fun w => by simp only [emit, found]⟩
      | some octets => exact .inl (known octets fun w => by simp only [emit, found])
  | txt strings => exact (emitStrings_cases strings).imp (Exists.elim · known) id
  | spf strings => exact (emitStrings_cases strings).imp (Exists.elim · known) id
  | _ =>
      left
      apply known
      intro w
      simp only [emit, emitDs, emitDnskey, emitSvcb, emitTsig, Writer.int8, Writer.int16, Writer.int32,
        Writer.counted, Writer.counted16, Writer.u8, Writer.u16, Writer.u32, Writer.writeName_plain,
        Writer.raw_raw]
      rfl

/-! ### Names -/

/-- The key under which a suffix stands in the compression table. -/
def suffixKey (labels : List Label) : Octets := labelOctets (labels.map Label.lower) ++ [0]

theorem suffixKey_inj {a b : List Label} (same : suffixKey a = suffixKey b) :
    a.map Label.lower = b.map Label.lower :=
  (Name.labelOctets_zero_inj (x := []) (y := []) same).1

theorem suffixKey_length_lt (label : Label) (rest : List Label) :
    (suffixKey rest).length < (suffixKey (label :: rest)).length := by
  simp only [suffixKey, List.map_cons, labelOctets, List.cons_append, List.length_cons,
    List.length_append]
  omega

theorem suffixKey_length_le {part labels : List Label} (suffix : part <:+ labels) :
    (suffixKey part).length ≤ (suffixKey labels).length := by
  induction labels with
  | nil => rw [List.suffix_nil.mp suffix]
  | cons label rest ih =>
      rcases List.suffix_cons_iff.mp suffix with rfl | inner
      · exact Nat.le_refl _
      · exact Nat.le_of_lt (Nat.lt_of_le_of_lt (ih inner) (suffixKey_length_lt label rest))

/-- What a name takes where the suffixes in `known` can be pointed to. -/
def nameCost (known : Octets → Bool) : List Label → Nat
  | [] => 1
  | label :: rest =>
      if known (suffixKey (label :: rest)) then 2
      else label.octets.length + 1 + nameCost known rest

theorem nameCost_congr {known other : Octets → Bool} {labels : List Label}
    (same : ∀ part, part <:+ labels → known (suffixKey part) = other (suffixKey part)) :
    nameCost known labels = nameCost other labels := by
  induction labels with
  | nil => rfl
  | cons label rest ih =>
      rw [nameCost, nameCost, same _ (List.suffix_refl _),
        ih fun part suffix => same part (suffix.trans (List.suffix_cons label rest))]

/-- Letter case costs nothing. -/
theorem nameCost_lower {known : Octets → Bool} {a b : List Label}
    (same : a.map Label.lower = b.map Label.lower) : nameCost known a = nameCost known b := by
  induction a generalizing b with
  | nil => rw [List.map_eq_nil_iff.mp same.symm]
  | cons label rest ih =>
      cases b with
      | nil => cases same
      | cons other more =>
          rw [List.map_cons, List.map_cons, List.cons.injEq] at same
          have width : label.octets.length = other.octets.length := by
            have equal := congrArg (fun l => l.octets.length) same.1
            simpa only [Label.lower, List.length_map] using equal
          have keys : suffixKey (label :: rest) = suffixKey (other :: more) := by
            rw [suffixKey, suffixKey, List.map_cons, List.map_cons, same.1, same.2]
          rw [nameCost, nameCost, keys, width, ih same.2]

/-- A suffix that is spelled out when the labels are written: no suffix as long is known. -/
def Spelled (known : Octets → Bool) (labels part : List Label) : Prop :=
  part <:+ labels ∧ ∀ longer, part <:+ longer → longer <:+ labels → known (suffixKey longer) = false

theorem nameCost_spelled {known : Octets → Bool} {labels part : List Label}
    (spelled : Spelled known labels part) : nameCost known part ≤ nameCost known labels := by
  obtain ⟨suffix, unknown⟩ := spelled
  induction labels with
  | nil => rw [List.suffix_nil.mp suffix]
  | cons label rest ih =>
      rcases List.suffix_cons_iff.mp suffix with rfl | inner
      · exact Nat.le_refl _
      · have less := ih inner fun longer above below =>
          unknown longer above (below.trans (List.suffix_cons label rest))
        rw [nameCost, unknown (label :: rest) suffix (List.suffix_refl _), if_neg Bool.false_ne_true]
        omega

theorem two_le_nameCost (known : Octets → Bool) (label : Label) (rest : List Label) :
    2 ≤ nameCost known (label :: rest) := by
  have positive := label.nonempty
  rw [nameCost]
  split
  · exact Nat.le_refl 2
  · omega

/-- Writing one name first makes another shorter by no more than it takes itself. -/
theorem nameCost_le {known later : Octets → Bool} {first : List Label}
    (grown : ∀ key, later key = true → known key = true ∨
      ∃ part, Spelled known first part ∧ key = suffixKey part) (labels : List Label) :
    nameCost known labels ≤ nameCost later labels + nameCost known first := by
  induction labels with
  | nil =>
      rw [nameCost, nameCost]
      omega
  | cons label rest ih =>
      by_cases old : known (suffixKey (label :: rest)) = true
      · have enough := two_le_nameCost later label rest
        rw [nameCost, if_pos old]
        omega
      · by_cases new : later (suffixKey (label :: rest)) = true
        · rcases grown _ new with already | ⟨part, spelled, key⟩
          · exact absurd already old
          · rw [nameCost_lower (suffixKey_inj key)]
            exact (nameCost_spelled spelled).trans (Nat.le_add_left _ _)
        · rw [nameCost, if_neg old, nameCost, if_neg new]
          omega

namespace Writer

/-- Whether a suffix can be pointed to. -/
def knows (w : Writer) (key : Octets) : Bool := (w.names.lookup key).isSome

theorem knows_cons (buf : Octets) (names : List (Octets × Nat)) (entry : Octets × Nat) (key : Octets) :
    (⟨buf, entry :: names⟩ : Writer).knows key = (key == entry.1 || (⟨buf, names⟩ : Writer).knows key) := by
  obtain ⟨first, pos⟩ := entry
  rw [knows, knows, List.lookup_cons]
  cases key == first <;> rfl

/-- What writing a label list does to the size and to the table. -/
structure Sized (w : Writer) (labels : List Label) (after : Writer) : Prop where
  size : after.buf.length = w.buf.length + nameCost w.knows labels
  table : ∀ key, after.knows key = true → w.knows key = true ∨
    ∃ part, Spelled w.knows labels part ∧ key = suffixKey part

theorem writeLabels_sized (w : Writer) (labels : List Label) :
    Sized w labels (writeLabels true w (suffixKey labels) labels) := by
  induction labels generalizing w with
  | nil => exact ⟨by simp [writeLabels, u8, nameCost], fun key held => .inl held⟩
  | cons label rest ih =>
      have drop : (suffixKey (label :: rest)).drop (label.octets.length + 1) = suffixKey rest := by
        have same : label.octets.length = label.lower.octets.length := by simp [Label.lower]
        rw [same]
        simp [suffixKey, labelOctets]
      rw [writeLabels]
      simp only [↓reduceIte]
      split
      · next off found =>
          have known : w.knows (suffixKey (label :: rest)) = true := by rw [knows, found, Option.isSome_some]
          refine ⟨?_, fun key held => .inl held⟩
          rw [nameCost, if_pos known, u16, raw_buf, List.length_append, length_octets16]
      · next absent =>
          have unknown : w.knows (suffixKey (label :: rest)) = false := by rw [knows, absent, Option.isSome_none]
          rw [drop]
          let entered : Writer :=
            if w.tell ≤ 0x3FFF then { w with names := (suffixKey (label :: rest), w.tell) :: w.names }
            else w
          let start := (entered.u8 (UInt8.ofNat label.octets.length)).raw label.octets
          have length : start.buf.length = w.buf.length + (label.octets.length + 1) := by
            have same : entered.buf = w.buf := by
              simp only [entered]
              split <;> rfl
            simp only [start, u8, raw_buf, same, List.length_append, List.length_cons, List.length_nil]
            omega
          have knows (key : Octets) : start.knows key = true →
              key = suffixKey (label :: rest) ∨ w.knows key = true := by
            change entered.knows key = true → _
            simp only [entered]
            split
            · rw [knows_cons, Bool.or_eq_true, beq_iff_eq]
              exact id
            · exact .inr
          have kept (key : Octets) (held : w.knows key = true) : start.knows key = true := by
            change entered.knows key = true
            simp only [entered]
            split
            · rw [knows_cons, held, Bool.or_true]
            · exact held
          have same (part : List Label) (inner : part <:+ rest) :
              start.knows (suffixKey part) = w.knows (suffixKey part) := by
            rw [Bool.eq_iff_iff]
            refine ⟨fun held => (knows _ held).resolve_left fun equal => ?_, kept _⟩
            have shorter := suffixKey_length_lt label rest
            have part := suffixKey_length_le inner
            rw [equal] at part
            omega
          obtain ⟨size, table⟩ := ih start
          refine ⟨?_, fun key held => ?_⟩
          · change (writeLabels true start (suffixKey rest) rest).buf.length = _
            rw [size, length, nameCost_congr same, nameCost, unknown, if_neg Bool.false_ne_true]
            omega
          · rcases table key held with old | ⟨part, ⟨inner, free⟩, rfl⟩
            · rcases knows key old with rfl | older
              · refine .inr ⟨label :: rest, ⟨List.suffix_refl _, fun longer above below => ?_⟩, rfl⟩
                rw [List.IsSuffix.eq_of_length below
                  (Nat.le_antisymm below.length_le above.length_le)]
                exact unknown
              · exact .inl older
            · refine .inr ⟨part, ⟨inner.trans (List.suffix_cons label rest), ?_⟩, rfl⟩
              intro longer above below
              rcases List.suffix_cons_iff.mp below with rfl | within
              · exact unknown
              · rw [← same longer within]
                exact free longer above within

theorem writeName_sized (w : Writer) (name : Name) : Sized w name.labels (w.writeName name true) :=
  writeLabels_sized w name.labels

end Writer

/-! ### Records -/

/-- What a record takes besides its owner. -/
def RR.bodySize (rr : RR) : Nat := 10 + rr.rdata.octets.length

theorem writeRR_eq {w : Writer} {rr : RR} (emits : ∀ w, rr.rdata.emit w = .ok (w.raw rr.rdata.octets))
    (compress : Bool) : writeRR compress w rr = .ok ((w.writeName rr.name compress).raw
      (fixedFields rr.rtype rr.rclass (UInt32.ofInt rr.ttl) (UInt16.ofNat rr.rdata.octets.length) ++
        rr.rdata.octets)) := by
  let start := (((w.writeName rr.name compress).u16 rr.rtype).u16 rr.rclass).int32 rr.ttl
  have width : (start.reserveU16.2.raw rr.rdata.octets).tell - start.reserveU16.2.tell =
      rr.rdata.octets.length := by
    simp only [Writer.tell, Writer.raw_buf, List.length_append, Nat.add_sub_cancel_left]
  have patched := start.patch_reserved rr.rdata.octets (UInt16.ofNat rr.rdata.octets.length)
  rw [writeRR]
  simp only [emits]
  change Except.ok ((start.reserveU16.2.raw rr.rdata.octets).patchU16 start.reserveU16.1
    (UInt16.ofNat ((start.reserveU16.2.raw rr.rdata.octets).tell - start.reserveU16.2.tell))) = _
  rw [width, patched]
  simp only [start, Writer.u16, Writer.int32, Writer.u32, Writer.raw_raw, fixedFields,
    List.append_assoc]

/-- A record that is written leaves a larger writer, which knows the owner's suffixes. -/
theorem writeRR_sized {w after : Writer} {rr : RR} (written : writeRR true w rr = .ok after) :
    (∀ w, rr.rdata.emit w = .ok (w.raw rr.rdata.octets)) ∧
      after.buf.length = w.buf.length + nameCost w.knows rr.name.labels + rr.bodySize ∧
      ∀ key, after.knows key = true → w.knows key = true ∨
        ∃ part, Spelled w.knows rr.name.labels part ∧ key = suffixKey part := by
  rcases rr.rdata.emit_cases with emits | ⟨e, failed⟩
  · rw [writeRR_eq emits] at written
    cases written
    obtain ⟨size, table⟩ := w.writeName_sized rr.name
    refine ⟨emits, ?_, table⟩
    rw [Writer.raw_buf, List.length_append, size, RR.bodySize, fixedFields]
    simp only [List.length_append, length_octets16, length_octets32]
  · rw [writeRR] at written
    simp only [failed] at written
    cases written

theorem writeRRs_cons {compress : Bool} {w after : Writer} {rr : RR} {rest : List RR} :
    writeRRs compress w (rr :: rest) = .ok after ↔
      ∃ middle, writeRR compress w rr = .ok middle ∧ writeRRs compress middle rest = .ok after := by
  rw [writeRRs]
  cases writeRR compress w rr with
  | error e =>
      constructor
      · intro failed
        cases failed
      · rintro ⟨_, failed, -⟩
        cases failed
  | ok middle =>
      constructor
      · intro more
        exact ⟨middle, rfl, more⟩
      · rintro ⟨_, same, more⟩
        cases same
        exact more

theorem bodySizes_le {w after : Writer} {rrs : List RR} (written : writeRRs true w rrs = .ok after) :
    w.buf.length + (rrs.map RR.bodySize).sum ≤ after.buf.length := by
  induction rrs generalizing w with
  | nil =>
      cases written
      exact Nat.le_refl _
  | cons rr rest ih =>
      obtain ⟨middle, one, more⟩ := writeRRs_cons.mp written
      obtain ⟨_, size, _⟩ := writeRR_sized one
      have later := ih more
      rw [List.map_cons, List.sum_cons]
      omega

theorem writeRRs_grows {w after : Writer} {rrs : List RR} (written : writeRRs true w rrs = .ok after) :
    w.buf.length ≤ after.buf.length := by
  have sum := bodySizes_le written
  omega

/-- A record by itself takes no more than a list of records with it. -/
theorem writeRR_le {w after : Writer} {rrs : List RR} {rr : RR}
    (written : writeRRs true w rrs = .ok after) (held : rr ∈ rrs) :
    ∃ alone, writeRR true w rr = .ok alone ∧ alone.buf.length ≤ after.buf.length := by
  induction rrs generalizing w with
  | nil => cases held
  | cons first rest ih =>
      obtain ⟨middle, one, more⟩ := writeRRs_cons.mp written
      rcases List.mem_cons.mp held with rfl | held
      · exact ⟨middle, one, writeRRs_grows more⟩
      · obtain ⟨alone, behind, less⟩ := ih more held
        obtain ⟨emits, size, _⟩ := writeRR_sized behind
        obtain ⟨_, firstSize, table⟩ := writeRR_sized one
        have here := writeRR_eq emits (w := w) true
        refine ⟨_, here, ?_⟩
        obtain ⟨_, hereSize, _⟩ := writeRR_sized here
        have less' := nameCost_le table rr.name.labels
        omega

theorem writeRRs_emits {rrs : List RR} (w : Writer)
    (emits : ∀ rr ∈ rrs, ∀ w, rr.rdata.emit w = .ok (w.raw rr.rdata.octets)) :
    ∃ after, writeRRs true w rrs = .ok after := by
  induction rrs generalizing w with
  | nil => exact ⟨w, rfl⟩
  | cons rr rest ih =>
      have one := writeRR_eq (emits rr List.mem_cons_self) (w := w) true
      obtain ⟨after, more⟩ := ih _ fun other held => emits other (List.mem_cons_of_mem _ held)
      exact ⟨after, writeRRs_cons.mpr ⟨_, one, more⟩⟩

/-! ### Messages -/

/-- Two writers of one size and table, on which sizes depend. -/
def Writer.Shaped (w v : Writer) : Prop := w.buf.length = v.buf.length ∧ w.names = v.names

theorem Writer.Shaped.raw {w v : Writer} (shaped : w.Shaped v) (bytes : Octets) :
    (w.raw bytes).Shaped (v.raw bytes) := by
  refine ⟨?_, shaped.2⟩
  rw [raw_buf, raw_buf, List.length_append, List.length_append, shaped.1]

theorem Writer.Shaped.writeLabels {w v : Writer} (shaped : w.Shaped v) (compress : Bool)
    (key : Octets) (labels : List Label) :
    (Writer.writeLabels compress w key labels).Shaped (Writer.writeLabels compress v key labels) := by
  induction labels generalizing w v key with
  | nil => exact shaped.raw [0]
  | cons label rest ih =>
      cases compress with
      | false => exact ih ((shaped.raw _).raw _) key
      | true =>
          simp only [Writer.writeLabels, ↓reduceIte, shaped.2]
          split
          · exact shaped.raw _
          · have place : w.tell = v.tell := shaped.1
            rw [place]
            apply ih
            refine Shaped.raw (Shaped.raw ?_ _) _
            split
            · exact ⟨shaped.1, rfl⟩
            · exact shaped

theorem foldl_writeQuestion_shaped (questions : List Question) {w v : Writer} (shaped : w.Shaped v)
    (compress : Bool) : (questions.foldl (writeQuestion compress) w).Shaped
      (questions.foldl (writeQuestion compress) v) := by
  induction questions generalizing w v with
  | nil => exact shaped
  | cons q rest ih => exact ih (((shaped.writeLabels compress _ q.name.labels).raw _).raw _)

namespace Message

/-- The header's counts do not matter to the sizes behind it. -/
theorem questionWriter_shaped {m n : Message} (same : m.questions = n.questions) (compress : Bool) :
    (m.questionWriter compress).Shaped (n.questionWriter compress) := by
  have headers : m.writeHeader.Shaped n.writeHeader := ⟨rfl, rfl⟩
  rw [questionWriter, questionWriter, same]
  exact foldl_writeQuestion_shaped n.questions headers compress

/-- A message with answers only. -/
theorem toWire_answers {m : Message} (authority : m.authority = []) (additional : m.additional = []) :
    m.toWire = (writeRRs true (m.questionWriter true) m.answers).map fun w => w.buf ++ m.tailOctets := by
  have plain : m.plainAdditional = [] := by
    rw [plainAdditional, additional]
    split <;> rfl
  have written : m.write true = (writeRRs true (m.questionWriter true) m.answers).map
      fun w => w.raw m.tailOctets := by
    rw [write, authority, plain, tailOctets]
    change (writeRRs true (m.questionWriter true) m.answers >>= _) = _
    cases writeRRs true (m.questionWriter true) m.answers with
    | error e => rfl
    | ok w =>
        cases m.edns with
        | none => exact congrArg Except.ok w.raw_nil.symm
        | some edns => exact congrArg Except.ok (writeOpt_eq w edns)
  cases run : writeRRs true (m.questionWriter true) m.answers with
  | error e =>
      rw [run] at written
      rw [toWire, encode, written]
      rfl
  | ok w =>
      rw [run] at written
      exact toWire_of_write written

theorem bodySizes_le_toWire {m : Message} {wire : Octets} (authority : m.authority = [])
    (additional : m.additional = []) (written : m.toWire = .ok wire) :
    (m.answers.map RR.bodySize).sum ≤ wire.length := by
  rw [toWire_answers authority additional] at written
  cases run : writeRRs true (m.questionWriter true) m.answers with
  | error e =>
      rw [run] at written
      cases written
  | ok after =>
      rw [run] at written
      cases written
      have sum := bodySizes_le run
      rw [List.length_append]
      omega

/-- One of its answers by itself takes no more. -/
theorem toWire_single_le {m : Message} {wire : Octets} {rr : RR} (authority : m.authority = [])
    (additional : m.additional = []) (written : m.toWire = .ok wire) (held : rr ∈ m.answers) :
    ∃ less, ({ m with answers := [rr] } : Message).toWire = .ok less ∧ less.length ≤ wire.length := by
  rw [toWire_answers authority additional] at written
  cases run : writeRRs true (m.questionWriter true) m.answers with
  | error e =>
      rw [run] at written
      cases written
  | ok after =>
      rw [run] at written
      cases written
      obtain ⟨alone, one, less⟩ := writeRR_le run held
      obtain ⟨emits, size, _⟩ := writeRR_sized one
      let n : Message := { m with answers := [rr] }
      obtain ⟨u, again⟩ : ∃ u, writeRR true (n.questionWriter true) rr = .ok u :=
        ⟨_, writeRR_eq emits true⟩
      obtain ⟨_, sizeAgain, _⟩ := writeRR_sized again
      obtain ⟨width, table⟩ : (n.questionWriter true).Shaped (m.questionWriter true) :=
        questionWriter_shaped (show n.questions = m.questions from rfl) true
      have known : (n.questionWriter true).knows = (m.questionWriter true).knows := by
        funext key
        rw [Writer.knows, Writer.knows, table]
      have written : n.toWire = .ok (u.buf ++ m.tailOctets) := by
        have list : writeRRs true (n.questionWriter true) [rr] = .ok u :=
          writeRRs_cons.mpr ⟨u, again, rfl⟩
        rw [toWire_answers (show n.authority = [] from authority)
          (show n.additional = [] from additional)]
        change (writeRRs true (n.questionWriter true) [rr]).map _ = _
        rw [list]
        rfl
      refine ⟨_, written, ?_⟩
      rw [known, width] at sizeAgain
      rw [List.length_append, List.length_append]
      omega

/-- Answers whose data can be written make a message that can be. -/
theorem toWire_emits {m : Message} (authority : m.authority = []) (additional : m.additional = [])
    (emits : ∀ rr ∈ m.answers, ∀ w, rr.rdata.emit w = .ok (w.raw rr.rdata.octets)) :
    ∃ wire, m.toWire = .ok wire := by
  obtain ⟨after, run⟩ := writeRRs_emits (m.questionWriter true) emits
  rw [toWire_answers authority additional, run]
  exact ⟨_, rfl⟩

theorem emits_of_toWire {m : Message} {wire : Octets} {rr : RR} (authority : m.authority = [])
    (additional : m.additional = []) (written : m.toWire = .ok wire) (held : rr ∈ m.answers) :
    ∀ w, rr.rdata.emit w = .ok (w.raw rr.rdata.octets) := by
  rw [toWire_answers authority additional] at written
  cases run : writeRRs true (m.questionWriter true) m.answers with
  | error e =>
      rw [run] at written
      cases written
  | ok after =>
      obtain ⟨alone, one, _⟩ := writeRR_le run held
      exact (writeRR_sized one).1

end Message

end Trench.Wire
