import Mathlib
import Trench.Wire.NameOrder

set_option autoImplicit false

/- The text of a name is read back as that name, and lowering the text lowers the name. -/
namespace Trench.Wire.Name

/-- `str.lower` on a text of ASCII characters. -/
def lowerText (s : Text) : Text := s.map Char.toLower

/-- What the text of a label is made of: no blank, and nothing outside ASCII. -/
def Graphic (c : Char) : Prop := 0x21 ≤ c.toNat ∧ c.toNat ≤ 0x7E

instance (c : Char) : Decidable (Graphic c) := inferInstanceAs (Decidable (_ ∧ _))

theorem forall_octet {good : UInt8 → Prop} (each : ∀ n : Fin 256, good (UInt8.ofNat n.val))
    (c : UInt8) : good c := by
  have holds := each ⟨c.toNat, c.toNat_lt⟩
  rwa [UInt8.ofNat_toNat] at holds

/-- The text of an octet, one octet after another: never empty nor a dot, of graphic characters, without
a backslash the octet's own character, and lowered with the octet. -/
theorem escapeOctet_spec (c : UInt8) : (escapeOctet c).all (fun ch => decide (Graphic ch)) = true ∧
    escapeOctet c ≠ [] ∧ escapeOctet c ≠ ['.'] ∧ lowerText (escapeOctet c) = escapeOctet (lowerOctet c) ∧
    ('\\' ∉ escapeOctet c →
      escapeOctet c = [Char.ofNat c.toNat] ∧ c.toNat < 128 ∧ Char.ofNat c.toNat ≠ '.') := by
  revert c
  apply forall_octet
  decide +kernel

theorem graphic_escapeOctet (c : UInt8) : ∀ ch ∈ escapeOctet c, Graphic ch := fun ch held =>
  of_decide_eq_true (List.all_eq_true.mp (escapeOctet_spec c).1 ch held)

theorem escapeOctet_ne_nil (c : UInt8) : escapeOctet c ≠ [] := (escapeOctet_spec c).2.1

/-- An octet whose text has no backslash is a plain character other than the dot. -/
theorem escapeOctet_plain (c : UInt8) (unescaped : '\\' ∉ escapeOctet c) :
    escapeOctet c = [Char.ofNat c.toNat] ∧ c.toNat < 128 ∧ Char.ofNat c.toNat ≠ '.' :=
  (escapeOctet_spec c).2.2.2.2 unescaped

theorem lowerText_escapeOctet (c : UInt8) :
    lowerText (escapeOctet c) = escapeOctet (lowerOctet c) := (escapeOctet_spec c).2.2.2.1

theorem joinDots_cons (part second : Text) (more : List Text) :
    joinDots (part :: second :: more) = part ++ '.' :: joinDots (second :: more) := rfl

theorem lowerText_append (s t : Text) : lowerText (s ++ t) = lowerText s ++ lowerText t :=
  List.map_append

theorem lowerText_escape (octets : Octets) :
    lowerText (escape octets) = escape (octets.map lowerOctet) := by
  induction octets with
  | nil => rfl
  | cons c rest ih =>
      rw [escape, List.flatMap_cons, lowerText_append, lowerText_escapeOctet, List.map_cons, escape,
        List.flatMap_cons]
      exact congrArg _ ih

theorem lowerText_joinDots (parts : List Text) :
    lowerText (joinDots parts) = joinDots (parts.map lowerText) := by
  induction parts with
  | nil => rfl
  | cons part rest ih =>
      cases rest with
      | nil => rfl
      | cons second more =>
          rw [joinDots_cons, lowerText_append, List.map_cons, List.map_cons, joinDots_cons,
            ← List.map_cons, ← ih]
          rfl

/-- Lowering the text of a name gives the text of its canonical form. -/
theorem lowerText_toText (name : Name) : lowerText name.toText = name.canonicalize.toText := by
  have parts : lowerText (joinDots (name.labels.map fun l => escape l.octets)) =
      joinDots ((name.labels.map Label.lower).map fun l => escape l.octets) := by
    rw [lowerText_joinDots, List.map_map, List.map_map]
    congr 1
    exact List.map_congr_left fun label _ => lowerText_escape label.octets
  simp only [toText, canonicalize, lower, Bool.false_eq_true, ↓reduceIte, List.isEmpty_map]
  split
  · rfl
  · rw [lowerText_append, parts]
    rfl

/-! ### Reading the text back -/

theorem escape_ne_nil (label : Label) : escape label.octets ≠ [] := by
  have nonempty := label.nonempty
  cases same : label.octets with
  | nil =>
      rw [same] at nonempty
      exact absurd nonempty (by decide)
  | cons c rest =>
      rw [escape, List.flatMap_cons]
      exact fun none => escapeOctet_ne_nil c (List.append_eq_nil_iff.mp none).1

theorem graphic_escape (octets : Octets) : ∀ ch ∈ escape octets, Graphic ch := by
  intro ch held
  obtain ⟨c, -, inside⟩ := List.mem_flatMap.mp held
  exact graphic_escapeOctet c ch inside

theorem mem_joinDots {parts : List Text} {ch : Char} (held : ch ∈ joinDots parts) :
    ch = '.' ∨ ∃ part ∈ parts, ch ∈ part := by
  induction parts with
  | nil => cases held
  | cons part rest ih =>
      cases rest with
      | nil => exact .inr ⟨part, List.mem_cons_self, held⟩
      | cons second more =>
          rw [joinDots_cons, List.mem_append, List.mem_cons] at held
          rcases held with inside | dot | held
          · exact .inr ⟨part, List.mem_cons_self, inside⟩
          · exact .inl dot
          · rcases ih held with dot | ⟨other, listed, inside⟩
            · exact .inl dot
            · exact .inr ⟨other, List.mem_cons_of_mem _ listed, inside⟩

theorem mem_joinDots_of_mem {parts : List Text} {part : Text} {ch : Char} (listed : part ∈ parts)
    (inside : ch ∈ part) : ch ∈ joinDots parts := by
  induction parts with
  | nil => cases listed
  | cons head rest ih =>
      cases rest with
      | nil =>
          rw [List.mem_singleton.mp listed] at inside
          exact inside
      | cons second more =>
          rw [joinDots_cons]
          rcases List.mem_cons.mp listed with rfl | listed
          · exact List.mem_append_left _ inside
          · exact List.mem_append_right _ (List.mem_cons_of_mem _ (ih listed))

theorem graphic_joinDots (labels : List Label) :
    ∀ ch ∈ joinDots (labels.map fun l => escape l.octets), Graphic ch := by
  intro ch held
  rcases mem_joinDots held with rfl | ⟨part, listed, inside⟩
  · decide
  · obtain ⟨label, -, rfl⟩ := List.mem_map.mp listed
    exact graphic_escape label.octets ch inside

theorem not_isSpace_of_graphic {c : Char} (graphic : Graphic c) : isSpace c = false := by
  obtain ⟨low, high⟩ := graphic
  simp only [isSpace, Bool.or_eq_false_iff, Bool.and_eq_false_iff, decide_eq_false_iff_not,
    beq_eq_false_iff_ne, ne_eq]
  omega

theorem dropWhile_isSpace {s : Text} (graphic : ∀ c ∈ s, Graphic c) : s.dropWhile isSpace = s := by
  cases s with
  | nil => rfl
  | cons c rest =>
      rw [List.dropWhile_cons, not_isSpace_of_graphic (graphic c List.mem_cons_self)]
      rfl

theorem strip_of_graphic {s : Text} (graphic : ∀ c ∈ s, Graphic c) : strip s = s := by
  rw [strip, dropWhile_isSpace graphic, dropWhile_isSpace, List.reverse_reverse]
  exact fun c held => graphic c (List.mem_reverse.mp held)

theorem toNat_digitChar (n : Nat) (small : n < 10) : (Nat.digitChar n).toNat = 48 + n := by
  interval_cases n <;> rfl

theorem isDigit_digitChar (n : Nat) (small : n < 10) : isDigit (Nat.digitChar n) = true := by
  interval_cases n <;> rfl

/-- One octet's text is unescaped to the octet, whatever follows. -/
theorem splitEscaped_escapeOctet (whole rest : Text) (cur : Octets) (c : UInt8) :
    splitEscaped whole (escapeOctet c ++ rest) cur = splitEscaped whole rest (cur ++ [c]) := by
  have bound := c.toNat_lt
  simp only [escapeOctet]
  split
  · next special =>
      rcases special with rfl | rfl
      · cases rest with
        | nil => rfl
        | cons b more => cases more <;> rfl
      · cases rest with
        | nil => rfl
        | cons b more => cases more <;> rfl
  · next special =>
      split
      · next printed =>
          have plain : Char.ofNat c.toNat ≠ '.' ∧ Char.ofNat c.toNat ≠ '\\' ∧
              (Char.ofNat c.toNat).toNat = c.toNat := by
            have value : (Char.ofNat c.toNat).toNat = c.toNat := by
              rw [Char.toNat_ofNat, if_pos (.inl (by omega))]
            have number {d : UInt8} (same : Char.ofNat c.toNat = Char.ofNat d.toNat)
                (small : (Char.ofNat d.toNat).toNat = d.toNat) : c = d :=
              UInt8.toNat_inj.mp (value.symm.trans ((congrArg Char.toNat same).trans small))
            exact ⟨fun dot => special (.inl (number dot rfl)), fun slash => special (.inr (number slash rfl)), value⟩
          rw [List.singleton_append, splitEscaped]
          · rw [plain.2.2, if_neg (by omega), UInt8.ofNat_toNat]
          · exact plain.1
          · intro bad
            exact absurd bad plain.2.1
          · intro a tail bad
            exact absurd bad plain.2.1
      · have hundreds : c.toNat / 100 < 10 := by omega
        have tens : c.toNat / 10 % 10 < 10 := by omega
        have units : c.toNat % 10 < 10 := by omega
        have digits : digitsValue (Nat.digitChar (c.toNat / 100)) (Nat.digitChar (c.toNat / 10 % 10))
            (Nat.digitChar (c.toNat % 10)) = c.toNat := by
          rw [digitsValue, toNat_digitChar _ hundreds, toNat_digitChar _ tens,
            toNat_digitChar _ units]
          omega
        rw [threeDigits, List.cons_append, List.cons_append, List.cons_append, List.cons_append,
          List.nil_append, splitEscaped]
        simp only [isDigit_digitChar _ hundreds, isDigit_digitChar _ tens, isDigit_digitChar _ units,
          digits, Bool.and_self, ↓reduceIte, UInt8.ofNat_toNat]
        rw [if_neg (by omega)]

theorem splitEscaped_escape (whole rest : Text) (cur octets : Octets) :
    splitEscaped whole (escape octets ++ rest) cur = splitEscaped whole rest (cur ++ octets) := by
  induction octets generalizing cur with
  | nil => rw [List.append_nil]; rfl
  | cons c more ih =>
      rw [escape, List.flatMap_cons, List.append_assoc, splitEscaped_escapeOctet]
      rw [show cur ++ c :: more = (cur ++ [c]) ++ more by simp]
      exact ih _

/-- The escaped labels of a text that ends with the root dot. -/
theorem splitEscaped_joinDots (whole : Text) (labels : List Label) (some : labels ≠ []) :
    splitEscaped whole (joinDots (labels.map fun l => escape l.octets) ++ ['.']) [] =
      .ok (labels.map Label.octets ++ [[]]) := by
  induction labels with
  | nil => exact absurd rfl some
  | cons label rest ih =>
      cases rest with
      | nil =>
          rw [List.map_singleton, joinDots, splitEscaped_escape]
          rfl
      | cons second more =>
          have tail := ih (List.cons_ne_nil second more)
          rw [List.map_cons] at tail
          rw [List.map_cons, List.map_cons, joinDots_cons, List.append_assoc, splitEscaped_escape,
            List.cons_append, List.nil_append, splitEscaped, tail]
          rfl

theorem labelsFromText_text (labels : List Label) (some : labels ≠ []) :
    labelsFromText (joinDots (labels.map fun l => escape l.octets) ++ ['.']) =
      .ok (labels.map Label.octets) := by
  have several : 1 < (labels.map Label.octets ++ [[]]).length := by
    have := List.length_pos_iff.mpr some
    rw [List.length_append, List.length_map, List.length_singleton]
    omega
  rw [labelsFromText, splitEscaped_joinDots _ labels some]
  change Except.ok (if _ then _ else _) = _
  rw [if_pos ⟨several, by simp⟩, List.dropLast_concat]

/-- Names with one text are one name, letter for letter. -/
theorem toText_inj {a b : Name} (same : a.toText = b.toText) : a = b := by
  obtain ⟨left⟩ := a
  obtain ⟨right⟩ := b
  have text (labels : List Label) (some : labels ≠ []) : (⟨labels⟩ : Name).toText =
      joinDots (labels.map fun l => escape l.octets) ++ ['.'] := by
    simp [toText, some]
  have long (labels : List Label) (some : labels ≠ []) : (⟨labels⟩ : Name).toText ≠ ['.'] := by
    rw [text labels some]
    intro short
    have empty : joinDots (labels.map fun l => escape l.octets) = [] :=
      List.append_cancel_right (short.trans (List.nil_append ['.']).symm)
    cases labels with
    | nil => exact some rfl
    | cons label rest =>
        cases rest with
        | nil => exact escape_ne_nil label empty
        | cons second more =>
            rw [List.map_cons, List.map_cons, joinDots_cons] at empty
            cases List.append_eq_nil_iff.mp empty |>.2
  by_cases leftRoot : left = []
  · subst leftRoot
    by_cases rightRoot : right = []
    · rw [rightRoot]
    · exact absurd same.symm (long right rightRoot)
  · by_cases rightRoot : right = []
    · subst rightRoot
      exact absurd same (long left leftRoot)
    · have parsed := labelsFromText_text left leftRoot
      rw [text left leftRoot, text right rightRoot] at same
      rw [same, labelsFromText_text right rightRoot, Except.ok.injEq] at parsed
      have octets : Function.Injective Label.octets := fun _ _ equal => Label.ext equal
      rw [octets.list_map.eq_iff.mp parsed]

theorem joinDots_eq_intercalate (parts : List Text) : joinDots parts = ['.'].intercalate parts := by
  induction parts with
  | nil => rfl
  | cons part rest ih =>
      cases rest with
      | nil => simp [joinDots]
      | cons second more =>
          rw [joinDots_cons, ih]
          simp [List.intercalate, List.intersperse]

theorem escape_plain {octets : Octets} (unescaped : '\\' ∉ escape octets) :
    escape octets = octets.map (fun c => Char.ofNat c.toNat) ∧
      ∀ c ∈ octets, c.toNat < 128 ∧ Char.ofNat c.toNat ≠ '.' := by
  induction octets with
  | nil => exact ⟨rfl, fun c held => by cases held⟩
  | cons c rest ih =>
      rw [escape, List.flatMap_cons, List.mem_append, not_or] at unescaped
      obtain ⟨same, ascii, undotted⟩ := escapeOctet_plain c unescaped.1
      obtain ⟨tail, others⟩ := ih unescaped.2
      refine ⟨?_, ?_⟩
      · rw [escape, List.flatMap_cons, same, List.map_cons, List.singleton_append]
        exact congrArg _ tail
      · intro d held
        rcases List.mem_cons.mp held with rfl | held
        · exact ⟨ascii, undotted⟩
        · exact others d held

theorem encodeAscii_escape (whole : Text) {octets : Octets} (unescaped : '\\' ∉ escape octets) :
    encodeAscii whole (escape octets) = .ok octets := by
  obtain ⟨same, ascii⟩ := escape_plain unescaped
  have value : ∀ c ∈ octets, (Char.ofNat c.toNat).toNat = c.toNat := by
    intro c held
    have small := (ascii c held).1
    rw [Char.toNat_ofNat, if_pos (Or.inl (by omega))]
  rw [encodeAscii, same, if_pos]
  · rw [List.map_map, List.map_congr_left (g := id), List.map_id]
    intro c held
    rw [Function.comp_apply, value c held, UInt8.ofNat_toNat, id]
  · rw [List.all_map, List.all_eq_true]
    intro c held
    rw [Function.comp_apply, value c held]
    exact decide_eq_true (ascii c held).1

theorem mapM_encodeAscii (whole : Text) (labels : List Label)
    (unescaped : ∀ l ∈ labels, '\\' ∉ escape l.octets) :
    (labels.map fun l => escape l.octets).mapM (encodeAscii whole) =
      .ok (labels.map Label.octets) := by
  induction labels with
  | nil => rfl
  | cons label rest ih =>
      rw [List.map_cons, List.mapM_cons, encodeAscii_escape whole (unescaped _ List.mem_cons_self),
        ih fun l held => unescaped l (List.mem_cons_of_mem _ held)]
      rfl

theorem checkLabel_octets (whole : Text) (label : Label) :
    checkLabel whole label.octets = .ok label := by
  rw [checkLabel, dif_pos ⟨label.nonempty, label.bounded⟩]

theorem mapM_checkLabel (whole : Text) (labels : List Label) :
    (labels.map Label.octets).mapM (checkLabel whole) = .ok labels := by
  induction labels with
  | nil => rfl
  | cons label rest ih =>
      rw [List.map_cons, List.mapM_cons, checkLabel_octets, ih]
      rfl

/-- A text without a backslash is split at its dots. -/
theorem splitOn_joinDots (labels : List Label) (some : labels ≠ [])
    (unescaped : ∀ l ∈ labels, '\\' ∉ escape l.octets) :
    (joinDots (labels.map fun l => escape l.octets)).splitOn '.' =
      labels.map fun l => escape l.octets := by
  rw [joinDots_eq_intercalate, List.splitOn_intercalate]
  · intro part listed dotted
    obtain ⟨label, held, rfl⟩ := List.mem_map.mp listed
    obtain ⟨same, ascii⟩ := escape_plain (unescaped label held)
    rw [same] at dotted
    obtain ⟨c, inside, dot⟩ := List.mem_map.mp dotted
    exact (ascii c inside).2 dot
  · exact fun none => some (List.map_eq_nil_iff.mp none)

theorem splitEscaped_bare (whole : Text) (labels : List Label) (some : labels ≠ []) :
    splitEscaped whole (joinDots (labels.map fun l => escape l.octets)) [] = .ok (labels.map Label.octets) := by
  induction labels with
  | nil => exact absurd rfl some
  | cons label rest ih =>
      cases rest with
      | nil =>
          rw [List.map_singleton, joinDots]
          have read := splitEscaped_escape whole [] [] label.octets
          rw [List.append_nil, List.nil_append] at read
          exact read
      | cons second more =>
          have tail := ih (List.cons_ne_nil second more)
          rw [List.map_cons] at tail
          rw [List.map_cons, List.map_cons, joinDots_cons, splitEscaped_escape, splitEscaped, tail]
          rfl

theorem labelsFromText_bare (labels : List Label) (some : labels ≠ []) :
    labelsFromText (joinDots (labels.map fun l => escape l.octets)) = .ok (labels.map Label.octets) := by
  have last : (labels.map Label.octets).getLast? ≠ Option.some [] := by
    rw [List.getLast?_map]
    intro empty
    obtain ⟨label, -, none⟩ := Option.map_eq_some_iff.mp empty
    have nonempty := label.nonempty
    rw [none] at nonempty
    exact absurd nonempty (by decide)
  rw [labelsFromText, splitEscaped_bare _ labels some]
  change Except.ok (if _ then _ else _) = _
  rw [if_neg fun both => last both.2]

/-- A text without an escape ends with a dot only where that is the root dot. -/
theorem getLast?_unescaped {labels : List Label} (unescaped : ∀ l ∈ labels, '\\' ∉ escape l.octets) :
    (joinDots (labels.map fun l => escape l.octets)).getLast? ≠ some '.' := by
  induction labels with
  | nil => exact fun none => nomatch none
  | cons label rest ih =>
      cases rest with
      | nil =>
          rw [List.map_singleton, joinDots]
          intro dot
          obtain ⟨same, undotted⟩ := escape_plain (unescaped label List.mem_cons_self)
          have held := List.mem_of_getLast? dot
          rw [same] at held
          obtain ⟨c, inside, dotted⟩ := List.mem_map.mp held
          exact (undotted c inside).2 dotted
      | cons second more =>
          rw [List.map_cons, List.map_cons, joinDots_cons, ← List.singleton_append, ← List.append_assoc,
            List.getLast?_append_of_ne_nil]
          · exact ih fun l held => unescaped l (List.mem_cons_of_mem _ held)
          · intro none
            cases more with
            | nil => exact escape_ne_nil second none
            | cons third more =>
                rw [List.map_cons, joinDots_cons] at none
                cases (List.append_eq_nil_iff.mp none).2

theorem escape_ne_dot (label : Label) : escape label.octets ≠ ['.'] := by
  have undotted (c : UInt8) : escapeOctet c ≠ ['.'] := (escapeOctet_spec c).2.2.1
  cases octets : label.octets with
  | nil => exact fun none => nomatch none
  | cons c rest =>
      rw [escape, List.flatMap_cons]
      intro dot
      rcases List.append_eq_singleton_iff.mp dot with ⟨none, -⟩ | ⟨single, -⟩
      · exact escapeOctet_ne_nil c none
      · exact undotted c single

/-- The labels of a name, with the root dot or without it, are read back. -/
theorem fromText_joined {labels : List Label} (some : labels ≠ []) (legal : (⟨labels⟩ : Name).wireLen ≤ maxName)
    {text : Text} (spelled : text = joinDots (labels.map fun l => escape l.octets) ∨
      text = joinDots (labels.map fun l => escape l.octets) ++ ['.']) : fromText text = .ok ⟨labels⟩ := by
  have graphic : ∀ c ∈ text, Graphic c := by
    intro c held
    rcases spelled with rfl | rfl
    · exact graphic_joinDots labels c held
    · rcases List.mem_append.mp held with held | dot
      · exact graphic_joinDots labels c held
      · rw [List.mem_singleton.mp dot]
        decide
  obtain ⟨c, tail, start⟩ : ∃ c tail, joinDots (labels.map fun l => escape l.octets) = c :: tail ∧
      (c :: tail ≠ ['.']) := by
    obtain ⟨label, rest, rfl⟩ := List.exists_cons_of_ne_nil some
    obtain ⟨c, tail, same⟩ := List.exists_cons_of_ne_nil (escape_ne_nil label)
    cases rest with
    | nil =>
        refine ⟨c, tail, same, fun dot => ?_⟩
        rw [dot] at same
        exact escape_ne_dot label same
    | cons second more =>
        refine ⟨c, tail ++ '.' :: joinDots ((second :: more).map fun l => escape l.octets), ?_, ?_⟩
        · rw [List.map_cons, List.map_cons, joinDots_cons, same]
          rfl
        · simp
  have long : ¬(text = ['.'] ∨ text = []) := by
    rcases spelled with rfl | rfl
    · rw [start.1, or_iff_left (List.cons_ne_nil _ _)]
      exact start.2
    · rw [start.1]
      simp
  have short : ¬(⟨labels⟩ : Name).wireLen > maxName := not_lt.mpr legal
  -- both ways of splitting the text give the labels, and these pass every test
  have checked (whole : Text) : (do
      let labels ← (labels.map Label.octets).mapM (checkLabel whole)
      if (⟨labels⟩ : Name).wireLen > maxName then throw WireError.nameTooLong
      pure (⟨labels⟩ : Name)) = Except.ok ⟨labels⟩ := by
    rw [mapM_checkLabel]
    exact if_neg short
  rw [fromText, strip_of_graphic graphic]
  simp only [long, ↓reduceIte]
  by_cases escaped : '\\' ∈ text
  · have parts : labelsFromText text = .ok (labels.map Label.octets) := by
      rcases spelled with rfl | rfl
      · exact labelsFromText_bare labels some
      · exact labelsFromText_text labels some
    simp only [List.contains_iff_mem.mpr escaped, ↓reduceIte, parts]
    exact checked _
  · have unescaped : ∀ l ∈ labels, '\\' ∉ escape l.octets := by
      intro label held inside
      have joined : '\\' ∈ joinDots (labels.map fun l => escape l.octets) :=
        mem_joinDots_of_mem (List.mem_map.mpr ⟨label, held, rfl⟩) inside
      apply escaped
      rcases spelled with rfl | rfl
      · exact joined
      · exact List.mem_append_left _ joined
    have undotted : dropRootDot text = joinDots (labels.map fun l => escape l.octets) := by
      rcases spelled with rfl | rfl
      · rw [dropRootDot, if_neg (getLast?_unescaped unescaped)]
      · rw [dropRootDot, if_pos (by simp), List.dropLast_concat]
    simp only [Bool.eq_false_iff.mpr fun held => escaped (List.contains_iff_mem.mp held),
      Bool.false_eq_true, ↓reduceIte, undotted, splitOn_joinDots labels some unescaped,
      mapM_encodeAscii _ labels unescaped]
    exact checked _

/-- A name within the length limit is what its text denotes. -/
theorem fromText_toText (name : Name) (legal : name.wireLen ≤ maxName) :
    fromText name.toText = .ok name := by
  obtain ⟨labels⟩ := name
  by_cases some : labels = []
  · subst some
    rfl
  · apply fromText_joined some legal
    right
    simp [toText, some]

/-- A name that is not the root is also what its text without the root dot denotes. -/
theorem fromText_omitRoot {name : Name} (legal : name.wireLen ≤ maxName) (below : name.isRoot = false) :
    fromText (name.toText true) = .ok name := by
  obtain ⟨labels⟩ := name
  have some : labels ≠ [] := by
    rintro rfl
    cases below
  exact fromText_joined some legal (.inl rfl)

theorem wireLen_of_checked {parts : Except WireError (List Octets)} {whole : Text} {name : Name}
    (checked : (do
      let labels ← (← parts).mapM (checkLabel whole)
      if (⟨labels⟩ : Name).wireLen > maxName then throw WireError.nameTooLong
      return (⟨labels⟩ : Name)) = Except.ok name) : name.wireLen ≤ maxName := by
  cases parts with
  | error e => cases checked
  | ok parts =>
      change (do
        let labels ← parts.mapM (checkLabel whole)
        if (⟨labels⟩ : Name).wireLen > maxName then throw WireError.nameTooLong
        return (⟨labels⟩ : Name)) = Except.ok name at checked
      cases read : parts.mapM (checkLabel whole) with
      | error e =>
          rw [read] at checked
          cases checked
      | ok labels =>
          rw [read] at checked
          change (if _ then _ else _) = _ at checked
          split at checked
          · cases checked
          · next short =>
              cases checked
              exact not_lt.mp short

/-- A text that denotes a name denotes one within the length limit. -/
theorem wireLen_of_fromText {s : Text} {name : Name} (denotes : fromText s = .ok name) :
    name.wireLen ≤ maxName := by
  rw [fromText] at denotes
  split at denotes
  · cases denotes
    decide
  · dsimp only at denotes
    split at denotes
    · exact wireLen_of_checked denotes
    · exact wireLen_of_checked denotes

/-- Lowering is the identity on the text of a lowered name. -/
theorem fromText_lowerText (name : Name) (legal : name.wireLen ≤ maxName) :
    fromText (lowerText name.toText) = .ok name.canonicalize := by
  rw [lowerText_toText]
  apply fromText_toText
  rwa [wireLen_of_lower (lower_canonicalize name)]

theorem lowerText_idem (name : Name) :
    lowerText name.canonicalize.toText = lowerText name.toText := by
  rw [lowerText_toText, lowerText_toText, canonicalize, lower_canonicalize, canonicalize]

/-- Names and their texts: a name within the limits comes back from either of its texts letter by letter, and
a text is refused or denotes a name within the limits. -/
theorem text_roundTrips :
    (∀ name : Name, name.wireLen ≤ maxName → fromText name.toText = .ok name ∧
      (name.isRoot = false → fromText (name.toText true) = .ok name)) ∧
    ∀ s : Text, (∃ e, fromText s = .error e) ∨ ∃ name, fromText s = .ok name ∧ name.wireLen ≤ maxName ∧
      ∀ label ∈ name.labels, 1 ≤ label.octets.length ∧ label.octets.length ≤ maxLabel := by
  refine ⟨fun name legal => ⟨fromText_toText name legal, fromText_omitRoot legal⟩, fun s => ?_⟩
  cases denotes : fromText s with
  | error e => exact .inl ⟨e, rfl⟩
  | ok name =>
      refine .inr ⟨name, rfl, wireLen_of_fromText denotes, ?_⟩
      exact fun label _ => ⟨label.nonempty, label.bounded⟩

/-- Labels with dots, a backslash, blanks and octets that are no characters. -/
def awkward : Name :=
  ⟨[⟨[0x2E, 0x41, 0x2E], by decide, by decide⟩, ⟨[0x20, 0x5C, 0x31, 0x00, 0x39], by decide, by decide⟩,
    ⟨[0xFF, 0x20], by decide, by decide⟩]⟩

theorem text_roundTrips_awkward :
    fromText awkward.toText = .ok awkward ∧ fromText (awkward.toText true) = .ok awkward := by
  have both := text_roundTrips.1 awkward (by decide)
  exact ⟨both.1, both.2 rfl⟩

end Trench.Wire.Name
