import Mathlib
import Trench.Wire.NameText

set_option autoImplicit false

/- A label may be spelled in many ways: an octet as its character, with a backslash before it,
or by its number. All of them are read as the label. -/
namespace Trench.Wire

namespace Name

/-- The text spells the octets. -/
inductive Spells : Text → Octets → Prop
  | nil : Spells [] []
  | char {c : Char} {t : Text} {octets : Octets} (graphic : Graphic c) (undotted : c ≠ '.') (plain : c ≠ '\\')
      (rest : Spells t octets) : Spells (c :: t) (UInt8.ofNat c.toNat :: octets)
  | escaped {c : Char} {t : Text} {octets : Octets} (ascii : c.toNat < 128) (mark : isDigit c = false)
      (rest : Spells t octets) : Spells ('\\' :: c :: t) (UInt8.ofNat c.toNat :: octets)
  | decimal {a b c : Char} {t : Text} {octets : Octets}
      (digits : isDigit a = true ∧ isDigit b = true ∧ isDigit c = true) (small : digitsValue a b c ≤ 0xFF)
      (rest : Spells t octets) : Spells ('\\' :: a :: b :: c :: t) (UInt8.ofNat (digitsValue a b c) :: octets)

theorem Spells.append {t t' : Text} {octets octets' : Octets} (first : Spells t octets)
    (second : Spells t' octets') : Spells (t ++ t') (octets ++ octets') := by
  induction first with
  | nil => exact second
  | char graphic undotted plain _ ih => exact .char graphic undotted plain ih
  | escaped ascii mark _ ih => exact .escaped ascii mark ih
  | decimal digits small _ ih => exact .decimal digits small ih

theorem spells_escapeOctet (c : UInt8) : Spells (escapeOctet c) [c] := by
  have bound := c.toNat_lt
  rw [escapeOctet]
  split
  · next special => rcases special with rfl | rfl <;> exact .escaped (by decide) rfl .nil
  · next special =>
      split
      · next printed =>
          have low : 0x21 ≤ c.toNat := printed.1
          have high : c.toNat ≤ 0x7E := printed.2
          have value : (Char.ofNat c.toNat).toNat = c.toNat := by
            rw [Char.toNat_ofNat, if_pos (.inl (by omega))]
          have number {d : UInt8} (same : Char.ofNat c.toNat = Char.ofNat d.toNat)
              (small : (Char.ofNat d.toNat).toNat = d.toNat) : c = d :=
            UInt8.toNat_inj.mp (value.symm.trans ((congrArg Char.toNat same).trans small))
          have spelled := Spells.char (c := Char.ofNat c.toNat) ⟨by omega, by omega⟩
            (fun dot => special (.inl (number dot rfl))) (fun slash => special (.inr (number slash rfl))) .nil
          rwa [value, UInt8.ofNat_toNat] at spelled
      · have hundreds : c.toNat / 100 < 10 := by omega
        have tens : c.toNat / 10 % 10 < 10 := by omega
        have units : c.toNat % 10 < 10 := by omega
        have digits : digitsValue (Nat.digitChar (c.toNat / 100)) (Nat.digitChar (c.toNat / 10 % 10))
            (Nat.digitChar (c.toNat % 10)) = c.toNat := by
          rw [digitsValue, toNat_digitChar _ hundreds, toNat_digitChar _ tens, toNat_digitChar _ units]
          omega
        have spelled := Spells.decimal ⟨isDigit_digitChar _ hundreds, isDigit_digitChar _ tens,
          isDigit_digitChar _ units⟩ (digits.trans_le (by omega)) .nil
        rwa [digits, UInt8.ofNat_toNat] at spelled

theorem spells_escape (octets : Octets) : Spells (escape octets) octets := by
  induction octets with
  | nil => exact .nil
  | cons c more ih =>
      rw [escape, List.flatMap_cons]
      exact (spells_escapeOctet c).append ih

/-- A spelled label is unescaped to its octets, whatever follows. -/
theorem splitEscaped_spelled {t : Text} {octets : Octets} (spelled : Spells t octets) (whole rest : Text)
    (cur : Octets) : splitEscaped whole (t ++ rest) cur = splitEscaped whole rest (cur ++ octets) := by
  induction spelled generalizing cur with
  | nil => simp
  | @char c t octets graphic undotted plain _ ih =>
      have small : ¬ c.toNat > 0xFF := by
        have high := graphic.2
        omega
      rw [List.cons_append, splitEscaped, if_neg small, ih, List.append_assoc]
      · rfl
      · exact undotted
      · exact fun bad => absurd bad plain
      · exact fun a tail bad => absurd bad plain
  | @escaped c t octets ascii mark _ ih =>
      have small : ¬ c.toNat > 0xFF := by omega
      have step : splitEscaped whole ('\\' :: c :: (t ++ rest)) cur =
          splitEscaped whole (t ++ rest) (cur ++ [UInt8.ofNat c.toNat]) := by
        rcases t ++ rest with _ | ⟨b, _ | ⟨d, more⟩⟩
        · simp [splitEscaped, small]
        · simp [splitEscaped, small]
        · simp only [splitEscaped, mark, Bool.false_and, Bool.false_eq_true, ↓reduceIte, small]
      rw [List.cons_append, List.cons_append, step, ih, List.append_assoc]
      rfl
  | @decimal a b c t octets digits small _ ih =>
      have step : splitEscaped whole ('\\' :: a :: b :: c :: (t ++ rest)) cur =
          splitEscaped whole (t ++ rest) (cur ++ [UInt8.ofNat (digitsValue a b c)]) := by
        rw [splitEscaped]
        simp only [digits, Bool.and_self, ↓reduceIte]
        rw [if_neg (not_lt.mpr small)]
      simp only [List.cons_append]
      rw [step, ih, List.append_assoc]
      rfl

/-- A text without an escape is the octets' own. -/
theorem Spells.eq_escape {t : Text} {octets : Octets} (spelled : Spells t octets) (unescaped : '\\' ∉ t) :
    t = escape octets := by
  induction spelled with
  | nil => rfl
  | @char c t octets graphic undotted plain _ ih =>
      rw [escape, List.flatMap_cons, ← escape, ← ih fun held => unescaped (List.mem_cons_of_mem _ held)]
      obtain ⟨low, high⟩ := graphic
      have back : (UInt8.ofNat c.toNat).toNat = c.toNat := by
        rw [UInt8.toNat_ofNat', Nat.mod_eq_of_lt (by omega)]
      have same : Char.ofNat (UInt8.ofNat c.toNat).toNat = c := by rw [back, Char.ofNat_toNat]
      have apart {d : Char} {n : UInt8} (differ : c ≠ d) (number : n.toNat = d.toNat) : UInt8.ofNat c.toNat ≠ n := by
        rintro rfl
        exact differ (Char.toNat_inj.mp (back.symm.trans number))
      rw [escapeOctet, if_neg (not_or.mpr ⟨apart undotted rfl, apart plain rfl⟩), if_pos, same]
      · rfl
      · rw [UInt8.le_iff_toNat_le, UInt8.le_iff_toNat_le, back]
        exact ⟨low, high⟩
  | escaped _ _ _ _ => exact absurd List.mem_cons_self unescaped
  | decimal _ _ _ _ => exact absurd List.mem_cons_self unescaped

/-- The parts spell the labels, one by one. -/
def SpellsAll (parts : List Text) (labels : List Label) : Prop :=
  List.Forall₂ (fun t (l : Label) => Spells t l.octets) parts labels

theorem Spells.ne_nil {t : Text} {label : Label} (spelled : Spells t label.octets) : t ≠ [] := by
  rintro rfl
  have filled := label.nonempty
  generalize label.octets = octets at spelled filled
  cases spelled
  exact absurd filled (by decide)

theorem spellsAll_escape (labels : List Label) : SpellsAll (labels.map fun l => escape l.octets) labels := by
  induction labels with
  | nil => exact .nil
  | cons label rest ih => exact .cons (spells_escape label.octets) ih

theorem joinDots_append {parts more : List Text} (some : parts ≠ []) (others : more ≠ []) :
    joinDots (parts ++ more) = joinDots parts ++ '.' :: joinDots more := by
  induction parts with
  | nil => exact absurd rfl some
  | cons part rest ih =>
      cases rest with
      | nil =>
          obtain ⟨second, tail, rfl⟩ := List.exists_cons_of_ne_nil others
          rw [List.singleton_append, joinDots_cons, joinDots]
      | cons second tail =>
          rw [List.cons_append, List.cons_append, joinDots_cons, joinDots_cons, List.append_assoc, List.cons_append]
          exact congrArg (fun t => part ++ '.' :: t) (ih (List.cons_ne_nil _ _))

theorem splitEscaped_parts {parts : List Text} {labels : List Label} (spelled : SpellsAll parts labels)
    (some : parts ≠ []) (whole : Text) :
    splitEscaped whole (joinDots parts) [] = .ok (labels.map Label.octets) ∧
      splitEscaped whole (joinDots parts ++ ['.']) [] = .ok (labels.map Label.octets ++ [[]]) := by
  induction spelled with
  | nil => exact absurd rfl some
  | @cons part label rest labels here others ih =>
      cases others with
      | nil =>
          have bare := splitEscaped_spelled here whole [] []
          have dotted := splitEscaped_spelled here whole ['.'] []
          rw [List.append_nil] at bare
          exact ⟨bare, dotted⟩
      | @cons second label' more labels' there rest =>
          obtain ⟨bare, dotted⟩ := ih (List.cons_ne_nil _ _)
          rw [joinDots_cons, List.append_assoc, splitEscaped_spelled here, splitEscaped_spelled here, List.cons_append,
            splitEscaped, splitEscaped, bare, dotted]
          exact ⟨rfl, rfl⟩

theorem labelsFromText_spelled {parts : List Text} {labels : List Label} (spelled : SpellsAll parts labels)
    (some : parts ≠ []) {text : Text} (written : text = joinDots parts ∨ text = joinDots parts ++ ['.']) :
    labelsFromText text = .ok (labels.map Label.octets) := by
  obtain ⟨bare, dotted⟩ := splitEscaped_parts spelled some text
  have filled : labels ≠ [] := by
    rintro rfl
    cases spelled
    exact some rfl
  rw [labelsFromText]
  rcases written with rfl | rfl
  · have last : (labels.map Label.octets).getLast? ≠ Option.some [] := by
      rw [List.getLast?_map]
      intro empty
      obtain ⟨label, -, none⟩ := Option.map_eq_some_iff.mp empty
      have nonempty := label.nonempty
      rw [none] at nonempty
      exact absurd nonempty (by decide)
    rw [bare]
    change Except.ok (if _ then _ else _) = _
    rw [if_neg fun both => last both.2]
  · have several : 1 < (labels.map Label.octets ++ [[]]).length := by
      have := List.length_pos_iff.mpr filled
      rw [List.length_append, List.length_map, List.length_singleton]
      omega
    rw [dotted]
    change Except.ok (if _ then _ else _) = _
    rw [if_pos ⟨several, by simp⟩, List.dropLast_concat]

theorem eq_escape_of_parts {parts : List Text} {labels : List Label} (spelled : SpellsAll parts labels)
    (unescaped : ∀ t ∈ parts, '\\' ∉ t) : parts = labels.map fun l => escape l.octets := by
  induction spelled with
  | nil => rfl
  | cons here _ ih =>
      obtain ⟨first, others⟩ := List.forall_mem_cons.mp unescaped
      rw [List.map_cons, ← here.eq_escape first, ih others]

theorem strip_of_visible {s : Text} (visible : ∀ c ∈ s, isSpace c = false) : strip s = s := by
  have kept {t : Text} (within : ∀ c ∈ t, c ∈ s) : t.dropWhile isSpace = t := by
    cases t with
    | nil => rfl
    | cons c t =>
        have here := visible c (within c List.mem_cons_self)
        exact List.dropWhile_cons_of_neg (by rw [here]; exact Bool.false_ne_true)
  rw [strip, kept fun c held => held, kept fun c held => List.mem_reverse.mp held, List.reverse_reverse]

/-- The labels of a name in any spelling without blanks are read back. -/
theorem fromText_spelled {parts : List Text} {labels : List Label} (spelled : SpellsAll parts labels)
    (some : parts ≠ []) (legal : (⟨labels⟩ : Name).wireLen ≤ maxName) {text : Text}
    (visible : ∀ c ∈ text, isSpace c = false) (written : text = joinDots parts ∨ text = joinDots parts ++ ['.']) :
    fromText text = .ok ⟨labels⟩ := by
  have filled : labels ≠ [] := by
    rintro rfl
    cases spelled
    exact some rfl
  by_cases escaped : '\\' ∈ text
  · have long : ¬ (text = ['.'] ∨ text = []) := by
      rintro (rfl | rfl)
      · exact absurd escaped (by decide)
      · exact absurd escaped (by decide)
    rw [fromText, strip_of_visible visible]
    simp only [long, ↓reduceIte, List.contains_iff_mem.mpr escaped, labelsFromText_spelled spelled some written]
    change (do
      let labels ← (labels.map Label.octets).mapM (checkLabel text)
      if (⟨labels⟩ : Name).wireLen > maxName then throw WireError.nameTooLong
      pure (⟨labels⟩ : Name)) = Except.ok ⟨labels⟩
    rw [mapM_checkLabel]
    exact if_neg (not_lt.mpr legal)
  · have same : parts = labels.map fun l => escape l.octets := by
      refine eq_escape_of_parts spelled fun t listed held => escaped ?_
      have joined := mem_joinDots_of_mem listed held
      rcases written with rfl | rfl
      · exact joined
      · exact List.mem_append_left _ joined
    rw [same] at written
    exact fromText_joined filled legal written

end Name

end Trench.Wire
