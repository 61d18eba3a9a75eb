import Mathlib
import Trench.Lib.Fields
import Trench.Wire.NameText
import Trench.Wire.RdataText

set_option autoImplicit false

/- The pieces of a record's text: each tells its value, and most hold no blank, so
that a text can be cut into its pieces again. -/
namespace Trench.Wire.Rdata

open Dnssec (b32encode base32Digits base32Alphabet)
open Fields (first_inj last_inj)

/-! ### Pieces without blanks -/

theorem decimal_inj {v w : Int} (same : decimal v = decimal w) : v = w :=
  Int.repr_injective (String.toList_injective same)

theorem isDigit_of_mem_toString {n : Nat} {c : Char} (held : c ∈ (toString n).toList) :
    Name.isDigit c = true := by
  have digit : c ∈ Nat.toDigits 10 n := by
    simpa [Nat.repr] using held
  have range := Nat.isDigit_of_mem_toDigits (by decide) (by decide) digit
  rw [Char.isDigit, Bool.and_eq_true, decide_eq_true_eq, decide_eq_true_eq] at range
  rw [Name.isDigit, Bool.and_eq_true, decide_eq_true_eq, decide_eq_true_eq]
  exact range

theorem mem_decimal {v : Int} {c : Char} (held : c ∈ decimal v) :
    c = '-' ∨ Name.isDigit c = true := by
  cases v with
  | ofNat n => exact .inr (isDigit_of_mem_toString (n := n) held)
  | negSucc n =>
      have signed : decimal (Int.negSucc n) = '-' :: (toString (n + 1)).toList := by
        simp [decimal, toString, Int.repr]
      rw [signed] at held
      exact (List.mem_cons.mp held).imp id isDigit_of_mem_toString

@[simp] theorem blank_notMem_decimal (v : Int) : ' ' ∉ decimal v := fun held =>
  absurd (mem_decimal held) (by decide)

@[simp] theorem blank_notMem_name (name : Name) : ' ' ∉ name.toText := by
  intro held
  have graphic : ∀ c ∈ name.toText, Name.Graphic c := by
    simp only [Name.toText, Bool.false_eq_true, ↓reduceIte]
    split
    · intro c dot
      rw [List.mem_singleton.mp dot]
      decide
    · intro c held
      rcases List.mem_append.mp held with held | dot
      · exact Name.graphic_joinDots name.labels c held
      · rw [List.mem_singleton.mp dot]
        decide
  exact absurd (graphic ' ' held) (by decide)

/-- The mnemonics hold no blank, differ, and do not read like the name of a type without one. -/
theorem typeText_spec : (∀ entry ∈ RRType.typeText, ' ' ∉ entry.2.toList ∧ ¬ "TYPE".toList <+: entry.2.toList) ∧
    ∀ first ∈ RRType.typeText, ∀ second ∈ RRType.typeText,
      first.2.toList = second.2.toList → first.1 = second.1 := by decide +kernel

theorem typeText_lookup {t : RRType} {text : String}
    (found : RRType.typeText.lookup t = some text) : (t, text) ∈ RRType.typeText := by
  obtain ⟨front, back, split, -⟩ := List.lookup_eq_some_iff.mp found
  rw [split]
  exact List.mem_append_right _ List.mem_cons_self

@[simp] theorem blank_notMem_type (t : RRType) : ' ' ∉ RRType.toText t := by
  rw [RRType.toText]
  split
  · next text found => exact (typeText_spec.1 _ (typeText_lookup found)).1
  · intro held
    rcases List.mem_append.mp held with held | held
    · exact absurd held (by decide)
    · exact absurd (isDigit_of_mem_toString held) (by decide)

theorem typeToText_inj {t u : RRType} (same : RRType.toText t = RRType.toText u) : t = u := by
  rw [RRType.toText, RRType.toText] at same
  split at same
  · next text found =>
      split at same
      · next other known => exact typeText_spec.2 _ (typeText_lookup found) _ (typeText_lookup known) same
      · exact absurd ⟨_, same.symm⟩ (typeText_spec.1 _ (typeText_lookup found)).2
  · split at same
    · next other known => exact absurd ⟨_, same⟩ (typeText_spec.1 _ (typeText_lookup known)).2
    · have numbers : toString t.toNat = toString u.toNat :=
        String.toList_injective (List.append_cancel_left same)
      exact UInt16.toNat_inj.mp (Nat.repr_injective numbers)

/-! ### Octets -/

theorem digitChar_inj {a b : Nat} (left : a < 16) (right : b < 16)
    (same : Nat.digitChar a = Nat.digitChar b) : a = b := by
  have values := hexValue_digitChar a left
  rw [same, hexValue_digitChar b right] at values
  exact (Option.some.inj values).symm

theorem hex_cons (c : UInt8) (s : Octets) :
    hex (c :: s) = Nat.digitChar (c.toNat / 16) :: Nat.digitChar (c.toNat % 16) :: hex s := rfl

theorem hex_inj {s t : Octets} (same : hex s = hex t) : s = t := by
  induction s generalizing t with
  | nil =>
      cases t with
      | nil => rfl
      | cons d t => cases same
  | cons c s ih =>
      cases t with
      | nil => cases same
      | cons d t =>
          rw [hex_cons, hex_cons, List.cons.injEq, List.cons.injEq] at same
          obtain ⟨high, low, rest⟩ := same
          have left := c.toNat_lt
          have right := d.toNat_lt
          have quotients := digitChar_inj (by omega) (by omega) high
          have remainders := digitChar_inj (by omega) (by omega) low
          have equal : c = d := UInt8.toNat_inj.mp (by omega)
          rw [equal, ih rest]

theorem mem_hex {s : Octets} {ch : Char} (held : ch ∈ hex s) : ∃ d < 16, ch = Nat.digitChar d := by
  obtain ⟨c, -, inside⟩ := List.mem_flatMap.mp held
  have bound := c.toNat_lt
  rcases List.mem_cons.mp inside with rfl | inside
  · exact ⟨_, by omega, rfl⟩
  · rw [List.mem_singleton.mp inside]
    exact ⟨_, Nat.mod_lt _ (by decide), rfl⟩

theorem digitChar_plain : ∀ d < 16, Nat.digitChar d ≠ ' ' ∧ (Nat.digitChar d).toUpper ≠ ' ' ∧
    (Nat.digitChar d).toUpper ≠ '-' ∧ (Nat.digitChar d).toUpper.toLower = Nat.digitChar d := by
  decide

@[simp] theorem blank_notMem_hex (s : Octets) : ' ' ∉ hex s := by
  intro held
  obtain ⟨d, small, same⟩ := mem_hex held
  exact (digitChar_plain d small).1 same.symm

@[simp] theorem blank_notMem_upper (s : Octets) : ' ' ∉ (hex s).map Char.toUpper := by
  intro held
  obtain ⟨ch, inside, same⟩ := List.mem_map.mp held
  obtain ⟨d, small, rfl⟩ := mem_hex inside
  exact (digitChar_plain d small).2.1 same

theorem upper_inj {s t : Octets} (same : (hex s).map Char.toUpper = (hex t).map Char.toUpper) :
    s = t := by
  have back (s : Octets) : ((hex s).map Char.toUpper).map Char.toLower = hex s := by
    rw [List.map_map]
    refine (List.map_congr_left fun ch held => ?_).trans (List.map_id _)
    obtain ⟨d, small, rfl⟩ := mem_hex held
    exact (digitChar_plain d small).2.2.2
  apply hex_inj
  rw [← back s, ← back t, same]

@[simp] theorem blank_notMem_salt (salt : Octets) : ' ' ∉ saltText salt := by
  rw [saltText]
  split
  · decide
  · exact blank_notMem_upper salt

theorem salt_inj {s t : Octets} (same : saltText s = saltText t) : s = t := by
  have dash (s : Octets) : ['-'] ≠ (hex s).map Char.toUpper := by
    intro bad
    have held : '-' ∈ (hex s).map Char.toUpper := by
      rw [← bad]
      exact List.mem_cons_self
    obtain ⟨ch, inside, same⟩ := List.mem_map.mp held
    obtain ⟨d, small, rfl⟩ := mem_hex inside
    exact (digitChar_plain d small).2.2.1 same
  rw [saltText, saltText] at same
  split at same
  · next left =>
      split at same
      · next right => rw [left, right]
      · exact absurd same (dash t)
  · split at same
    · exact absurd same.symm (dash s)
    · exact upper_inj same

theorem octet_back (c : UInt8) : UInt8.ofNat (Char.ofNat c.toNat).toNat = c := by
  have small := c.toNat_lt
  rw [Char.toNat_ofNat, if_pos (.inl (by omega)), UInt8.ofNat_toNat]

theorem latin1_inj {s t : Octets} (same : latin1 s = latin1 t) : s = t := by
  have back (s : Octets) : (latin1 s).map (fun ch => UInt8.ofNat ch.toNat) = s := by
    rw [latin1, List.map_map]
    exact (List.map_congr_left fun c _ => octet_back c).trans (List.map_id _)
  rw [← back s, ← back t, same]

theorem latin1_append (s t : Octets) : latin1 (s ++ t) = latin1 s ++ latin1 t := List.map_append

/-! ### Digits of base 64 and base 32 -/

theorem octet_digits (s : Octets) : ∀ d ∈ s.map UInt8.toNat, d < 2 ^ 8 := by
  intro d held
  obtain ⟨c, -, rfl⟩ := List.mem_map.mp held
  exact c.toNat_lt

theorem octet_digits_inj {s t : Octets} (same : s.map UInt8.toNat = t.map UInt8.toNat) : s = t :=
  List.map_injective_iff.mpr (fun _ _ equal => UInt8.toNat_inj.mp equal) same

theorem base64Digits_eq (s : Octets) : base64Digits s = Digits.regroup 8 6 (s.map UInt8.toNat) := by
  simp only [base64Digits, Digits.regroup, List.length_map]
  rfl

theorem base32Digits_eq (s : Octets) : base32Digits s = Digits.regroup 8 5 (s.map UInt8.toNat) := by
  simp only [base32Digits, Digits.regroup, List.length_map]
  rfl

/-- Digits that an alphabet spells can be read from their letters. -/
theorem spelled_inj {alphabet : Text} {size : Nat}
    (back : ∀ d < size, alphabet.idxOf (alphabet.getD d 'A') = d) {xs ys : List Nat}
    (left : ∀ d ∈ xs, d < size) (right : ∀ d ∈ ys, d < size)
    (same : xs.map (fun d => alphabet.getD d 'A') = ys.map (fun d => alphabet.getD d 'A')) :
    xs = ys := by
  have read (zs : List Nat) (small : ∀ d ∈ zs, d < size) :
      (zs.map fun d => alphabet.getD d 'A').map alphabet.idxOf = zs := by
    rw [List.map_map]
    exact (List.map_congr_left fun d held => back d (small d held)).trans (List.map_id _)
  rw [← read xs left, ← read ys right, same]

theorem letters_spec : (∀ d < 64, base64Alphabet.idxOf (base64Alphabet.getD d 'A') = d ∧
      base64Alphabet.getD d 'A' ≠ '=' ∧ base64Alphabet.getD d 'A' ≠ ' ') ∧
    ∀ d < 32, base32Alphabet.idxOf (base32Alphabet.getD d 'A') = d ∧
      base32Alphabet.getD d 'A' ≠ ' ' := by decide +kernel

theorem base64Digits_lt (s : Octets) : ∀ d ∈ base64Digits s, d < 64 := by
  rw [base64Digits_eq]
  exact Digits.regroup_lt (by decide) _ (octet_digits s)

theorem base32Digits_small (s : Octets) : ∀ d ∈ base32Digits s, d < 32 := by
  rw [base32Digits_eq]
  exact Digits.regroup_lt (by decide) _ (octet_digits s)

theorem b64encode_inj {s t : Octets} (same : b64encode s = b64encode t) : s = t := by
  -- without the padding the digits are left, and their number is the number of octets
  have unpadded (s : Octets) : (b64encode s).filter (· ≠ '=') =
      (base64Digits s).map fun d => base64Alphabet.getD d 'A' := by
    rw [b64encode, List.filter_append, List.filter_eq_self.mpr, List.filter_eq_nil_iff.mpr,
      List.append_nil]
    · intro ch held
      rw [(List.mem_replicate.mp held).2]
      decide
    · intro ch held
      obtain ⟨d, inside, rfl⟩ := List.mem_map.mp held
      exact decide_eq_true (letters_spec.1 d (base64Digits_lt s d inside)).2.1
  have letters := unpadded s
  rw [same, unpadded t] at letters
  have digits := spelled_inj (fun d small => (letters_spec.1 d small).1) (base64Digits_lt t)
    (base64Digits_lt s) letters
  rw [base64Digits_eq, base64Digits_eq] at digits
  exact (octet_digits_inj (Digits.regroup_inj (by decide) (by decide) (octet_digits t)
    (octet_digits s) digits)).symm

theorem b32encode_inj {s t : Octets} (same : b32encode s = b32encode t) : s = t := by
  have digits := spelled_inj (fun d small => (letters_spec.2 d small).1) (base32Digits_small s)
    (base32Digits_small t) same
  rw [base32Digits_eq, base32Digits_eq] at digits
  exact octet_digits_inj (Digits.regroup_inj (by decide) (by decide) (octet_digits s)
    (octet_digits t) digits)

@[simp] theorem blank_notMem_b64 (s : Octets) : ' ' ∉ b64encode s := by
  intro held
  rcases List.mem_append.mp held with held | held
  · obtain ⟨d, inside, same⟩ := List.mem_map.mp held
    exact (letters_spec.1 d (base64Digits_lt s d inside)).2.2 same
  · exact absurd (List.mem_replicate.mp held).2 (by decide)

@[simp] theorem blank_notMem_b32 (s : Octets) : ' ' ∉ b32encode s := by
  intro held
  obtain ⟨d, inside, same⟩ := List.mem_map.mp held
  exact (letters_spec.2 d (base32Digits_small s d inside)).2 same

/-! ### Pieces tell their values -/

@[simp] theorem decimal_eq_iff {v w : Int} : decimal v = decimal w ↔ v = w :=
  ⟨decimal_inj, congrArg _⟩

@[simp] theorem name_eq_iff {a b : Name} : a.toText = b.toText ↔ a = b :=
  ⟨Name.toText_inj, congrArg (Name.toText ·)⟩

@[simp] theorem typeToText_eq_iff {t u : RRType} : RRType.toText t = RRType.toText u ↔ t = u :=
  ⟨typeToText_inj, congrArg _⟩

@[simp] theorem hex_eq_iff {s t : Octets} : hex s = hex t ↔ s = t := ⟨hex_inj, congrArg _⟩

@[simp] theorem upper_eq_iff {s t : Octets} :
    (hex s).map Char.toUpper = (hex t).map Char.toUpper ↔ s = t :=
  ⟨upper_inj, congrArg fun s => (hex s).map Char.toUpper⟩

@[simp] theorem salt_eq_iff {s t : Octets} : saltText s = saltText t ↔ s = t :=
  ⟨salt_inj, congrArg _⟩

@[simp] theorem b64encode_eq_iff {s t : Octets} : b64encode s = b64encode t ↔ s = t :=
  ⟨b64encode_inj, congrArg _⟩

@[simp] theorem b32encode_eq_iff {s t : Octets} : b32encode s = b32encode t ↔ s = t :=
  ⟨b32encode_inj, congrArg _⟩

/-! ### Pieces between blanks -/

theorem joinSpaces_cons (part second : Text) (more : List Text) :
    joinSpaces (part :: second :: more) = part ++ ' ' :: joinSpaces (second :: more) := rfl

/-- The first piece of a text. -/
theorem joinSpaces_head {part other second next : Text} {more rest : List Text}
    (left : ' ' ∉ part) (right : ' ' ∉ other)
    (same : joinSpaces (part :: second :: more) = joinSpaces (other :: next :: rest)) :
    part = other ∧ joinSpaces (second :: more) = joinSpaces (next :: rest) :=
  first_inj left right same

theorem joinSpaces_inj {parts others : List Text} (count : parts.length = others.length)
    (left : ∀ part ∈ parts, ' ' ∉ part) (right : ∀ part ∈ others, ' ' ∉ part)
    (same : joinSpaces parts = joinSpaces others) : parts = others := by
  induction parts generalizing others with
  | nil =>
      cases others with
      | nil => rfl
      | cons other others => cases count
  | cons part parts ih =>
      cases others with
      | nil => cases count
      | cons other others =>
          have lengths : parts.length = others.length := Nat.succ.inj count
          cases parts with
          | nil =>
              cases others with
              | nil => exact congrArg (· :: []) same
              | cons next rest => cases lengths
          | cons second more =>
              cases others with
              | nil => cases lengths
              | cons next rest =>
                  obtain ⟨heads, tails⟩ := joinSpaces_head (left _ List.mem_cons_self)
                    (right _ List.mem_cons_self) same
                  rw [heads, ih lengths (fun p held => left p (List.mem_cons_of_mem _ held))
                    (fun p held => right p (List.mem_cons_of_mem _ held)) tails]

/-! ### Addresses -/

theorem blank_ne_digitChar (n : Nat) : ' ' ≠ Nat.digitChar n := by
  by_cases small : n < 16
  · exact fun same => (digitChar_plain n small).1 same.symm
  · have other : ∀ k < 16, n ≠ k := fun k below same => small (same ▸ below)
    simp [Nat.digitChar, other]

theorem notMem_intercalate {c sep : Char} {parts : List Text} (apart : c ≠ sep)
    (free : ∀ part ∈ parts, c ∉ part) : c ∉ [sep].intercalate parts := by
  induction parts with
  | nil => exact List.not_mem_nil
  | cons part rest ih =>
      cases rest with
      | nil => simpa using free part List.mem_cons_self
      | cons second more =>
          intro held
          rw [List.intercalate_cons_cons, List.mem_append, List.mem_append,
            List.mem_singleton] at held
          rcases held with (held | held) | held
          · exact free part List.mem_cons_self held
          · exact apart held
          · exact ih (fun p listed => free p (List.mem_cons_of_mem _ listed)) held

theorem blank_notMem_inetNtop4 (octets : Octets) : ' ' ∉ inetNtop4 octets := by
  refine notMem_intercalate (by decide) fun part listed => ?_
  obtain ⟨c, -, rfl⟩ := List.mem_map.mp listed
  simp only [decimalOctet]
  split_ifs <;> simp [blank_ne_digitChar]

theorem blank_notMem_hexGroup (g : Nat) : ' ' ∉ hexGroup g := by
  simp only [hexGroup]
  split_ifs <;> simp [blank_ne_digitChar]

theorem blank_notMem_joinGroups (groups : List Nat) : ' ' ∉ joinGroups groups := by
  refine notMem_intercalate (by decide) fun part listed => ?_
  obtain ⟨g, -, rfl⟩ := List.mem_map.mp listed
  exact blank_notMem_hexGroup g

theorem blank_notMem_inetNtop6 (octets : Octets) : ' ' ∉ inetNtop6 octets := by
  simp only [inetNtop6]
  split
  · exact blank_notMem_joinGroups _
  · split_ifs <;> simp [blank_notMem_joinGroups, blank_notMem_inetNtop4, blank_notMem_hexGroup]

/-! ### Quoted pieces -/

theorem quoted_inj {s t : Text} (same : quoted s = quoted t) : s = t :=
  List.append_cancel_right (List.tail_eq_of_cons_eq same)

theorem txtText_eq (strings : List Octets) :
    txtText strings = Fields.line '"' '\\' ' ' (strings.map latin1) := by
  cases strings with
  | nil => rfl
  | cons s rest =>
      induction rest generalizing s with
      | nil => simp [txtText, joinSpaces, quoted, Fields.line, Fields.further, Fields.escaped,
          escapeQuotes]
      | cons t more ih =>
          have tail := ih t
          rw [txtText, List.map_cons, List.map_cons, joinSpaces_cons]
          rw [txtText, List.map_cons] at tail
          rw [tail]
          simp [quoted, Fields.line, Fields.further, Fields.escaped, escapeQuotes]

/-- Texts are told apart, whatever quotation marks, blanks and backslashes they hold. -/
theorem txtText_inj {strings others : List Octets} (same : txtText strings = txtText others) :
    strings = others := by
  rw [txtText_eq, txtText_eq] at same
  have parts := Fields.line_inj (by decide) (by decide) (by decide) same
  exact List.map_injective_iff.mpr (fun _ _ equal => latin1_inj equal) parts

end Trench.Wire.Rdata
