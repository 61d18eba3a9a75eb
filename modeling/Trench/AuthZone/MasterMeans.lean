import Mathlib
import Trench.AuthZone.MasterLines

set_option autoImplicit false

/- A master file whose layout the passes over it leave alone is loaded as the records that it says. -/
namespace Trench.AuthZone.MasterFile

open Wire
open Wire.Rdata (LegalName)
open Wire.Name (SpellsAll joinDots isSpace)
open Trench.Filter (words startsWith endsWith)
open Zonefile (Kind Loaded Frame qualify quoted stripQuotes isDigits readRdata tokenAt ttlAhead classAhead recordLine
  content joined rstrip code)
open Engine (utf8)

/-! ### Plain fields -/

/-- Nothing in the field divides it. -/
def Undivided (w : Text) : Prop := ∀ c ∈ w, isSpace c = false ∧ c ∉ [';', '(', ')']

/-- A string without escapes, cut nowhere, and with single spaces for blanks. -/
def PlainString (w : Text) : Prop :=
  (∀ c ∈ w, c ∉ [';', '(', ')', '\\'] ∧ (isSpace c = true → c = ' ')) ∧ w.IsChain fun a b => a ≠ ' ' ∨ b ≠ ' '

/-- The field ends with the root dot. -/
def Absolute (w : Text) : Prop :=
  w = ['.'] ∨ ∃ parts labels, SpellsAll parts labels ∧ parts ≠ [] ∧ w = joinDots parts ++ ['.']

/-- A relative name needs an origin that is not the root, and no dot at its end, be it escaped. -/
structure PlainName (org : Name) (w : Text) : Prop where
  undivided : Undivided w
  ends : w = ['@'] ∨ Absolute w ∨ (org = Name.root ↔ w.getLast? = some '.')

/-- The data are made of plain fields; a text is one string. -/
structure PlainData (org : Name) (kind : Kind) (data : List Text) : Prop where
  names : ∀ i ∈ kind.names, ∀ w ∈ data[i]?, PlainName org w
  numbers : ∀ i ∈ kind.numbers, ∀ w ∈ data[i]?, w.length ≤ 4300
  others : match kind with
    | .a | .aaaa => ∀ s ∈ data[0]?, Undivided s
    | .txt => ∃ w, data = [w] ∧ PlainString w
    | .caa => (∀ tag ∈ data[1]?, Undivided tag) ∧ ∀ w ∈ data[2]?, PlainString w
    | _ => True

theorem undivided_of_all {w : Text} (all : (w.all fun c => !isSpace c && decide (c ∉ [';', '(', ')'])) = true) :
    Undivided w := by
  rw [List.all_eq_true] at all
  intro c held
  simpa only [Bool.and_eq_true, Bool.not_eq_true', decide_eq_true_eq] using all c held

theorem visible_of_undivided {w : Text} (undivided : Undivided w) : ∀ c ∈ w, isSpace c = false :=
  fun c held => (undivided c held).1

theorem endsWith_iff (s : Text) (c : Char) : endsWith s [c] = true ↔ s.getLast? = some c := by
  rw [endsWith, List.isSuffixOf_iff_suffix]
  constructor
  · rintro ⟨front, rfl⟩
    exact List.getLast?_concat
  · intro last
    exact ⟨s.dropLast, List.dropLast_append_getLast? c last⟩

/-- A text that spells labels does not end with the root dot. -/
theorem not_absolute {parts : List Text} {labels : List Label} (spelled : SpellsAll parts labels)
    (some : parts ≠ []) : ¬ Absolute (joinDots parts) := by
  have bare := (Name.splitEscaped_parts spelled some (joinDots parts)).1
  have filled : ∀ octets ∈ labels.map Label.octets, octets ≠ [] := by
    intro octets held
    obtain ⟨label, -, rfl⟩ := List.mem_map.mp held
    exact List.length_pos_iff.mp label.nonempty
  rintro (dot | ⟨parts', labels', spelled', some', same⟩)
  · rw [dot] at bare
    have read : Name.splitEscaped ['.'] ['.'] [] = .ok [[], []] := rfl
    rw [read] at bare
    exact filled [] (by rw [← Except.ok.inj bare]; exact List.mem_cons_self) rfl
  · have dotted := (Name.splitEscaped_parts spelled' some' (joinDots parts)).2
    rw [← same, bare] at dotted
    exact filled [] (by rw [Except.ok.inj dotted]; simp) rfl

theorem joinDots_ne_at {parts : List Text} (some : parts ≠ []) (free : parts ≠ [['@']]) : joinDots parts ≠ ['@'] := by
  rcases parts with _ | ⟨part, _ | ⟨second, more⟩⟩
  · exact absurd rfl some
  · intro same
    exact free (congrArg (fun t => [t]) same)
  · intro same
    have dotted : '.' ∈ joinDots (part :: second :: more) := by
      rw [Name.joinDots_cons]
      exact List.mem_append_right _ List.mem_cons_self
    rw [same] at dotted
    exact absurd dotted (by decide)

theorem visible_toText (name : Name) : ∀ c ∈ name.toText, isSpace c = false := by
  intro c held
  rw [Name.toText] at held
  split at held
  · next bare => exact absurd bare Bool.false_ne_true
  · split at held
    · rw [List.mem_singleton.mp held]
      rfl
    · rcases List.mem_append.mp held with held | held
      · exact Name.not_isSpace_of_graphic (Name.graphic_joinDots name.labels c held)
      · rw [List.mem_singleton.mp held]
        rfl

/-- A plain name is read as the name that it stands for. -/
theorem qualify_of_plain {org name : Name} {w : Text} (field : NameField org w name) (plain : PlainName org w) :
    qualify w org = .ok name := by
  have visible := visible_of_undivided plain.undivided
  cases field with
  | free => rfl
  | root => rfl
  | @absolute parts labels spelled some legal =>
      have last : (joinDots parts ++ ['.']).getLast? = Option.some '.' := List.getLast?_concat
      have other : joinDots parts ++ ['.'] ≠ ['@'] := by
        intro same
        rw [same] at last
        exact absurd last (by decide)
      rw [qualify, if_neg other, if_pos ((endsWith_iff _ _).mpr last)]
      exact Name.fromText_spelled spelled some legal visible (.inr rfl)
  | @relative parts labels spelled some free legal =>
      have other := joinDots_ne_at some free
      have ends := (plain.ends.resolve_left other).resolve_left (not_absolute spelled some)
      rw [qualify, if_neg other]
      by_cases top : org = Name.root
      · subst top
        rw [if_pos ((endsWith_iff _ _).mpr (ends.mp rfl))]
        have read := Name.fromText_spelled spelled some
          (show (⟨labels⟩ : Name).wireLen ≤ maxName by simpa [LegalName, Name.root] using legal) visible (.inl rfl)
        simpa [Name.root] using read
      · have below : org.labels ≠ [] := fun none => top (congrArg Name.mk none)
        rw [if_neg fun dot => top (ends.mpr ((endsWith_iff _ _).mp dot))]
        have text : joinDots parts ++ '.' :: org.toText =
            joinDots (parts ++ org.labels.map fun l => Name.escape l.octets) ++ ['.'] := by
          rw [Name.joinDots_append some (by simpa using below), List.append_assoc, List.cons_append, Name.toText]
          simp [below]
        have visible' : ∀ c ∈ joinDots parts ++ '.' :: org.toText, isSpace c = false := by
          intro c held
          rcases List.mem_append.mp held with held | held
          · exact visible c held
          · rcases List.mem_cons.mp held with rfl | held
            · rfl
            · exact visible_toText org c held
        exact Name.fromText_spelled (List.rel_append spelled (Name.spellsAll_escape org.labels))
          (List.append_ne_nil_of_left_ne_nil some _) legal visible' (.inr text)

/-! ### Fields as words -/

theorem plain_of_digit {c : Char} (digit : Name.isDigit c = true) :
    isSpace c = false ∧ c ∉ [';', '(', ')'] ∧ c.toNat < 128 := by
  rw [Name.isDigit, Bool.and_eq_true, decide_eq_true_eq, decide_eq_true_eq, Char.le_def, Char.le_def,
    UInt32.le_iff_toNat_le, UInt32.le_iff_toNat_le] at digit
  have least : 48 ≤ c.toNat := digit.1
  have most : c.toNat ≤ 57 := digit.2
  refine ⟨?_, fun held => ?_, by omega⟩
  · simp only [isSpace, Bool.or_eq_false_iff, Bool.and_eq_false_iff, decide_eq_false_iff_not, beq_eq_false_iff_ne]
    omega
  · simp only [List.mem_cons, List.not_mem_nil, or_false] at held
    rcases held with rfl | rfl | rfl <;> revert least most <;> decide

theorem lower_digit {c : Char} (digit : Name.isDigit c = true) : c.toLower = c := by
  rw [Name.isDigit, Bool.and_eq_true, decide_eq_true_eq, decide_eq_true_eq] at digit
  rw [Char.toLower, dif_neg]
  rintro ⟨least, -⟩
  exact absurd (le_trans least digit.2) (by decide)

/-- The letters that types and classes are written with. -/
def Capital (c : Char) : Prop := 65 ≤ c.toNat ∧ c.toNat ≤ 90

instance (c : Char) : Decidable (Capital c) := inferInstanceAs (Decidable (_ ∧ _))

theorem letter_of_capital {c : Char} (capital : Capital c.toUpper) :
    isSpace c = false ∧ c ∉ [';', '(', ')'] ∧ c.toNat < 128 ∧ Name.isDigit c = false ∧ c ≠ '$' := by
  have range : (65 ≤ c.toNat ∧ c.toNat ≤ 90) ∨ (97 ≤ c.toNat ∧ c.toNat ≤ 122) := by
    rw [Capital, Char.toUpper] at capital
    split at capital
    · next lower => exact .inr ⟨UInt32.le_iff_toNat_le.mp lower.1, UInt32.le_iff_toNat_le.mp lower.2⟩
    · exact .inl capital
  refine ⟨?_, fun held => ?_, by omega, ?_, ?_⟩
  · simp only [isSpace, Bool.or_eq_false_iff, Bool.and_eq_false_iff, decide_eq_false_iff_not, beq_eq_false_iff_ne]
    omega
  · simp only [List.mem_cons, List.not_mem_nil, or_false] at held
    rcases held with rfl | rfl | rfl <;> revert range <;> decide
  · rw [Name.isDigit, Bool.and_eq_false_iff, decide_eq_false_iff_not, decide_eq_false_iff_not, Char.le_def,
      Char.le_def, UInt32.le_iff_toNat_le, UInt32.le_iff_toNat_le]
    have same : c.val.toNat = c.toNat := rfl
    have nine : ('9' : Char).val.toNat = 57 := rfl
    omega
  · rintro rfl
    revert range
    decide

/-- A word that stands for a type or a class. -/
def Lettered (w : Text) : Prop := w ≠ [] ∧ ∀ c ∈ w, Capital c.toUpper

theorem lettered_of_class {w : Text} (same : w.map Char.toUpper = "IN".toList) : Lettered w := by
  have capital : ∀ c ∈ "IN".toList, Capital c := by
    have all : ("IN".toList.all fun c => decide (Capital c)) = true := by decide
    simpa only [List.all_eq_true, decide_eq_true_eq] using all
  refine ⟨?_, fun c held => capital _ (same ▸ List.mem_map_of_mem held)⟩
  rintro rfl
  cases same

theorem capital_text (kind : Kind) : ∀ c ∈ kind.text, Capital c := by
  have all : (kind.text.all fun c => decide (Capital c)) = true := by cases kind <;> decide
  simpa only [List.all_eq_true, decide_eq_true_eq] using all

theorem lettered_of_type {w : Text} {kind : Kind} (same : w.map Char.toUpper = kind.text) : Lettered w := by
  refine ⟨?_, fun c held => capital_text kind _ (same ▸ List.mem_map_of_mem held)⟩
  rintro rfl
  cases kind <;> cases same

theorem Lettered.undivided {w : Text} (letters : Lettered w) : Undivided w := fun c held =>
  have plain := letter_of_capital (letters.2 c held)
  ⟨plain.1, plain.2.1⟩

theorem Decimal.undivided {w : Text} {n : Int} (number : Decimal w n) : Undivided w := fun c held =>
  have plain := plain_of_digit (List.all_eq_true.mp number.2.1 c held)
  ⟨plain.1, plain.2.1⟩

theorem Lettered.upper {w : Text} (letters : Lettered w) (u : Strings) : u.upper w = w.map Char.toUpper :=
  u.upper_ascii w fun c held => (letter_of_capital (letters.2 c held)).2.2.1

theorem Lettered.not_digits {w : Text} (letters : Lettered w) (u : Strings) : isDigits u w = false := by
  obtain ⟨c, rest, rfl⟩ := List.exists_cons_of_ne_nil letters.1
  obtain ⟨-, -, ascii, other, -⟩ := letter_of_capital (letters.2 c List.mem_cons_self)
  rw [isDigits, List.all_cons, u.isDigit_ascii c ascii, other, Bool.false_and, Bool.and_false]

theorem Decimal.digits {w : Text} {n : Int} (number : Decimal w n) (u : Strings) : isDigits u w = true := by
  rw [isDigits, Bool.and_eq_true, decide_eq_true_eq, List.all_eq_true]
  refine ⟨number.1, fun c held => ?_⟩
  have digit := List.all_eq_true.mp number.2.1 c held
  rw [u.isDigit_ascii c (plain_of_digit digit).2.2, digit]

theorem Decimal.int {w : Text} {n : Int} (number : Decimal w n) (u : Strings) (short : w.length ≤ 4300) :
    u.int w = some n := by
  rw [u.int_digits w number.1 number.2.1 short, number.2.2]

/-- A TTL of digits has no unit. -/
theorem Decimal.ttl {w : Text} {n : Int} (number : Decimal w n) (u : Strings) (short : w.length ≤ 4300) :
    Zonefile.ttl u w = some n := by
  have last := List.getLast?_eq_some_getLast number.1
  have digit := List.all_eq_true.mp number.2.1 _ (List.getLast_mem number.1)
  generalize w.getLast number.1 = c at last digit
  have ascii := (plain_of_digit digit).2.2
  have unit : Zonefile.ttlUnits.lookup (u.lower [c]) = none := by
    rw [u.lower_ascii [c] (by simpa using ascii), List.map_singleton, lower_digit digit]
    have differ : c ∉ ['s', 'm', 'h', 'd', 'w'] := by
      rintro held
      simp only [List.mem_cons, List.not_mem_nil, or_false] at held
      rcases held with rfl | rfl | rfl | rfl | rfl <;> cases digit
    simp only [List.mem_cons, List.not_mem_nil, or_false, not_or] at differ
    simp [Zonefile.ttlUnits, List.lookup, beq_eq_false_iff_ne.mpr, differ]
  rw [Zonefile.ttl, last, Option.bind_some, unit]
  exact number.int u short

/-! ### Words and what stands behind them -/

theorem words_visible {w : Text} (some : w ≠ []) (visible : ∀ c ∈ w, isSpace c = false) (s : Text) :
    words (w ++ s) = (w ++ s.takeWhile fun c => !isSpace c) :: words (s.dropWhile fun c => !isSpace c) := by
  have front : ∀ c ∈ w ++ s.takeWhile (fun c => !isSpace c), isSpace c = false := by
    intro c held
    rcases List.mem_append.mp held with held | held
    · exact visible c held
    · simpa using List.mem_takeWhile_imp held
  have filled : w ++ s.takeWhile (fun c => !isSpace c) ≠ [] := by simp [some]
  have alone := words_of_undivided filled front
  have whole := List.takeWhile_append_dropWhile (p := fun c => !isSpace c) (l := s)
  have head := List.head?_dropWhile_not (fun c => !isSpace c) s
  conv_lhs => rw [← whole, ← List.append_assoc]
  cases behind : s.dropWhile fun c => !isSpace c with
  | nil => rw [List.append_nil, alone, words_nil]
  | cons c rest =>
      rw [behind] at head
      have blank : isSpace c = true := by simpa using head
      rw [words_append blank, alone, words_cons blank, List.singleton_append]

/-- Behind the first word stands a blank, if anything does. -/
theorem words_first {w s : Text} {more : List Text} (some : w ≠ []) (visible : ∀ c ∈ w, isSpace c = false)
    (same : words (w ++ s) = w :: more) : words s = more ∧ ∀ c ∈ s[0]?, isSpace c = true := by
  rw [words_visible some visible, List.cons.injEq] at same
  obtain ⟨first, rest⟩ := same
  have none : s.takeWhile (fun c => !isSpace c) = [] := List.append_right_eq_self.mp first
  cases s with
  | nil => exact ⟨rest, by rintro _ ⟨⟩⟩
  | cons c s =>
      have blank : isSpace c = true := by
        by_contra visible
        rw [List.takeWhile_cons_of_pos (by simpa using visible)] at none
        cases none
      rw [List.dropWhile_cons_of_neg (by simpa using blank)] at rest
      refine ⟨rest, ?_⟩
      rintro _ ⟨⟩
      exact blank

theorem words_undivided {ws : List Text} (filled : ∀ w ∈ ws, w ≠ []) (each : ∀ w ∈ ws, Undivided w) :
    ws.flatMap words = ws := by
  induction ws with
  | nil => rfl
  | cons w ws ih =>
      obtain ⟨some, filled⟩ := List.forall_mem_cons.mp filled
      obtain ⟨here, each⟩ := List.forall_mem_cons.mp each
      rw [List.flatMap_cons, ih filled each, words_of_undivided some (visible_of_undivided here), List.singleton_append]

/-! ### Data -/

theorem strip_quotes {body : Text} (free : '"' ∉ body) : stripQuotes ('"' :: (body ++ ['"'])) = body := by
  have last : (body ++ ['"']).rdropWhile (· == '"') = body := by
    rw [List.rdropWhile_concat_pos _ _ _ rfl, List.rdropWhile_eq_self_iff]
    intro some
    have other : body.getLast some ≠ '"' := fun same => free (same ▸ List.getLast_mem some)
    simpa using other
  rw [stripQuotes, List.dropWhile_cons_of_pos rfl]
  cases body with
  | nil => rfl
  | cons c body =>
      have other : c ≠ '"' := fun same => free (same ▸ List.mem_cons_self)
      rw [List.cons_append, List.dropWhile_cons_of_neg (by simpa using other)]
      exact last

theorem strip_unquoted {w : Text} (free : '"' ∉ w) : stripQuotes w = w := by
  have whole : w.dropWhile (· == '"') = w := by
    rw [List.dropWhile_eq_self_iff]
    intro some
    have other : w[0] ≠ '"' := fun same => free (same ▸ List.getElem_mem some)
    simpa using other
  rw [stripQuotes, whole, List.rdropWhile_eq_self_iff]
  intro some
  have other : w.getLast some ≠ '"' := fun same => free (same ▸ List.getLast_mem some)
  simpa using other

/-- Without a backslash a string stands for its own characters. -/
theorem octets_of_body {body : Text} {octets : Octets} (reads : Body body octets) (plain : '\\' ∉ body) :
    octets = utf8 body ∧ '"' ∉ body := by
  induction reads with
  | nil => exact ⟨rfl, List.not_mem_nil⟩
  | @char c t octets other _ ih =>
      obtain ⟨rfl, free⟩ := ih fun held => plain (List.mem_cons_of_mem _ held)
      refine ⟨?_, fun held => ?_⟩
      · rw [utf8, utf8, utf8, ← List.flatMap_append, List.singleton_append]
      · rcases List.mem_cons.mp held with rfl | held
        · exact other List.mem_cons_self
        · exact free held
  | escaped _ _ _ => exact absurd List.mem_cons_self plain
  | decimal _ _ _ _ => exact absurd List.mem_cons_self plain

theorem visible_of_bare {w : Text} (bare : Bare w) (plain : '\\' ∉ w) : ∀ c ∈ w, isSpace c = false ∧ c ≠ '"' := by
  induction bare with
  | nil => exact fun c held => (by cases held)
  | @char c t blank other _ ih =>
      refine List.forall_mem_cons.mpr ⟨⟨blank, ?_⟩, ih fun held => plain (List.mem_cons_of_mem _ held)⟩
      rintro rfl
      exact other (by decide)
  | escaped _ _ => exact absurd List.mem_cons_self plain

theorem intercalate_one (w : Text) : [' '].intercalate [w] = w := by simp [List.intercalate]

/-- Single spaces between the words are what joins them again. -/
theorem intercalate_words : ∀ w a : Text, a ≠ [] → (∀ c ∈ a, isSpace c = false) →
    (∀ c ∈ w, isSpace c = true → c = ' ') → (w.IsChain fun a b => a ≠ ' ' ∨ b ≠ ' ') →
    (∀ c ∈ w.getLast?, isSpace c = false) → [' '].intercalate (words (a ++ w)) = a ++ w
  | [], a, filled, visible, _, _, _ => by
      rw [List.append_nil, words_of_undivided filled visible, intercalate_one]
  | c :: w, a, filled, visible, spaces, single, last => by
      obtain ⟨here, others⟩ := List.forall_mem_cons.mp spaces
      by_cases blank : isSpace c = true
      · cases w with
        | nil => exact absurd blank (by simp [last c rfl])
        | cons d w =>
            obtain ⟨apart, rest⟩ := List.isChain_cons_cons.mp single
            have next : isSpace d = false := by
              by_contra space
              exact apart.resolve_left (by simp [here blank]) (others d List.mem_cons_self (by simpa using space))
            have tail := intercalate_words w [d] (by simp) (by simpa using next)
              (fun c held => others c (List.mem_cons_of_mem _ held)) rest.tail (fun c held => last c (by
                cases w with
                | nil => cases held
                | cons e w => exact held))
            have present : words (d :: w) ≠ [] := by
              have first := words_visible (w := [d]) (by simp) (by simpa using next) w
              rw [List.singleton_append] at first
              rw [first]
              simp
            obtain ⟨first, more, divided⟩ := List.exists_cons_of_ne_nil present
            rw [List.singleton_append, divided, intercalate_cons] at tail
            rw [words_append blank, words_of_undivided filled visible, divided, List.singleton_append, intercalate_cons,
              List.flatMap_cons, List.cons_append, tail, here blank]
      · have longer := intercalate_words w (a ++ [c]) (by simp)
          (List.forall_mem_append.mpr ⟨visible, List.forall_mem_singleton.mpr (by simpa using blank)⟩) others single.tail (fun d held => last d (by
            cases w with
            | nil => cases held
            | cons e w => exact held))
        rwa [List.append_assoc, List.singleton_append] at longer

theorem quoted_of_plain {w : Text} {octets : Octets} (string : Characters w octets) (plain : PlainString w) :
    quoted (words w) = octets := by
  have unescaped : '\\' ∉ w := fun held => (plain.1 _ held).1 (by decide)
  have whole : [' '].intercalate (words w) = w := by
    rcases string with ⟨body, rfl, -⟩ | ⟨bare, some, -⟩
    · refine intercalate_words (body ++ ['"']) ['"'] (by simp) (List.forall_mem_singleton.mpr rfl) (fun c held => ?_) plain.2.tail ?_
      · exact (plain.1 c (List.mem_cons_of_mem _ held)).2
      · rw [List.getLast?_concat]
        rintro _ ⟨⟩
        rfl
    · rw [words_of_undivided some fun c held => (visible_of_bare bare unescaped c held).1, intercalate_one]
  rw [quoted, whole]
  rcases string with ⟨body, rfl, reads⟩ | ⟨bare, -, reads⟩
  · obtain ⟨rfl, free⟩ := octets_of_body reads fun held =>
      unescaped (List.mem_cons_of_mem _ (List.mem_append_left _ held))
    rw [strip_quotes free]
  · rw [strip_unquoted fun held => (visible_of_bare bare unescaped _ held).2 rfl, (octets_of_body reads unescaped).1]

theorem name_of_plain {org name : Name} {w : Text} (field : NameField org w name) (plain : PlainName org w) :
    Zonefile.name org w = .ok name := by
  rw [Zonefile.name, qualify_of_plain field plain]

theorem int_of_plain {w : Text} {n : Int} (number : Decimal w n) (u : Strings) (short : w.length ≤ 4300) :
    Zonefile.int u w = .ok n := by
  rw [Zonefile.int, number.int u short]

/-- The words of plain data, read back, are what the data mean. -/
theorem read_of_plain {org : Name} {kind : Kind} {data : List Text} {rd : Rdata} (u : Strings)
    (means : Data org kind data rd) (plain : PlainData org kind data) (filled : ∀ w ∈ data, w ≠ []) :
    readRdata u kind (data.flatMap words) org = .ok rd := by
  obtain ⟨names, numbers, others⟩ := plain
  have named (i : Nat) (held : i ∈ kind.names) (w : Text) (there : data[i]? = some w) : words w = [w] :=
    words_of_undivided (filled w (List.mem_of_getElem? there)) (visible_of_undivided (names i held w there).undivided)
  have counted {w : Text} {n : Int} (number : Decimal w n) : words w = [w] :=
    words_of_undivided number.1 (visible_of_undivided number.undivided)
  cases means with
  | @a s =>
      rw [List.flatMap_singleton, words_of_undivided (filled s (by simp)) (visible_of_undivided (others s rfl))]
      rfl
  | @aaaa s =>
      rw [List.flatMap_singleton, words_of_undivided (filled s (by simp)) (visible_of_undivided (others s rfl))]
      rfl
  | @ns w name field =>
      have there := name_of_plain field (names 0 (by decide) w rfl)
      rw [List.flatMap_singleton, named 0 (by decide) w rfl]
      simp only [readRdata, tokenAt, List.getElem?_cons_zero, bind, Except.bind, there]
      rfl
  | @ptr w name field =>
      have there := name_of_plain field (names 0 (by decide) w rfl)
      rw [List.flatMap_singleton, named 0 (by decide) w rfl]
      simp only [readRdata, tokenAt, List.getElem?_cons_zero, bind, Except.bind, there]
      rfl
  | @cname w name field =>
      have there := name_of_plain field (names 0 (by decide) w rfl)
      rw [List.flatMap_singleton, named 0 (by decide) w rfl]
      simp only [readRdata, tokenAt, List.getElem?_cons_zero, bind, Except.bind, there]
      rfl
  | @dname w name field =>
      have there := name_of_plain field (names 0 (by decide) w rfl)
      rw [List.flatMap_singleton, named 0 (by decide) w rfl]
      simp only [readRdata, tokenAt, List.getElem?_cons_zero, bind, Except.bind, there]
      rfl
  | @mx p w preference exchange number field =>
      have first := int_of_plain number u (numbers 0 (by decide) p rfl)
      have second := name_of_plain field (names 1 (by decide) w rfl)
      rw [show [p, w].flatMap words = [p, w] by simp [counted number, named 1 (by decide) w rfl]]
      simp only [readRdata, tokenAt, List.getElem?_cons_zero, List.getElem?_cons_succ, bind, Except.bind, first, second]
      rfl
  | @srv p q r w priority weight port target number₀ number₁ number₂ field =>
      have first := int_of_plain number₀ u (numbers 0 (by decide) p rfl)
      have second := int_of_plain number₁ u (numbers 1 (by decide) q rfl)
      have third := int_of_plain number₂ u (numbers 2 (by decide) r rfl)
      have last := name_of_plain field (names 3 (by decide) w rfl)
      rw [show [p, q, r, w].flatMap words = [p, q, r, w] by
        simp [counted number₀, counted number₁, counted number₂, named 3 (by decide) w rfl]]
      simp only [readRdata, tokenAt, List.getElem?_cons_zero, List.getElem?_cons_succ, bind, Except.bind, first, second,
        third, last]
      rfl
  | @txt ws strings _ each =>
      obtain ⟨w, rfl, single⟩ := others
      cases each with
      | cons string rest =>
          cases rest with
          | nil => rw [readRdata, List.flatMap_singleton, quoted_of_plain (.inl string) single]
  | @caa f tag w flags value number _ string =>
      have first := int_of_plain number u (numbers 0 (by decide) f rfl)
      have second := words_of_undivided (filled tag (by simp)) (visible_of_undivided (others.1 tag rfl))
      rw [show [f, tag, w].flatMap words = f :: tag :: words w by simp [counted number, second]]
      simp only [readRdata, tokenAt, List.getElem?_cons_zero, List.getElem?_cons_succ, bind, Except.bind, first,
        List.drop_succ_cons, List.drop_zero, quoted_of_plain string (others.2 w rfl)]
      rfl
  | @soa m r a b c d e mname rname serial refresh retry expire minimum field₀ field₁ all =>
      obtain ⟨number₂, number₃, number₄, number₅, number₆⟩ := all
      have first := name_of_plain field₀ (names 0 (by decide) m rfl)
      have second := name_of_plain field₁ (names 1 (by decide) r rfl)
      have read₂ := int_of_plain number₂ u (numbers 2 (by decide) a rfl)
      have read₃ := int_of_plain number₃ u (numbers 3 (by decide) b rfl)
      have read₄ := int_of_plain number₄ u (numbers 4 (by decide) c rfl)
      have read₅ := int_of_plain number₅ u (numbers 5 (by decide) d rfl)
      have read₆ := int_of_plain number₆ u (numbers 6 (by decide) e rfl)
      rw [show [m, r, a, b, c, d, e].flatMap words = [m, r, a, b, c, d, e] by
        simp [named 0 (by decide) m rfl, named 1 (by decide) r rfl, counted number₂, counted number₃, counted number₄,
          counted number₅, counted number₆]]
      simp only [readRdata, tokenAt, List.getElem?_cons_zero, List.getElem?_cons_succ, bind, Except.bind, first, second,
        List.drop_succ_cons, List.drop_zero, List.take_succ_cons, List.take_zero, List.mapM_cons, List.mapM_nil, read₂,
        read₃, read₄, read₅, read₆]
      rfl

/-! ### Plain entries -/

/-- The owner is told from the rest by a space, or by a tab where there is no space. -/
def Parted (w shown : Text) : Prop :=
  shown[w.length]? = some ' ' ∨ (shown[w.length]? = some '\t' ∧ ' ' ∉ shown)

/-- The TTL stands before the class, and where it is omitted a directive gives it. -/
structure PlainRecord (c : Context) (y : Layout) (owner : Option Text) (stated : Stated) (type : Text)
    (data : List Text) : Prop where
  owned : ∀ w ∈ owner, PlainName c.org w ∧ Parted w y.shown
  ordered : ∀ c t, stated ≠ .classTtl c t
  timed : ∀ w ∈ stated.ttl?, w.length ≤ 4300
  standing : stated.ttl? = none → c.ttl.isSome = true
  data : ∀ kind, type.map Char.toUpper = kind.text → PlainData c.org kind data

/-- The origin that a directive names is a name with the root dot, or one below the root. -/
def Plain (c : Context) (e : Entry) (y : Layout) : Prop :=
  CommentsLast y.lines ∧
    match e with
    | .nothing => True
    | .origin w => Undivided w ∧ w ≠ ['@'] ∧ (Absolute w ∨ c.org = Name.root)
    | .ttl w => w.length ≤ 4300
    | .record owner stated type data => PlainRecord c y owner stated type data

theorem parts_of_plain {org : Name} {kind : Kind} {data : List Text} {rd : Rdata} (means : Data org kind data rd)
    (plain : PlainData org kind data) : ∀ w ∈ data, Undivided w ∨ PlainString w := by
  obtain ⟨names, numbers, others⟩ := plain
  have named (i : Nat) (held : i ∈ kind.names) (w : Text) (there : data[i]? = some w) : Undivided w :=
    (names i held w there).undivided
  cases means with
  | a => simpa using .inl (others _ rfl)
  | aaaa => simpa using .inl (others _ rfl)
  | ns => simpa using .inl (named 0 (by decide) _ rfl)
  | ptr => simpa using .inl (named 0 (by decide) _ rfl)
  | cname => simpa using .inl (named 0 (by decide) _ rfl)
  | dname => simpa using .inl (named 0 (by decide) _ rfl)
  | mx number => simp [number.undivided, named 1 (by decide) _ rfl]
  | srv number₀ number₁ number₂ =>
      simp [number₀.undivided, number₁.undivided, number₂.undivided, named 3 (by decide) _ rfl]
  | txt =>
      obtain ⟨w, rfl, single⟩ := others
      simpa using .inr single
  | caa number => simp [number.undivided, others.1 _ rfl, others.2 _ rfl]
  | soa _ _ all =>
      obtain ⟨number₂, number₃, number₄, number₅, number₆⟩ := all
      simp [named 0 (by decide) _ rfl, named 1 (by decide) _ rfl, number₂.undivided, number₃.undivided,
        number₄.undivided, number₅.undivided, number₆.undivided]

theorem clean_data {org : Name} {kind : Kind} {data : List Text} {rd : Rdata} (means : Data org kind data rd)
    (plain : PlainData org kind data) : ∀ w ∈ data, ∀ c ∈ w, c ∉ [';', '(', ')'] := by
  intro w held c inside
  rcases parts_of_plain means plain w held with undivided | single
  · exact (undivided c inside).2
  · have other := (single.1 c inside).1
    simp only [List.mem_cons, List.not_mem_nil, or_false, not_or] at other ⊢
    exact ⟨other.1, other.2.1, other.2.2.1⟩

section

variable {c c' : Context} {e : Entry} {y : Layout} {r : Option Loaded}

/-- The class and the TTL of what is said are words of their own. -/
theorem undivided_stated {stated : Stated} {n : Int} (timed : ∀ w ∈ stated.ttl?, Decimal w n)
    (classed : ∀ w ∈ stated.class?, w.map Char.toUpper = "IN".toList) :
    ∀ w ∈ stated.words, w ≠ [] ∧ Undivided w := by
  have number {w : Text} (digits : Decimal w n) : w ≠ [] ∧ Undivided w := ⟨digits.1, digits.undivided⟩
  have letters {w : Text} (same : w.map Char.toUpper = "IN".toList) : w ≠ [] ∧ Undivided w :=
    ⟨(lettered_of_class same).1, (lettered_of_class same).undivided⟩
  cases stated with
  | neither => exact fun w held => (by cases held)
  | ttl w => simpa [Stated.words] using number (timed w rfl)
  | «class» w => simpa [Stated.words] using letters (classed w rfl)
  | ttlClass t c => simpa [Stated.words] using ⟨number (timed t rfl), letters (classed c rfl)⟩
  | classTtl c t => simpa [Stated.words] using ⟨letters (classed c rfl), number (timed t rfl)⟩

theorem clean_of_plain (stands : e.On y) (plain : Plain c e y) (tells : Says c e c' r) :
    ∀ l ∈ y.lines, Clean l := by
  have cut {w : Text} (undivided : Undivided w) : ∀ c ∈ w, c ∉ [';', '(', ')'] := fun c held => (undivided c held).2
  have each : ∀ w ∈ e.words, ∀ c ∈ w, c ∉ [';', '(', ')'] := by
    obtain ⟨-, fine⟩ := plain
    cases tells with
    | nothing => exact fun w held => (by cases held)
    | origin => exact List.forall_mem_cons.mpr ⟨cut (undivided_of_all rfl), List.forall_mem_singleton.mpr (cut fine.1)⟩
    | ttl number => exact List.forall_mem_cons.mpr ⟨cut (undivided_of_all rfl), List.forall_mem_singleton.mpr (cut number.undivided)⟩
    | @record owner stated type data r owned timed classed typed means =>
        have front := undivided_stated (n := r.ttl) (fun w held => by rw [Option.mem_def.mp held] at timed; exact timed) classed
        intro w held
        rcases List.mem_append.mp held with held | held
        · rcases List.mem_append.mp held with held | held
          · exact cut (fine.owned w (by simpa using held)).1.undivided
          · exact cut (front w held).2
        · rcases List.mem_cons.mp held with rfl | held
          · exact cut (lettered_of_type typed).undivided
          · exact clean_data means (fine.data _ typed) w held
  intro l inside w held
  refine each w ?_
  rw [← stands.1]
  exact List.mem_flatMap.mpr ⟨l, inside, held⟩

theorem filled_of_on (stands : e.On y) : ∀ w ∈ e.words, w ≠ [] := by
  intro w held
  rw [← stands.1] at held
  obtain ⟨l, inside, held⟩ := List.mem_flatMap.mp held
  rcases y.fields l inside w held with ⟨-, some⟩ | ⟨octets, body, rfl, -⟩
  · exact some
  · exact List.cons_ne_nil _ _

end

/-! ### One entry -/

/-- The lines so far have left what the entries so far have said. -/
structure Agrees (c : Context) (f : Frame) : Prop where
  org : f.org = c.org
  ttl : f.defaultTtl = c.ttl.getD 3600
  owner : ∀ name ∈ c.owner, f.lastOwner = name

theorem partition_at {w : Text} {mark : Char} (free : mark ∉ w) (s : Text) :
    Filter.partition mark (w ++ mark :: s) = (w, s) := by
  have other : ∀ c ∈ w, decide (c ≠ mark) = true := fun c held => decide_eq_true fun same => free (same ▸ held)
  rw [Filter.partition, List.takeWhile_append_of_pos other, List.dropWhile_append_of_pos other]
  simp

theorem not_directive {line : Text} (other : line.head? ≠ some '$') :
    Filter.startsWith line "$ORIGIN".toList = false ∧ Filter.startsWith line "$TTL".toList = false := by
  cases line with
  | nil => exact ⟨rfl, rfl⟩
  | cons c line =>
      have differ : ('$' == c) = false := beq_eq_false_iff_ne.mpr fun same => other (by rw [List.head?_cons, same])
      constructor
      · exact congrArg (· && _) differ
      · exact congrArg (· && _) differ

theorem strip_ne_nil {line : Text} (some : words line ≠ []) : Name.strip line ≠ [] := by
  intro empty
  rw [← words_strip, empty] at some
  exact some words_nil

section

variable {c c' : Context} {f : Frame} {y : Layout} {owner : Option Text} {stated : Stated} {type : Text}
  {data : List Text} {r : Loaded}

/-- The owner of a record is told from what stands behind it. -/
theorem owner_of_plain
    (owned : match owner with
      | some w => w.head? ≠ some '$' ∧ NameField c.org w r.owner
      | none => c.owner = some r.owner)
    (agrees : Agrees c f) (stands : (Entry.record owner stated type data).On y)
    (plain : PlainRecord c y owner stated type data)
    (filled : (stated.words ++ type :: data).flatMap words ≠ []) :
    ∃ rest, Zonefile.owner y.shown f.lastOwner f.org = .ok (r.owner, rest) ∧
      words rest = (stated.words ++ type :: data).flatMap words ∧ y.shown.head? ≠ some '$' := by
  have shown := words_shown y
  rw [stands.1] at shown
  cases owner with
  | none =>
      obtain ⟨tab, first⟩ := stands.2
      have same : words y.shown = (stated.words ++ type :: data).flatMap words := shown
      obtain ⟨ch, s, space, line⟩ := shown_of_blank first (by rwa [same])
      refine ⟨Name.strip y.shown, ?_, by rw [words_strip, same], ?_⟩
      · rw [line, Zonefile.owner, if_pos space, agrees.owner _ owned]
      · rw [line, List.head?_cons]
        rintro ⟨⟩
        cases space
  | some w =>
      obtain ⟨other, field⟩ := owned
      obtain ⟨name, parted⟩ := plain.owned w rfl
      have visible := visible_of_undivided name.undivided
      have some : w ≠ [] := filled_of_on stands w (by simp [Entry.words])
      obtain ⟨s, line⟩ := shown_of_field stands.2 visible
      have divided : words (w ++ s) = w :: (stated.words ++ type :: data).flatMap words := by
        rw [← line, shown, Entry.words, Option.toList_some, List.append_assoc, List.flatMap_append,
          List.flatMap_singleton, words_of_undivided some visible, List.singleton_append]
      obtain ⟨rest, -⟩ := words_first some visible divided
      obtain ⟨mark, more, same, blank⟩ : ∃ mark more, s = mark :: more ∧
          (if ' ' ∈ y.shown then ' ' else '\t') = mark ∧ isSpace mark = true := by
        rw [Parted, line] at parted
        rw [line]
        rcases parted with there | ⟨there, none⟩
        · rw [List.getElem?_append_right le_rfl, Nat.sub_self] at there
          obtain ⟨more, rfl⟩ := List.head?_eq_some_iff.mp (List.head?_eq_getElem? ▸ there)
          exact ⟨' ', more, rfl, if_pos (by simp), rfl⟩
        · rw [List.getElem?_append_right le_rfl, Nat.sub_self] at there
          obtain ⟨more, rfl⟩ := List.head?_eq_some_iff.mp (List.head?_eq_getElem? ▸ there)
          exact ⟨'\t', more, rfl, if_neg none, rfl⟩
      obtain ⟨chosen, space⟩ := blank
      have free : mark ∉ w := fun held => absurd space (by simp [visible mark held])
      obtain ⟨a, w', rfl⟩ := List.exists_cons_of_ne_nil some
      have first : ¬ isSpace a = true := by simp [visible a List.mem_cons_self]
      refine ⟨Name.strip more, ?_, ?_, ?_⟩
      · rw [line, List.cons_append, Zonefile.owner, if_neg first, ← List.cons_append, ← line, chosen, line, same,
          partition_at free, agrees.org]
        simp only [qualify_of_plain field name]
        rfl
      · rw [words_strip, ← rest, same, words_cons space]
      · rw [line]
        exact other

/-- The TTL and the class are stepped over. -/
theorem ttl_of_plain (agrees : Agrees c f) (plain : PlainRecord c y owner stated type data)
    (timed : match stated.ttl? with
      | some w => Decimal w r.ttl
      | none => c.ttl.or c.lastTtl = some r.ttl)
    (classed : ∀ w ∈ stated.class?, w.map Char.toUpper = "IN".toList) (typed : Lettered type)
    (known : type.map Char.toUpper ∉ ["IN", "CH", "HS"].map String.toList) (u : Strings) (more : List Text) :
    ∃ toks, ttlAhead u f.defaultTtl (stated.words ++ type :: more) = .ok (r.ttl, toks) ∧
      classAhead u toks = type :: more := by
  have behind : classAhead u (type :: more) = type :: more := by
    rw [classAhead, typed.upper u, if_neg known]
  have stepped {w : Text} (same : w.map Char.toUpper = "IN".toList) :
      classAhead u (w :: type :: more) = type :: more := by
    rw [classAhead, (lettered_of_class same).upper u, same, if_pos (by decide)]
  have given (none : stated.ttl? = Option.none) (others : c.ttl.or c.lastTtl = some r.ttl) : f.defaultTtl = r.ttl := by
    obtain ⟨n, directed⟩ := Option.isSome_iff_exists.mp (plain.standing none)
    rw [directed, Option.some_or, Option.some.injEq] at others
    rw [agrees.ttl, directed, Option.getD_some, others]
  cases stated with
  | neither =>
      refine ⟨type :: more, ?_, behind⟩
      rw [Stated.words, List.nil_append, ttlAhead, typed.not_digits u, if_neg Bool.false_ne_true, given rfl timed]
  | ttl w =>
      have number : Decimal w r.ttl := timed
      refine ⟨type :: more, ?_, behind⟩
      rw [Stated.words, List.singleton_append, ttlAhead, number.digits u, if_pos rfl, number.int u (plain.timed w rfl)]
  | «class» w =>
      have letters := lettered_of_class (classed w rfl)
      refine ⟨w :: type :: more, ?_, stepped (classed w rfl)⟩
      rw [Stated.words, List.singleton_append, ttlAhead, letters.not_digits u, if_neg Bool.false_ne_true,
        given rfl timed]
  | ttlClass t w =>
      have number : Decimal t r.ttl := timed
      refine ⟨w :: type :: more, ?_, stepped (classed w rfl)⟩
      rw [Stated.words, List.cons_append, List.singleton_append, ttlAhead, number.digits u, if_pos rfl,
        number.int u (plain.timed t rfl)]
  | classTtl w t => exact absurd rfl (plain.ordered w t)

theorem class_apart (kind : Kind) : kind.text ∉ ["IN", "CH", "HS"].map String.toList := by
  cases kind <;> decide

theorem ofText_text (kind : Kind) : Kind.ofText kind.text = some kind := by
  cases kind <;> decide

/-- A plain record is read as what it says. -/
theorem recordLine_of_plain (u : Strings)
    (owned : match owner with
      | some w => w.head? ≠ some '$' ∧ NameField c.org w r.owner
      | none => c.owner = some r.owner)
    (timed : match stated.ttl? with
      | some w => Decimal w r.ttl
      | none => c.ttl.or c.lastTtl = some r.ttl)
    (classed : ∀ w ∈ stated.class?, w.map Char.toUpper = "IN".toList)
    (typed : type.map Char.toUpper = r.kind.text) (means : Data c.org r.kind data r.rdata) (agrees : Agrees c f)
    (stands : (Entry.record owner stated type data).On y) (plain : PlainRecord c y owner stated type data) :
    recordLine u f y.shown = .ok (r.owner, some r) ∧ Name.strip y.shown ≠ [] ∧ y.shown.head? ≠ some '$' := by
  have letters := lettered_of_type typed
  have front := undivided_stated (n := r.ttl)
    (fun w held => by rw [Option.mem_def.mp held] at timed; exact timed) classed
  have toks : (stated.words ++ type :: data).flatMap words = stated.words ++ type :: data.flatMap words := by
    rw [List.flatMap_append, words_undivided (fun w held => (front w held).1) fun w held => (front w held).2,
      List.flatMap_cons, words_of_undivided letters.1 (visible_of_undivided letters.undivided), List.singleton_append]
  obtain ⟨rest, found, divided, head⟩ := owner_of_plain owned agrees stands plain (by simp [toks])
  rw [toks] at divided
  obtain ⟨more, ahead, stepped⟩ := ttl_of_plain agrees plain timed classed letters (typed ▸ class_apart r.kind) u
    (data.flatMap words)
  have read := read_of_plain u means (plain.data _ typed)
    fun w held => filled_of_on stands w (by simp [Entry.words, held])
  refine ⟨?_, strip_ne_nil ?_, head⟩
  · rw [← agrees.org] at read
    simp only [recordLine, found, Except.mapError, bind, Except.bind, divided, ahead, stepped, letters.upper u, typed,
      Zonefile.rdata, ofText_text, read]
    rfl
  · rw [words_shown, stands.1, Entry.words, List.append_assoc, List.flatMap_append, toks]
    simp

end

theorem words_of_directive {e : Entry} {y : Layout} {name w : Text} (stands : e.On y) (same : e.words = [name, w])
    (first : Undivided name) (second : Undivided w) : words y.shown = [name, w] := by
  rw [words_shown, stands.1, words_undivided (filled_of_on stands), same]
  rw [same]
  simpa using ⟨first, second⟩

theorem strip_eq_nil {line : Text} (none : words line = []) : Name.strip line = [] := by
  rw [← words_lstrip] at none
  have empty : line.dropWhile isSpace = [] := by
    cases front : line.dropWhile isSpace with
    | nil => rfl
    | cons c rest =>
        have head := List.head?_dropWhile_not isSpace line
        rw [front] at head
        have first := words_visible (w := [c]) (by simp) (List.forall_mem_singleton.mpr head) rest
        rw [List.singleton_append, ← front, none] at first
        cases first
  rw [Name.strip, empty]
  rfl

/-- The name of a directive, read as it stands. -/
theorem fromText_of_plain {org name : Name} {w : Text} (named : NameField org w name) (undivided : Undivided w)
    (other : w ≠ ['@']) (whole : Absolute w ∨ org = Name.root) : Name.fromText w = .ok name := by
  have visible := visible_of_undivided undivided
  cases named with
  | free => exact absurd rfl other
  | root => rfl
  | absolute spelled some legal => exact Name.fromText_spelled spelled some legal visible (.inr rfl)
  | relative spelled some free legal =>
      obtain rfl := whole.resolve_left (not_absolute spelled some)
      simp only [Name.root, List.append_nil] at legal ⊢
      exact Name.fromText_spelled spelled some legal visible (.inl rfl)

/-- A plain entry is read as what it says, and leaves what it leaves. -/
theorem parseLine_of_plain (u : Strings) (origin : Text) (lineno : Nat) {c c' : Context} {e : Entry} {y : Layout}
    {r : Option Loaded} {f : Frame} (agrees : Agrees c f) (stands : e.On y) (plain : Plain c e y)
    (tells : Says c e c' r) : ∃ f', Zonefile.parseLine u origin lineno f y.shown = .ok (f', r) ∧ Agrees c' f' := by
  obtain ⟨-, fine⟩ := plain
  cases tells with
  | nothing =>
      have none : words y.shown = [] := by rw [words_shown, stands.1]; rfl
      exact ⟨f, by rw [Zonefile.parseLine, if_pos (strip_eq_nil none)], agrees⟩
  | @origin w name named =>
      obtain ⟨undivided, other, whole⟩ := fine
      have toks := words_of_directive stands rfl (undivided_of_all rfl) undivided
      obtain ⟨s, line⟩ := shown_of_field stands.2 (visible_of_undivided (undivided_of_all rfl))
      have starts : Filter.startsWith y.shown "$ORIGIN".toList = true := List.isPrefixOf_iff_prefix.mpr ⟨s, line.symm⟩
      have read : Zonefile.directive origin lineno (fun s => (Name.fromText s).toOption) y.shown = .ok name := by
        rw [Zonefile.directive, toks]
        simp only [fromText_of_plain named undivided other whole, Except.toOption]
      refine ⟨{ f with org := name }, ?_, rfl, agrees.ttl, agrees.owner⟩
      rw [Zonefile.parseLine, if_neg (strip_ne_nil (by simp [toks])), if_pos starts, read]
      rfl
  | @ttl w n number =>
      have toks := words_of_directive stands rfl (undivided_of_all rfl) number.undivided
      obtain ⟨s, line⟩ := shown_of_field stands.2 (visible_of_undivided (undivided_of_all rfl))
      have starts : Filter.startsWith y.shown "$TTL".toList = true := List.isPrefixOf_iff_prefix.mpr ⟨s, line.symm⟩
      have other : Filter.startsWith y.shown "$ORIGIN".toList = false := by
        rw [line]
        rfl
      have read : Zonefile.directive origin lineno (Zonefile.ttl u) y.shown = .ok n := by
        rw [Zonefile.directive, toks]
        simp only [number.ttl u (show w.length ≤ 4300 from fine)]
      refine ⟨{ f with defaultTtl := n }, ?_, agrees.org, rfl, agrees.owner⟩
      rw [Zonefile.parseLine, if_neg (strip_ne_nil (by simp [toks])), other, if_neg Bool.false_ne_true, if_pos starts, read]
      rfl
  | @record owner stated type data r owned timed classed typed means =>
      obtain ⟨read, some, head⟩ := recordLine_of_plain u owned timed classed typed means agrees stands fine
      obtain ⟨not_origin, not_ttl⟩ := not_directive head
      refine ⟨{ f with lastOwner := r.owner }, ?_, agrees.org, agrees.ttl, ?_⟩
      · rw [Zonefile.parseLine, if_neg some, not_origin, if_neg Bool.false_ne_true, not_ttl, if_neg Bool.false_ne_true,
          read]
        rfl
      · rintro _ ⟨⟩
        rfl

/-! ### The file -/

/-- The entries of a file are read one after the other. -/
theorem parseLines_of_plain (u : Strings) (origin : Text) {c : Context} {file : List (Entry × Layout)}
    {rs : List Loaded} (reads : Reads Plain c file rs) {f : Frame} (agrees : Agrees c f) (zone : Zone) (lineno : Nat) :
    Zonefile.parseLines u origin lineno f zone (file.map fun p => joined (p.2.lines.map Line.text)) =
      .ok (rs.foldl Zonefile.addLoaded zone) := by
  induction reads generalizing f zone lineno with
  | nil => rfl
  | @cons c c' e y r rest rs stands plain tells _ ih =>
      obtain ⟨f', read, agrees'⟩ := parseLine_of_plain u origin lineno agrees stands plain tells
      have line := content_joined y (clean_of_plain stands plain tells) plain.1
      rw [content] at line
      rw [List.map_cons, Zonefile.parseLines, line, read]
      dsimp only
      rw [ih agrees', List.foldl_append]
      cases r <;> rfl

theorem groups_of_plain {c : Context} {file : List (Entry × Layout)} {rs : List Loaded} (reads : Reads Plain c file rs) :
    Zonefile.groupsFrom [] 0 (file.flatMap fun p => p.2.lines.map Line.text) =
      file.map fun p => p.2.lines.map Line.text := by
  induction reads with
  | nil => rfl
  | @cons c c' e y r rest rs stands plain tells _ ih =>
      rw [List.flatMap_cons, groupsFrom_held y.held (clean_of_plain stands plain tells), ih, List.nil_append,
        List.map_cons]

/-- A plain file is loaded as the zone of the records that it says, each set with the TTL of its last record. -/
theorem parseZonefile_plain (u : Strings) {text origin : Text} {org : Name} {file : List (Entry × Layout)}
    {rs : List Loaded} (denotes : Name.fromText origin = .ok org) (written : Written text file)
    (reads : Reads Plain { org } file rs) : ∃ zone, parseZonefile u text origin = .ok zone ∧
      ∀ name rtype, zone.slot name rtype = (rs.filter (Zonefile.ofSet name rtype)).map Loaded.rdata ∧
        ∀ r ∈ (rs.filter (Zonefile.ofSet name rtype)).getLast?, zone.ttlOf name rtype = r.ttl := by
  have lines : Zonefile.logicalLines text = file.map fun p => joined (p.2.lines.map Line.text) := by
    rw [Zonefile.logicalLines_eq, Zonefile.groups, written, groups_of_plain reads, List.map_map]
    rfl
  have agrees : Agrees { org } { org, lastOwner := org } := ⟨rfl, rfl, by rintro _ ⟨⟩⟩
  refine ⟨rs.foldl Zonefile.addLoaded (Zone.make org), ?_, fun name rtype => ⟨?_, fun r last => ?_⟩⟩
  · rw [parseZonefile, denotes]
    dsimp only
    rw [lines, parseLines_of_plain u origin reads agrees]
  · rw [Zonefile.slot_loaded, show (Zone.make org).slot name rtype = [] from rfl, List.nil_append]
  · rw [Zonefile.ttlOf_loaded, Option.mem_def.mp last]
    rfl

/-! ### A file -/

theorem bare_of_all {w : Text}
    (all : (w.all fun c => !isSpace c && decide (c ∉ [';', '(', ')', '"', '\\'])) = true) : Bare w := by
  induction w with
  | nil => exact .nil
  | cons c w ih =>
      rw [List.all_cons, Bool.and_eq_true, Bool.and_eq_true, Bool.not_eq_true', decide_eq_true_eq] at all
      exact .char all.1.1 all.1.2 (ih all.2)

theorem fields_of_all {lines : List Line} (all : ((lines.flatMap Line.fields).all fun w =>
    !w.isEmpty && w.all fun c => !isSpace c && decide (c ∉ [';', '(', ')', '"', '\\'])) = true) :
    ∀ l ∈ lines, ∀ w ∈ l.fields, Field w := by
  intro l held w inside
  have fine := List.all_eq_true.mp all w (List.mem_flatMap.mpr ⟨l, held, inside⟩)
  rw [Bool.and_eq_true, Bool.not_eq_true', List.isEmpty_eq_false_iff] at fine
  exact .inl ⟨bare_of_all fine.2, fine.1⟩

/-- A mail server, in parentheses and with a comment, under a TTL of the file. -/
def mailText : Text := "$TTL 300\nhost IN MX ( 10\n mail ) ; relay".toList

def lan : Name := ⟨[⟨[0x6c, 0x61, 0x6e], by decide, by decide⟩]⟩

def hostLabel : Label := ⟨[0x68, 0x6f, 0x73, 0x74], by decide, by decide⟩

def mailLabel : Label := ⟨[0x6d, 0x61, 0x69, 0x6c], by decide, by decide⟩

def ttlLayout : Layout where
  lines := [⟨[.field "$TTL".toList, .blank false, .field "300".toList], none⟩]
  held := .last rfl
  apart := by decide
  fields := fields_of_all (by decide)

def mailLayout : Layout where
  lines := [⟨[.field "host".toList, .blank false, .field "IN".toList, .blank false, .field "MX".toList, .blank false,
      .opening, .blank false, .field "10".toList], none⟩,
    ⟨[.blank false, .field "mail".toList, .blank false, .closing, .blank false], some " relay".toList⟩]
  held := .more (by decide) (.last rfl)
  apart := by decide
  fields := fields_of_all (by decide)

def mailEntries : List (Entry × Layout) :=
  [(.ttl "300".toList, ttlLayout),
    (.record (some "host".toList) (.class "IN".toList) "MX".toList ["10".toList, "mail".toList], mailLayout)]

def mailRecord : Loaded where
  owner := ⟨hostLabel :: lan.labels⟩
  kind := .mx
  rdata := .mx { preference := 10, exchange := ⟨mailLabel :: lan.labels⟩ }
  ttl := 300

theorem lan_field (label : Label) (free : Name.escape label.octets ≠ ['@']) :
    NameField lan (Name.escape label.octets) ⟨label :: lan.labels⟩ := by
  have short := label.bounded
  have legal : LegalName ⟨label :: lan.labels⟩ := by
    simp only [LegalName, Name.wireLen, lan, maxName, maxLabel, List.map_cons, List.sum_cons] at short ⊢
    simp
    omega
  exact .relative (Name.spellsAll_escape [label]) (List.cons_ne_nil _ _) (by simpa using free) legal

theorem mail_reads : Reads Plain { org := lan } mailEntries [mailRecord] := by
  have host : NameField lan "host".toList mailRecord.owner := lan_field hostLabel (by decide)
  have mail : NameField lan "mail".toList ⟨mailLabel :: lan.labels⟩ := lan_field mailLabel (by decide)
  have plain {w : Text} (all : (w.all fun c => !isSpace c && decide (c ∉ [';', '(', ')'])) = true)
      (last : w.getLast? ≠ some '.') : PlainName lan w :=
    ⟨undivided_of_all all, .inr (.inr (iff_of_false (by decide) last))⟩
  have data : PlainData lan .mx ["10".toList, "mail".toList] := by
    refine ⟨?_, ?_, trivial⟩
    · intro i held w there
      obtain rfl := List.mem_singleton.mp held
      obtain rfl := Option.some.inj there
      exact plain (by decide) (by decide)
    · intro i held w there
      obtain rfl := List.mem_singleton.mp held
      obtain rfl := Option.some.inj there
      decide
  refine .cons (r := none) ⟨by decide, rfl⟩ ⟨⟨nofun, trivial⟩, by decide⟩ (.ttl ⟨by decide, by decide, rfl⟩)
    (.cons (r := some mailRecord) ⟨by decide, rfl⟩ ⟨⟨nofun, ⟨fun _ => rfl, trivial⟩⟩, ?_⟩
      (.record ⟨by decide, host⟩ rfl ?_ (by decide) (.mx ⟨by decide, by decide, rfl⟩ mail)) .nil)
  · refine ⟨?_, nofun, nofun, fun _ => rfl, fun kind same => ?_⟩
    · rintro w ⟨⟩
      exact ⟨plain (by decide) (by decide), .inl (by decide)⟩
    · obtain rfl : kind = .mx := by revert same; cases kind <;> decide
      exact data
  · rintro w ⟨⟩
    decide

theorem parseZonefile_plain_mail : ∃ zone, parseZonefile Strings.ascii mailText "lan".toList = .ok zone ∧
    ∀ name rtype, zone.slot name rtype = ([mailRecord].filter (Zonefile.ofSet name rtype)).map Loaded.rdata ∧
      ∀ r ∈ ([mailRecord].filter (Zonefile.ofSet name rtype)).getLast?, zone.ttlOf name rtype = r.ttl :=
  parseZonefile_plain Strings.ascii (by rfl) (by rfl) mail_reads

end Trench.AuthZone.MasterFile
