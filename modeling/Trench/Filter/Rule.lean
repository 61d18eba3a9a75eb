import Mathlib
import Trench.Lib.StarPattern
import Trench.Wire.NameText
import Trench.Wire.Rdata

set_option autoImplicit false

/- Filter rules. The library functions that a rule rests on, `re.search`, the
`ipaddress` module and `str.lower` on any text, are the fields of `Library`. -/

namespace Trench.Filter

open Wire

structure Library where
  /-- `re.compile(pattern, re.IGNORECASE).search(name)` finds a match. -/
  search : Text → Text → Bool
  /-- The address of a client is in the network of a rule's entry. -/
  inNetwork : Text → Text → Bool
  /-- The version and the value of an address. -/
  address : Text → Option (Nat × Nat)
  lower : Text → Text

/-- A `*` wildcard rule. -/
structure Glob where
  pattern : Text
  deriving DecidableEq

namespace Glob

def parts (g : Glob) : List Text := g.pattern.splitOn '*'

def head (g : Glob) : Text := g.parts.headD []

def tail (g : Glob) : Text := g.parts.getLastD []

def mid (g : Glob) : List Text := (g.parts.drop 1).dropLast.filter fun piece => !piece.isEmpty

/-- The name as it is compared, `lower` of ASCII text. -/
def search (g : Glob) (name : Text) : Bool :=
  let s := Name.lowerText name
  if '*' ∉ g.pattern then s == g.pattern
  else if s.length < g.head.length + g.tail.length || !g.head.isPrefixOf s || !g.tail.isSuffixOf s then
    false
  else StarPattern.eat g.mid ((s.drop g.head.length).take (s.length - g.tail.length - g.head.length))

/-- The strings that a wildcard rule stands for. -/
def Matches (g : Glob) (name : Text) : Prop := StarPattern.Matches '*' g.pattern (Name.lowerText name)

/-- Searching the pieces of a wildcard rule in turn decides its language. -/
theorem search_iff (g : Glob) (name : Text) : g.search name = true ↔ g.Matches name := by
  unfold search Matches
  rw [StarPattern.matches_iff_spans]
  generalize Name.lowerText name = s
  by_cases starred : '*' ∈ g.pattern
  · obtain ⟨head, mid, tail, cut⟩ := StarPattern.splitOn_starred starred
    have first : g.head = head := by
      unfold Glob.head parts
      rw [cut]
      rfl
    have last : g.tail = tail := by
      unfold Glob.tail parts
      rw [cut, ← List.cons_append, List.getLastD_concat]
    have inner : g.mid = mid.filter fun piece => !piece.isEmpty := by
      unfold Glob.mid parts
      rw [cut, List.drop_one, List.tail_cons, List.dropLast_concat]
    simp only [starred, not_true_eq_false, ↓reduceIte]
    rw [cut, StarPattern.spans_iff, first, last, inner]
    constructor
    · intro found
      split at found
      · cases found
      · next fits =>
          simp only [Bool.or_eq_true, decide_eq_true_eq, Bool.not_eq_true', not_or,
            Bool.not_eq_false, List.isPrefixOf_iff_prefix, List.isSuffixOf_iff_suffix] at fits
          obtain ⟨⟨long, rest, rfl⟩, behind⟩ := fits
          rw [List.length_append] at long
          have ends : tail <:+ rest := by
            apply List.suffix_of_suffix_length_le behind (List.suffix_append head rest)
            omega
          obtain ⟨window, rfl⟩ := ends
          refine ⟨window, by rw [List.append_assoc], ?_⟩
          have width : (head ++ (window ++ tail)).length - tail.length - head.length =
              window.length := by
            simp only [List.length_append]
            omega
          rw [StarPattern.eat_iff, StarPattern.inOrder_filter, List.drop_left, width,
            List.take_left] at found
          exact found
    · intro spans
      obtain ⟨window, rfl, inOrder⟩ := spans
      have width : (head ++ window ++ tail).length - tail.length - head.length =
          window.length := by
        simp only [List.length_append]
        omega
      rw [if_neg]
      · rw [StarPattern.eat_iff, StarPattern.inOrder_filter, width, List.append_assoc,
          List.drop_left, List.take_left]
        exact inOrder
      · simp only [Bool.or_eq_true, decide_eq_true_eq, Bool.not_eq_true', not_or,
          Bool.not_eq_false, List.isPrefixOf_iff_prefix, List.isSuffixOf_iff_suffix,
          List.length_append]
        refine ⟨⟨by omega, ?_⟩, List.suffix_append _ _⟩
        rw [List.append_assoc]
        exact List.prefix_append _ _
  · rw [StarPattern.splitOn_bare starred]
    simp only [starred, not_false_eq_true, ↓reduceIte]
    rw [beq_iff_eq]
    rfl

/-- A wildcard rule of a text. -/
def ofText (lib : Library) (glob : Text) : Glob := ⟨lib.lower glob⟩

end Glob

/-- `str.lower`: every character has its image; only a capital sigma takes one of two by what stands around it. -/
structure Lowers (lower : Text → Text) (image : Char → Text) : Prop where
  ascii : ∀ c : Char, c.toNat < 128 → image c = [c.toLower]
  plain : ∀ s, 'Σ' ∉ s → lower s = s.flatMap image
  sigma : ∀ s, 'Σ' ∈ s → ∃ c ∈ lower s, 128 ≤ c.toNat
  star : ∀ c, c ≠ '*' → '*' ∉ image c

theorem toLower_ascii {c : Char} (ascii : c.toNat < 128) : c.toLower.toNat < 128 := by
  by_cases upper : c.isUpper = true
  · have high : c.toNat ≤ 90 := by
      simp only [Char.isUpper, Bool.and_eq_true, decide_eq_true_eq] at upper
      exact UInt32.le_iff_toNat_le.mp upper.2
    rw [Char.toLower_eq_of_isUpper upper, Char.toNat_ofNat]
    split <;> omega
  · rwa [Char.toLower_eq_of_not_isUpper upper]

namespace Lowers

variable {lower : Text → Text} {image : Char → Text} (laws : Lowers lower image)

include laws

theorem of_ascii {s : Text} (ascii : ∀ c ∈ s, c.toNat < 128) : lower s = Name.lowerText s := by
  have apart : 'Σ' ∉ s := fun held => absurd (ascii _ held) (by decide)
  rw [laws.plain s apart, List.flatMap_congr fun c held => laws.ascii c (ascii c held), Name.lowerText,
    List.map_eq_flatMap]

/-- What is lowered already has itself as its image. -/
theorem fixed {s : Text} (ascii : ∀ c ∈ s, c.toNat < 128) {c : Char} (held : c ∈ Name.lowerText s) :
    c.toNat < 128 ∧ image c = [c] := by
  obtain ⟨d, inside, rfl⟩ := List.mem_map.mp held
  have small := toLower_ascii (ascii d inside)
  exact ⟨small, by rw [laws.ascii _ small, Char.toLower_toLower_eq_toLower]⟩

end Lowers

namespace Glob

/-- A wildcard rule of a text finds a name just where the name, letter case aside, is a string of that text. -/
theorem search_ofText {lib : Library} {image : Char → Text} (laws : Lowers lib.lower image) (glob name : Text)
    (ascii : ∀ c ∈ name, c.toNat < 128) : (ofText lib glob).search name = true ↔
      ∃ s, StarPattern.Matches '*' glob s ∧ lib.lower s = lib.lower name := by
  have keeps : image '*' = ['*'] := laws.ascii '*' (by decide)
  rw [search_iff, Matches, ofText, laws.of_ascii ascii]
  by_cases sigma : 'Σ' ∈ glob
  · -- a sigma is in every string of the rule, and leaves a character that no name has
    obtain ⟨c, inside, high⟩ := laws.sigma glob sigma
    constructor
    · intro found
      have other : c ≠ '*' := fun same => absurd high (by rw [same]; decide)
      have low := (laws.fixed ascii (StarPattern.mem_of_matches other _ inside found)).1
      omega
    · rintro ⟨s, found, same⟩
      obtain ⟨d, there, above⟩ := laws.sigma s (StarPattern.mem_of_matches (by decide) s sigma found)
      rw [same] at there
      have low := (laws.fixed ascii there).1
      omega
  · rw [laws.plain glob sigma]
    constructor
    · intro found
      obtain ⟨s, inside, same, origin⟩ := found.exists_flatMap keeps laws.star fun c held => (laws.fixed ascii held).2
      have apart : 'Σ' ∉ s := by
        intro held
        rcases origin _ held with pattern | text
        · exact sigma pattern
        · exact absurd (laws.fixed ascii text).1 (by decide)
      exact ⟨s, inside, by rw [laws.plain s apart, same]⟩
    · rintro ⟨s, found, same⟩
      have apart : 'Σ' ∉ s := by
        intro held
        obtain ⟨c, there, above⟩ := laws.sigma s held
        rw [same] at there
        have low := (laws.fixed ascii there).1
        omega
      rw [← same, laws.plain s apart]
      exact found.flatMap keeps laws.star

/-- Lowering of ASCII letters alone. -/
def plainLibrary : Library := ⟨fun _ _ => false, fun _ _ => false, fun _ => none, Name.lowerText⟩

theorem plainLibrary_lowers : Lowers plainLibrary.lower fun c => [c.toLower] where
  ascii _ _ := rfl
  plain s _ := List.map_eq_flatMap
  sigma s held := ⟨'Σ', List.mem_map.mpr ⟨'Σ', held, by simp [Char.toLower]⟩, by simp⟩
  star c other held := by
    rw [List.mem_singleton] at held
    unfold Char.toLower at held
    split at held
    · next upper =>
        have value := congrArg (fun d => d.val.toNat) held
        have low := UInt32.le_iff_toNat_le.mp upper.1
        have high := UInt32.le_iff_toNat_le.mp upper.2
        simp at low high value
        omega
    · exact other held.symm

theorem search_ofText_example : (ofText plainLibrary ['A', '*', 'Z']).search ['a', 'B', 'z'] = true ↔
    ∃ s, StarPattern.Matches '*' ['A', '*', 'Z'] s ∧ plainLibrary.lower s = plainLibrary.lower ['a', 'B', 'z'] :=
  search_ofText plainLibrary_lowers _ _ (by simp)

end Glob

/-- What a rule's `regex` holds. -/
inductive Pattern where
  | regex (pattern : Text)
  | glob (g : Glob)
  deriving DecidableEq

namespace Pattern

def pattern : Pattern → Text
  | .regex pattern => pattern
  | .glob g => g.pattern

def search (lib : Library) : Pattern → Text → Bool
  | .regex pattern, name => lib.search pattern name
  | .glob g, name => g.search name

end Pattern

/-- The result of a `$dnsrewrite` modifier. -/
structure Rewrite where
  rcode : Option Nat
  rdata : Option Rdata
  rtype : Nat
  deriving DecidableEq

structure Rule where
  raw : Text
  block : Bool := true
  suffix : Option Text := none
  exact : Option Text := none
  regex : Option Pattern := none
  important : Bool := false
  badfilter : Bool := false
  dnstypes : Option (Finset Nat) := none
  dnstypesNot : Option (Finset Nat) := none
  ctags : Option (Finset Text) := none
  ctagsNot : Option (Finset Text) := none
  clients : Option (Finset Text) := none
  clientsNot : Option (Finset Text) := none
  denyallow : List Text := []
  rewrite : Option Rewrite := none
  source : Text := []

def allowlist : Text := "allowlist".toList

def denylist : Text := "denylist".toList

def operatorRules (lib : Library) (allow deny : List Text) : List Rule :=
  (allow.map fun d =>
    { raw := d, block := false, important := true, suffix := some (lib.lower d)
      source := allowlist }) ++
  deny.map fun d => { raw := d, suffix := some (lib.lower d), source := denylist }

end Trench.Filter
