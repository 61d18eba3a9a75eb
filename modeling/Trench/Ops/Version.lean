import Mathlib
import Trench.Lib.Digits
import Trench.Lib.IgnoreCase
import Trench.Lib.TrailingZeros
import Trench.Wire.NameText

set_option autoImplicit false

/- The updater's versions. The pattern `_VERSION` is what `re` makes of it: every way to
read a text in the order they are tried, of which a match is the first that reaches the
end. A decimal digit is what Unicode says it is. -/

namespace Trench.Ops

open Wire IgnoreCase

structure Unicode where
  /-- The value of a character that `\d` matches. -/
  digit : Char → Option Nat
  lower : Text → Text

/-- The digits of the ASCII range and no others. -/
def Unicode.ascii : Unicode where
  digit c := if '0' ≤ c ∧ c ≤ '9' then some (c.toNat - 48) else none
  lower := Name.lowerText

/-- What `int` raises for more digits than `sys.int_info` lets it convert. -/
inductive ValueError where
  | tooManyDigits
  deriving DecidableEq

namespace Version

abbrev Piece := StateT Text List

def word (p : Text) : Piece Text := fun s =>
  if spells p (s.take p.length) then [(s.take p.length, s.drop p.length)] else []

/-- A piece that may be left out, which is tried last. -/
def optional {α : Type} (p : Piece α) : Piece (Option α) := fun s =>
  ((p s).map fun (a, rest) => (some a, rest)) ++ [(none, s)]

/-- A piece as often as it can be read, at most so many times. -/
def many {α : Type} (p : Piece α) : Nat → Piece (List α)
  | 0 => pure []
  | n + 1 => fun s =>
      ((p s).flatMap fun (a, rest) => (many p n rest).map fun (found, left) => (a :: found, left)) ++
        [([], s)]

def digits (u : Unicode) : Piece Text
  | [] => [([], [])]
  | c :: s =>
      if (u.digit c).isSome then
        ((digits u s).map fun (found, rest) => (c :: found, rest)) ++ [([], c :: s)]
      else [([], c :: s)]

def digits1 (u : Unicode) : Piece Text := fun s => (digits u s).filter fun (found, _) => found ≠ []

def dot : Piece Text := word ['.']

/-- The alternatives of `pre_l`, in the order of the pattern. -/
def labels : List Text :=
  ["a", "b", "rc", "alpha", "beta", "c", "pre", "preview"].map String.toList

/-- A pre-release part: the alternative that it was read by, the text of the label and its number. -/
structure Pre where
  label : Text
  listed : label ∈ labels
  text : Text
  spelled : spells label text = true
  number : Text

def label : Piece {p : Text × Text // p.1 ∈ labels ∧ spells p.1 p.2 = true} := fun s =>
  labels.attach.flatMap fun ⟨p, listed⟩ =>
    if spelled : spells p (s.take p.length) = true then
      [(⟨(p, s.take p.length), listed, spelled⟩, s.drop p.length)]
    else []

def prePart (u : Unicode) : Piece Pre := do
  let ⟨(p, text), listed, spelled⟩ ← label
  let _ ← optional dot
  let number ← digits u
  pure ⟨p, listed, text, spelled, number⟩

/-- A `.post` or `.dev` part. -/
def part (u : Unicode) (name : String) : Piece Text := do
  let _ ← word name.toList
  let _ ← optional dot
  digits1 u

end Version

/-- The groups of a match; the release is cut at its dots. -/
structure Version where
  release : List Text
  pre : Option Version.Pre
  post : Option Text
  dev : Option Text

namespace Version

def groups (u : Unicode) (length : Nat) : Piece Version := do
  let _ ← optional (word ['v'])
  let first ← digits1 u
  let more ← many (do let _ ← dot; digits1 u) length
  let pre ← optional (prePart u)
  let post ← optional (part u ".post")
  let dev ← optional (part u ".dev")
  pure ⟨first :: more, pre, post, dev⟩

/-- `_VERSION.match` -/
def match? (u : Unicode) (text : Text) : Option Version :=
  ((groups u text.length (text.dropWhile Name.isSpace)).find? fun (_, rest) =>
    rest.all Name.isSpace).map Prod.fst

end Version

/-- The number that decimal digits spell. -/
def Unicode.value (u : Unicode) (s : Text) : Nat := Digits.value 10 (s.filterMap u.digit)

/-- `int` of a text of digits -/
def Unicode.int (u : Unicode) (s : Text) : Except ValueError Nat :=
  if 4300 < s.length then .error .tooManyDigits else .ok (u.value s)

/-- `str.lower` on the characters that a label can be spelled with. -/
def lowerLabel (s : Text) : Text := s.flatMap fun c => if c = 'İ' then ['i', '\u0307'] else [c.toLower]

def preOrder (stage : Option Text) : Int :=
  ([(some "dev".toList, -2), (some "a".toList, -1), (some "b".toList, 0), (some "rc".toList, 1),
    (none, 2), (some "post".toList, 3)].lookup stage).getD 2

def preAlias (stage : Text) : Text :=
  ([("alpha", "a"), ("beta", "b"), ("c", "rc"), ("pre", "rc"), ("preview", "rc")].map
    (Prod.map String.toList String.toList)).lookup stage |>.getD stage

/-- Tuples as Python compares them. -/
abbrev Key := List Nat ×ₗ ℤ ×ₗ Nat

/-- `stage` and `number` of `parse_version` -/
def stageNumber (u : Unicode) (m : Version) : Except ValueError (Option Text × Nat) :=
  match m.dev, m.post, m.pre with
  | some dev, _, _ => (u.int dev).map fun n => (some "dev".toList, n)
  | none, some post, _ => (u.int post).map fun n => (some "post".toList, n)
  | none, none, some p =>
      (if p.number = [] then .ok 0 else u.int p.number).map fun n => (some (preAlias (lowerLabel p.text)), n)
  | none, none, none => .ok (none, 0)

def parseVersion (u : Unicode) (text : Text) : Except ValueError (Option Key) :=
  match Version.match? u text with
  | none => .ok none
  | some m => do
      let release ← m.release.mapM u.int
      let release := TrailingZeros.pad 4 release
      let (stage, number) ← stageNumber u m
      pure (some (toLex (release, toLex (preOrder stage, number))))

def isPrerelease (u : Unicode) (text : Text) : Except ValueError Bool := do
  match ← parseVersion u text with
  | none => pure false
  | some key => pure (decide ((ofLex (ofLex key).2).1 < 2))

def isNewer (u : Unicode) (candidate current : Text) : Except ValueError Bool := do
  let a ← parseVersion u candidate
  let b ← parseVersion u current
  match a, b with
  | some a, some b => pure (decide (b < a))
  | _, _ => pure false

/-! ### Releases -/

structure Asset where
  name : Text
  digest : Text
  url : Text
  size : Nat

structure Entry where
  draft : Bool
  prerelease : Bool
  tagName : Text
  assets : List Asset

structure Release where
  version : Text
  url : Text
  sha256 : Text
  size : Nat
  deriving DecidableEq

def distName : Text := "trench-dns".toList

/-- Every run of `-`, `_` and `.` as one `-`; `after` tells that the last character was one of them. -/
def dashes (after : Bool) : Text → Text
  | [] => []
  | c :: s =>
      if c = '-' ∨ c = '_' ∨ c = '.' then (if after then [] else ['-']) ++ dashes true s
      else c :: dashes false s

def normalize (u : Unicode) (name : Text) : Text := u.lower (dashes false (Name.strip name))

def wheelDist (u : Unicode) (name : Text) : Text :=
  if !".whl".toList.isSuffixOf name then [] else normalize u (name.takeWhile (· ≠ '-'))

def releaseVersion (release : Entry) : Text :=
  match Name.strip release.tagName with
  | c :: rest => if c = 'v' ∨ c = 'V' then rest else c :: rest
  | [] => []

def ourWheel (u : Unicode) (release : Entry) : Option Release :=
  release.assets.findSome? fun asset =>
    let algo := asset.digest.takeWhile (· ≠ ':')
    let digest := (asset.digest.dropWhile (· ≠ ':')).drop 1
    if wheelDist u asset.name ≠ normalize u distName then none
    else if u.lower algo ≠ "sha256".toList ∨ digest = [] ∨ asset.url = [] then none
    else some ⟨releaseVersion release, asset.url, u.lower digest, asset.size⟩

/-- Whether the version of an entry is the one that is wanted, or one to move to. -/
def offered (u : Unicode) (current : Text) (allowPrerelease : Bool) (want : Option Text) (entry : Entry) :
    Except ValueError Bool :=
  let version := releaseVersion entry
  match want with
  | some want => .ok (version == want)
  | none => do
      let early ← if allowPrerelease then pure false
        else if entry.prerelease then pure true else isPrerelease u version
      if early then pure false else isNewer u version current

/-- What one entry of the index adds to the candidates. -/
def fromIndex (u : Unicode) (current : Text) (allowPrerelease : Bool) (want : Option Text) (entry : Entry) :
    Except ValueError (Option (Key × Release)) :=
  if entry.draft then .ok none
  else match parseVersion u (releaseVersion entry) with
    | .error e => .error e
    | .ok none => .ok none
    | .ok (some key) => (offered u current allowPrerelease want entry).map fun taken =>
        if taken then (ourWheel u entry).map fun wheel => (key, wheel) else none

/-- `max` by the key: of two that are level the first. -/
def newest : List (Key × Release) → Option (Key × Release) :=
  List.foldl (fun best c => match best with
    | none => some c
    | some b => if b.1 < c.1 then some c else some b) none

def pickRelease (u : Unicode) (index : List Entry) (current : Text) (allowPrerelease : Bool) (want : Option Text) :
    Except ValueError (Option Release) := do
  let candidates ← index.mapM (fromIndex u current allowPrerelease want)
  return (newest (candidates.filterMap id)).map Prod.snd

/-! ### What the pattern can have read as a label -/

theorem lowerLabel_of_spells {p t : Text} (spelled : spells p t = true)
    (plain : ∀ c ∈ t, c.toNat < 128) : lowerLabel t = p := by
  induction p generalizing t with
  | nil =>
      cases t with
      | nil => rfl
      | cons c t => simp [spells] at spelled
  | cons p ps ih =>
      cases t with
      | nil => simp [spells] at spelled
      | cons c t =>
          rw [spells, Bool.and_eq_true] at spelled
          have small := plain c List.mem_cons_self
          have tail := ih spelled.2 fun d held => plain d (List.mem_cons_of_mem c held)
          have same := toLower_of_letter spelled.1 small
          have undotted : c ≠ 'İ' := by
            rintro rfl
            exact absurd small (by decide)
          rw [lowerLabel, List.flatMap_cons, if_neg undotted, same, ← lowerLabel, tail]
          rfl

/-- The place of a label's text in `_PRE_ORDER`. -/
def labelStage (text : Text) : Int := preOrder (some (preAlias (lowerLabel text)))

/-- The letter of PEP 440 for an alternative of the pattern: alpha, beta, release candidate. -/
def pepLetter (label : Text) : Int :=
  if label = "a".toList ∨ label = "alpha".toList then -1
  else if label = "b".toList ∨ label = "beta".toList then 0
  else 1

theorem stage_listed : ∀ label ∈ Version.labels, preOrder (some (preAlias label)) = pepLetter label := by
  decide

theorem pepLetter_bounds (label : Text) : -1 ≤ pepLetter label ∧ pepLetter label ≤ 1 := by
  unfold pepLetter
  split
  · decide
  · split <;> decide

theorem labelStage_of_ascii (p : Version.Pre) (plain : ∀ c ∈ p.text, c.toNat < 128) :
    labelStage p.text = pepLetter p.label := by
  rw [labelStage, lowerLabel_of_spells p.spelled plain]
  exact stage_listed p.label p.listed

/-- The one label with an `i` in it, spelled with a dotless or a dotted one, is none to the code. -/
theorem labelStage_of_not_ascii (p : Version.Pre) (foreign : ¬ ∀ c ∈ p.text, c.toNat < 128) :
    labelStage p.text = 2 := by
  have plain : ∀ label ∈ Version.labels, label ≠ "preview".toList →
      ∀ c ∈ label, c.toNat < 128 ∧ c ≠ 's' ∧ c ≠ 'i' ∧ c ≠ 'k' := by simp [Version.labels]
  have only : p.label = "prev".toList ++ (['i'] ++ "ew".toList) := by
    by_contra other
    exact foreign (ascii_of_spells p.spelled (plain p.label p.listed other))
  have spelled := p.spelled
  rw [only] at spelled
  obtain ⟨front, back, cut, prev, rest⟩ := exists_spells_append spelled
  obtain ⟨middle, ew, rfl, i, last⟩ := exists_spells_append rest
  have prevPlain := ascii_of_spells prev (by simp)
  have lastPlain := ascii_of_spells last (by simp)
  obtain ⟨c, rfl⟩ := List.length_eq_one_iff.mp (length_of_spells i)
  have odd : c = 'ı' ∨ c = 'İ' := by
    have high : ¬ c.toNat < 128 := by
      intro small
      refine foreign ?_
      rw [cut]
      simp only [List.mem_append, List.mem_singleton]
      rintro d (held | rfl | held)
      · exact prevPlain d held
      · exact small
      · exact lastPlain d held
    simp only [spells, letter, Bool.and_true, Bool.or_eq_true, Bool.and_eq_true, beq_iff_eq, true_and] at i
    rcases i with ((lower | ⟨other, -⟩) | odd) | ⟨other, -⟩
    · exact absurd (lt_of_toLower_lt (by rw [lower]; decide)) high
    · cases other
    · exact odd
    · cases other
  have lowered : lowerLabel p.text = "prev".toList ++ (lowerLabel [c] ++ "ew".toList) := by
    rw [cut, lowerLabel, List.flatMap_append, List.flatMap_append, ← lowerLabel, ← lowerLabel,
      ← lowerLabel, lowerLabel_of_spells prev prevPlain, lowerLabel_of_spells last lastPlain]
  rw [labelStage, lowered]
  rcases odd with rfl | rfl <;> decide

/-! ### The order of PEP 440 -/

namespace Version

variable (u : Unicode)

def IsPre (m : Version) : Prop := m.pre.isSome ∨ m.dev.isSome

def postOrder (m : Version) : WithBot Nat := match m.post with
  | some post => (u.value post : WithBot Nat)
  | none => ⊥

def devOrder (m : Version) : WithTop Nat := match m.dev with
  | some dev => (u.value dev : WithTop Nat)
  | none => ⊤

/-- What goes before the dev part in PEP 440's key: the pre-release and the post-release, where a
dev release of the release itself is before every pre-release of it. -/
def stem (m : Version) : (ℤ ×ₗ Nat) ×ₗ WithBot Nat :=
  let pre : ℤ ×ₗ Nat := match m.pre, m.post, m.dev with
    | some p, _, _ => toLex (pepLetter p.label, u.value p.number)
    | none, none, some _ => toLex (-2, 0)
    | none, _, _ => toLex (2, 0)
  toLex (pre, m.postOrder u)

/-- The order of the parts after the release. -/
def rest (m : Version) : ((ℤ ×ₗ Nat) ×ₗ WithBot Nat) ×ₗ WithTop Nat :=
  toLex (m.stem u, m.devOrder u)

def numbers (m : Version) : List Nat := m.release.map u.value

/-- The key of PEP 440, of a release without the zeros at its end. -/
def pep (m : Version) : List Nat ×ₗ ((ℤ ×ₗ Nat) ×ₗ WithBot Nat) ×ₗ WithTop Nat :=
  toLex (TrailingZeros.core (m.numbers u), m.rest u)

/-- The segments of the release in the code's key. -/
def width (m : Version) : Nat := max 4 m.release.length

/-- A pre-release part stands alone or beside a dev part, and alone with an ASCII label. -/
def Exact (m : Version) : Prop := m.dev = none → ∀ p ∈ m.pre, m.post = none ∧ ∀ c ∈ p.text, c.toNat < 128

/-- Two versions of one release, up to zeros at its end, whose parts after it agree with what the
code looks at: the longer release, then a dev part alone. -/
def Agree (a b : Version) : Prop :=
  TrailingZeros.core (a.numbers u) = TrailingZeros.core (b.numbers u) →
    (a.width < b.width → a.rest u < b.rest u) ∧ (b.width < a.width → b.rest u < a.rest u) ∧
    (a.width = b.width → match a.dev, b.dev with
      | some d, some e => (a.stem u < b.stem u → u.value d < u.value e) ∧
          (b.stem u < a.stem u → u.value e < u.value d)
      | some _, none => a.stem u ≤ b.stem u
      | none, some _ => b.stem u ≤ a.stem u
      | none, none => True)

/-- The stage and the number of the code's key. -/
def mark (m : Version) : ℤ ×ₗ Nat := toLex <| match m.dev, m.post, m.pre with
  | some dev, _, _ => (-2, u.value dev)
  | none, some post, _ => (3, u.value post)
  | none, none, some p => (labelStage p.text, u.value p.number)
  | none, none, none => (2, 0)

def key (m : Version) : Key := toLex (TrailingZeros.pad 4 (m.numbers u), m.mark u)

end Version

theorem Unicode.int_eq_ok {u : Unicode} {s : Text} {n : Nat} (read : u.int s = .ok n) : u.value s = n := by
  unfold Unicode.int at read
  split at read
  · cases read
  · exact Except.ok.inj read

theorem Unicode.mapM_int {u : Unicode} {parts : List Text} {ns : List Nat} (read : parts.mapM u.int = .ok ns) :
    parts.map u.value = ns := by
  induction parts generalizing ns with
  | nil =>
      rw [List.mapM_nil] at read
      exact Except.ok.inj read
  | cons s parts ih =>
      rw [List.mapM_cons] at read
      cases first : u.int s with
      | error e =>
          rw [first] at read
          cases read
      | ok n =>
          cases others : parts.mapM u.int with
          | error e =>
              rw [first, others] at read
              cases read
          | ok rest =>
              rw [first, others] at read
              rw [List.map_cons, int_eq_ok first, ih others]
              exact Except.ok.inj read

theorem stageNumber_eq_ok {u : Unicode} {m : Version} {stage : Option Text} {n : Nat}
    (read : stageNumber u m = .ok (stage, n)) : m.mark u = toLex (preOrder stage, n) := by
  have number {s : Text} {f : Nat → Option Text × Nat} (read : (u.int s).map f = .ok (stage, n)) :
      f (u.value s) = (stage, n) := by
    cases converted : u.int s with
    | error e =>
        rw [converted] at read
        cases read
    | ok v =>
        rw [converted] at read
        rw [Unicode.int_eq_ok converted]
        exact Except.ok.inj read
  rcases m with ⟨release, pre, post, dev⟩
  unfold stageNumber at read
  unfold Version.mark
  rcases dev with _ | dev
  · rcases post with _ | post
    · rcases pre with _ | p
      · obtain ⟨rfl, rfl⟩ := Except.ok.inj read
        rfl
      · dsimp only at read ⊢
        split at read
        · next none =>
            obtain ⟨rfl, rfl⟩ := Except.ok.inj read
            rw [none]
            rfl
        · obtain ⟨rfl, rfl⟩ := number read
          rfl
    · obtain ⟨rfl, rfl⟩ := number read
      rfl
  · obtain ⟨rfl, rfl⟩ := number read
    rfl

/-- What a text that is a version has for its key. -/
theorem parseVersion_eq_some {u : Unicode} {text : Text} {k : Key} (read : parseVersion u text = .ok (some k)) :
    ∃ m, Version.match? u text = some m ∧ k = m.key u := by
  unfold parseVersion at read
  split at read
  · cases Except.ok.inj read
  · next m matched =>
      refine ⟨m, matched, ?_⟩
      cases segments : m.release.mapM u.int with
      | error e =>
          rw [segments] at read
          cases read
      | ok release =>
          cases staged : stageNumber u m with
          | error e =>
              rw [segments, staged] at read
              cases read
          | ok pair =>
              rw [segments, staged] at read
              rw [Version.key, Version.numbers, Unicode.mapM_int segments, stageNumber_eq_ok staged]
              exact (Option.some.inj (Except.ok.inj read)).symm

namespace Version

variable {u : Unicode} {a b : Version}

theorem isPre_iff (m : Version) (u : Unicode) : ((ofLex (m.mark u)).1 < 2 ↔ m.IsPre) ↔ m.Exact := by
  rcases m with ⟨release, pre, post, dev⟩
  unfold mark IsPre Exact
  rcases dev with _ | dev
  · rcases post with _ | post
    · rcases pre with _ | p
      · simp
      · by_cases plain : ∀ c ∈ p.text, c.toNat < 128
        · have low := (pepLetter_bounds p.label).2
          have stage := labelStage_of_ascii p plain
          simp only [stage, ofLex_toLex, Option.isSome_some, true_or, iff_true, Option.mem_def, Option.some.injEq,
            forall_eq', true_and, forall_const]
          exact iff_of_true (by omega) plain
        · have stage := labelStage_of_not_ascii p plain
          simp only [stage, ofLex_toLex, Option.isSome_some, true_or, iff_true, Option.mem_def, Option.some.injEq,
            forall_eq', true_and, forall_const]
          exact iff_of_false (lt_irrefl 2) plain
    · rcases pre with _ | p <;> simp
  · simp

theorem key_lt_iff : a.key u < b.key u ↔
    TrailingZeros.core (a.numbers u) < TrailingZeros.core (b.numbers u) ∨
      TrailingZeros.core (a.numbers u) = TrailingZeros.core (b.numbers u) ∧
        (a.width < b.width ∨ a.width = b.width ∧ a.mark u < b.mark u) := by
  have length (m : Version) : (TrailingZeros.pad 4 (m.numbers u)).length = m.width := by
    rw [TrailingZeros.length_pad, numbers, List.length_map, width]
  rw [key, key, Prod.Lex.toLex_lt_toLex]
  dsimp only
  rw [TrailingZeros.eq_iff (TrailingZeros.pad 4 _), TrailingZeros.lt_iff, length, length, TrailingZeros.core_pad,
    TrailingZeros.core_pad]
  tauto

theorem pep_lt_iff : a.pep u < b.pep u ↔
    TrailingZeros.core (a.numbers u) < TrailingZeros.core (b.numbers u) ∨
      TrailingZeros.core (a.numbers u) = TrailingZeros.core (b.numbers u) ∧ a.rest u < b.rest u := by
  rw [pep, pep, Prod.Lex.toLex_lt_toLex]

theorem mark_of_dev {dev : Text} (found : a.dev = some dev) : a.mark u = toLex (-2, u.value dev) := by
  rcases a with ⟨release, pre, post, _ | dev⟩
  · cases found
  · obtain rfl := Option.some.inj found
    rfl

/-- A version without a dev part is marked above every one that has it. -/
theorem mark_of_no_dev (undev : a.dev = none) (exact : a.Exact) : -2 < (ofLex (a.mark u)).1 := by
  rcases a with ⟨release, pre, post, _ | dev⟩
  · rcases post with _ | post
    · rcases pre with _ | p
      · exact show (-2 : Int) < 2 by decide
      · have plain := (exact rfl p rfl).2
        have low := (pepLetter_bounds p.label).1
        change -2 < labelStage p.text
        rw [labelStage_of_ascii p plain]
        omega
    · exact show (-2 : Int) < 3 by decide
  · cases undev

/-- A version without a dev part is a pre-release, a post-release or a release. -/
theorem plain_cases (undev : a.dev = none) (exact : a.Exact) (u : Unicode) :
    (∃ p : Pre, a.mark u = toLex (pepLetter p.label, u.value p.number) ∧
      a.stem u = toLex (toLex (pepLetter p.label, u.value p.number), ⊥)) ∨
    (∃ n : Nat, a.mark u = toLex (3, n) ∧ a.stem u = toLex (toLex (2, 0), (n : WithBot Nat))) ∨
    (a.mark u = toLex (2, 0) ∧ a.stem u = toLex (toLex (2, 0), ⊥)) := by
  rcases a with ⟨release, pre, post, dev⟩
  obtain rfl : dev = none := undev
  rcases pre with _ | p
  · rcases post with _ | post
    · exact .inr (.inr ⟨rfl, rfl⟩)
    · exact .inr (.inl ⟨u.value post, rfl, rfl⟩)
  · obtain ⟨rfl, plain⟩ : post = none ∧ ∀ c ∈ p.text, c.toNat < 128 := exact rfl p rfl
    refine .inl ⟨p, ?_, rfl⟩
    rw [← labelStage_of_ascii p plain]
    rfl

/-- Without dev parts the code's stages are in the order of the parts they stand for. -/
theorem mark_lt_iff_stem (undev : a.dev = none) (undev' : b.dev = none) (exact : a.Exact) (exact' : b.Exact) :
    a.mark u < b.mark u ↔ a.stem u < b.stem u := by
  rcases plain_cases undev exact u with ⟨p, m, st⟩ | ⟨n, m, st⟩ | ⟨m, st⟩ <;>
    rcases plain_cases undev' exact' u with ⟨p', m', st'⟩ | ⟨n', m', st'⟩ | ⟨m', st'⟩ <;>
    rw [m, m', st, st'] <;> simp [Prod.Lex.toLex_lt_toLex]
  · have bounds := pepLetter_bounds p.label
    omega
  · have bounds := pepLetter_bounds p'.label
    omega

theorem rest_lt_iff : a.rest u < b.rest u ↔
    a.stem u < b.stem u ∨ a.stem u = b.stem u ∧ a.devOrder u < b.devOrder u := by
  rw [rest, rest, Prod.Lex.toLex_lt_toLex]

theorem mark_lt_iff (exact : a.Exact) (exact' : b.Exact) :
    ((a.mark u < b.mark u ↔ a.rest u < b.rest u) ∧ (b.mark u < a.mark u ↔ b.rest u < a.rest u)) ↔
      match a.dev, b.dev with
      | some d, some e => (a.stem u < b.stem u → u.value d < u.value e) ∧
          (b.stem u < a.stem u → u.value e < u.value d)
      | some _, none => a.stem u ≤ b.stem u
      | none, some _ => b.stem u ≤ a.stem u
      | none, none => True := by
  have before {m n : Version} {d : Text} (dev : m.dev = some d) (undev : n.dev = none) (plain : n.Exact) :
      m.mark u < n.mark u ∧ ¬ n.mark u < m.mark u := by
    have low : m.mark u < n.mark u := by
      rw [mark_of_dev dev, Prod.Lex.lt_iff]
      exact .inl (mark_of_no_dev undev plain)
    exact ⟨low, low.not_gt⟩
  have upTo {m n : Version} {d : Text} (dev : m.dev = some d) (undev : n.dev = none) :
      m.rest u < n.rest u ↔ m.stem u ≤ n.stem u := by
    have first : m.devOrder u < n.devOrder u := by
      rw [devOrder, devOrder, dev, undev]
      exact WithTop.coe_lt_top _
    rw [rest_lt_iff, le_iff_lt_or_eq, and_iff_left first]
  cases dev : a.dev with
  | none =>
      cases dev' : b.dev with
      | none =>
          have top (m : Version) (undev : m.dev = none) : m.devOrder u = ⊤ := by rw [devOrder, undev]
          refine iff_of_true ⟨?_, ?_⟩ trivial
          · rw [mark_lt_iff_stem dev dev' exact exact', rest_lt_iff, top a dev, top b dev']
            simp
          · rw [mark_lt_iff_stem dev' dev exact' exact, rest_lt_iff, top a dev, top b dev']
            simp
      | some e =>
          obtain ⟨low, high⟩ := before dev' dev exact
          rw [iff_false_left high, iff_true_left low, upTo dev' dev, not_lt]
          exact and_iff_right_of_imp fun below => ((upTo dev' dev).mpr below).le
  | some d =>
      cases dev' : b.dev with
      | none =>
          obtain ⟨low, high⟩ := before dev dev' exact'
          rw [iff_true_left low, iff_false_left high, upTo dev dev', not_lt]
          exact and_iff_left_of_imp fun below => ((upTo dev dev').mpr below).le
      | some e =>
          have marks {m n : Version} {d e : Text} (dev : m.dev = some d) (dev' : n.dev = some e) :
              m.mark u < n.mark u ↔ u.value d < u.value e := by
            rw [mark_of_dev dev, mark_of_dev dev', Prod.Lex.toLex_lt_toLex]
            simp
          have rests {m n : Version} {d e : Text} (dev : m.dev = some d) (dev' : n.dev = some e) :
              m.rest u < n.rest u ↔ m.stem u < n.stem u ∨ m.stem u = n.stem u ∧ u.value d < u.value e := by
            rw [rest_lt_iff, devOrder, devOrder, dev, dev']
            simp
          rw [marks dev dev', marks dev' dev, rests dev dev', rests dev' dev]
          rcases lt_trichotomy (a.stem u) (b.stem u) with less | same | more
          · simp [less, less.not_gt, less.ne, less.ne']
            omega
          · simp [same]
          · simp [more, more.not_gt, more.ne, more.ne']
            omega

/-- Between versions with exact stages the code's order is PEP 440's where they agree. -/
theorem key_iff_pep (exact : a.Exact) (exact' : b.Exact) :
    (a.key u < b.key u ↔ a.pep u < b.pep u) ∧ (b.key u < a.key u ↔ b.pep u < a.pep u) ↔ a.Agree u b := by
  rw [key_lt_iff, key_lt_iff, pep_lt_iff, pep_lt_iff]
  rcases lt_trichotomy (TrailingZeros.core (a.numbers u)) (TrailingZeros.core (b.numbers u)) with less | same | more
  · simp [less, less.not_gt, less.ne, less.ne', Agree]
  · have marks := mark_lt_iff (u := u) exact exact'
    unfold Agree
    rcases lt_trichotomy a.width b.width with narrow | level | wide
    · simp only [same, lt_irrefl, false_or, true_and, narrow, narrow.not_gt, narrow.ne, narrow.ne',
        false_and, or_false, true_iff, false_iff, not_lt, forall_const, IsEmpty.forall_iff, and_true]
      exact and_iff_left_of_imp le_of_lt
    · simp only [same, lt_irrefl, false_or, true_and, level, forall_const, IsEmpty.forall_iff]
      exact marks
    · simp only [same, lt_irrefl, false_or, true_and, wide, wide.not_gt, wide.ne, wide.ne',
        false_and, or_false, true_iff, false_iff, not_lt, forall_const, IsEmpty.forall_iff, and_true]
      exact and_iff_right_of_imp le_of_lt
  · simp [more, more.not_gt, more.ne, more.ne', Agree]

end Version

/-- The version of a text is later than that of another in the order of PEP 440. -/
def Later (u : Unicode) (candidate current : Text) : Prop :=
  ∃ a b, Version.match? u candidate = some a ∧ Version.match? u current = some b ∧ b.pep u < a.pep u

theorem isNewer_eq_true {u : Unicode} {s t : Text} : isNewer u s t = .ok true ↔
    ∃ j k, parseVersion u s = .ok (some j) ∧ parseVersion u t = .ok (some k) ∧ k < j := by
  unfold isNewer
  rcases parseVersion u s with e | _ | j <;> rcases parseVersion u t with e' | _ | k <;>
    simp [bind, Except.bind, pure, Except.pure]

theorem isPrerelease_eq {u : Unicode} {s : Text} {k : Key} (read : parseVersion u s = .ok (some k)) :
    isPrerelease u s = .ok (decide ((ofLex (ofLex k).2).1 < 2)) := by
  rw [isPrerelease, read]
  rfl

theorem version_of_ourWheel {u : Unicode} {entry : Entry} {r : Release} (found : ourWheel u entry = some r) :
    r.version = releaseVersion entry := by
  obtain ⟨asset, -, taken⟩ := List.exists_of_findSome?_eq_some found
  dsimp only at taken
  split at taken
  · cases taken
  · split at taken
    · cases taken
    · obtain rfl := Option.some.inj taken
      rfl

theorem offered_newer {u : Unicode} {current : Text} {allow : Bool} {entry : Entry}
    (taken : offered u current allow none entry = .ok true) :
    isNewer u (releaseVersion entry) current = .ok true ∧
      (allow = false → isPrerelease u (releaseVersion entry) = .ok false) := by
  cases allow with
  | true => exact ⟨taken, fun absurd => nomatch absurd⟩
  | false =>
      cases marked : entry.prerelease with
      | true => simp [offered, marked, bind, Except.bind, pure, Except.pure] at taken
      | false =>
          cases early : isPrerelease u (releaseVersion entry) with
          | error e => simp [offered, marked, early, bind, Except.bind] at taken
          | ok early' =>
              cases early' with
              | true => simp [offered, marked, early, bind, Except.bind, pure, Except.pure] at taken
              | false =>
                  simp only [offered, marked, early, bind, Except.bind, Bool.false_eq_true, if_false] at taken
                  exact ⟨taken, fun _ => rfl⟩

/-- What a release that is not asked for by name has to be before it is a candidate. -/
theorem fromIndex_newer {u : Unicode} {current : Text} {allow : Bool} {entry : Entry} {key : Key} {r : Release}
    (found : fromIndex u current allow none entry = .ok (some (key, r))) :
    isNewer u r.version current = .ok true ∧ (allow = false → isPrerelease u r.version = .ok false) := by
  unfold fromIndex at found
  split at found
  · cases found
  · split at found
    · cases found
    · cases found
    · next k read =>
        cases taken : offered u current allow none entry with
        | error e =>
            rw [taken] at found
            cases found
        | ok taken' =>
            rw [taken] at found
            cases taken' with
            | false => cases found
            | true =>
                obtain ⟨wheel, ours, same⟩ := Option.map_eq_some_iff.mp (Except.ok.inj found)
                obtain ⟨rfl, rfl⟩ := Prod.mk.inj same
                rw [version_of_ourWheel ours]
                exact offered_newer taken

theorem exists_of_mem_mapM {ε α β : Type} {f : α → Except ε β} {xs : List α} {ys : List β}
    (done : xs.mapM f = .ok ys) {y : β} (held : y ∈ ys) : ∃ x ∈ xs, f x = .ok y := by
  induction xs generalizing ys with
  | nil =>
      rw [List.mapM_nil] at done
      obtain rfl := Except.ok.inj done
      cases held
  | cons x xs ih =>
      rw [List.mapM_cons] at done
      cases first : f x with
      | error e =>
          rw [first] at done
          cases done
      | ok z =>
          cases others : xs.mapM f with
          | error e =>
              rw [first, others] at done
              cases done
          | ok zs =>
              rw [first, others] at done
              obtain rfl := Except.ok.inj done
              rcases List.mem_cons.mp held with rfl | later
              · exact ⟨x, List.mem_cons_self, first⟩
              · obtain ⟨w, inside, image⟩ := ih others later
                exact ⟨w, List.mem_cons_of_mem x inside, image⟩

theorem newest_mem {cs : List (Key × Release)} {c : Key × Release} (found : newest cs = some c) : c ∈ cs := by
  unfold newest at found
  induction cs using List.reverseRecOn with
  | nil => cases found
  | append_singleton cs d ih =>
      rw [List.foldl_concat] at found
      rw [List.mem_append, List.mem_singleton]
      split at found
      · exact .inr (Option.some.inj found).symm
      · next b best =>
          split at found
          · exact .inr (Option.some.inj found).symm
          · obtain rfl := Option.some.inj found
            exact .inl (ih best)

theorem pickRelease_newer {u : Unicode} {index : List Entry} {current : Text} {allow : Bool} {r : Release}
    (picked : pickRelease u index current allow none = .ok (some r)) :
    isNewer u r.version current = .ok true ∧ (allow = false → isPrerelease u r.version = .ok false) := by
  unfold pickRelease at picked
  cases listed : index.mapM (fromIndex u current allow none) with
  | error e =>
      rw [listed] at picked
      cases picked
  | ok candidates =>
      rw [listed] at picked
      obtain ⟨⟨key, wheel⟩, greatest, rfl⟩ := Option.map_eq_some_iff.mp (Except.ok.inj picked)
      have held := newest_mem greatest
      obtain ⟨entry, inside, found⟩ := List.mem_filterMap.mp held
      obtain ⟨listedEntry, -, taken⟩ := exists_of_mem_mapM listed inside
      obtain rfl : entry = some (key, wheel) := found
      exact fromIndex_newer taken

/-! ### The order of the versions -/

def Accepted (u : Unicode) (text : Text) : Prop := ∃ k, parseVersion u text = .ok (some k)

/-- The keys of two texts are in the order of PEP 440, and `is_prerelease` tells for both of them. -/
structure Ordered (u : Unicode) (s t : Text) : Prop where
  order : ∀ j k a b, parseVersion u s = .ok (some j) → parseVersion u t = .ok (some k) →
    Version.match? u s = some a → Version.match? u t = some b →
    (j < k ↔ a.pep u < b.pep u) ∧ (k < j ↔ b.pep u < a.pep u) ∧ (j = k ↔ a.pep u = b.pep u)
  left : ∀ a, Version.match? u s = some a → (isPrerelease u s = .ok true ↔ a.IsPre)
  right : ∀ b, Version.match? u t = some b → (isPrerelease u t = .ok true ↔ b.IsPre)

/-- What the code looks at in two texts decides their order and whether they are pre-releases. -/
def Comparable (u : Unicode) (s t : Text) : Prop :=
  ∃ a b, Version.match? u s = some a ∧ Version.match? u t = some b ∧ a.Exact ∧ b.Exact ∧ a.Agree u b

theorem isPrerelease_iff {u : Unicode} {s : Text} {m : Version} (accepted : Accepted u s)
    (matched : Version.match? u s = some m) : (isPrerelease u s = .ok true ↔ m.IsPre) ↔ m.Exact := by
  obtain ⟨k, read⟩ := accepted
  obtain ⟨m', matched', rfl⟩ := parseVersion_eq_some read
  obtain rfl := Option.some.inj (matched.symm.trans matched')
  rw [isPrerelease_eq read, ← Version.isPre_iff m u, Except.ok.injEq, decide_eq_true_eq]
  rfl

theorem eq_iff_of_lt_iff {α β : Type} [LinearOrder α] [LinearOrder β] {a b : α} {c d : β}
    (less : a < b ↔ c < d) (more : b < a ↔ d < c) : a = b ↔ c = d := by
  constructor <;> rintro rfl
  · exact le_antisymm (not_lt.mp fun above => lt_irrefl a (more.mpr above))
      (not_lt.mp fun below => lt_irrefl a (less.mpr below))
  · exact le_antisymm (not_lt.mp fun above => lt_irrefl c (more.mp above))
      (not_lt.mp fun below => lt_irrefl c (less.mp below))

theorem ordered_iff {u : Unicode} {s t : Text} (accepted : Accepted u s) (accepted' : Accepted u t) :
    Ordered u s t ↔ Comparable u s t := by
  obtain ⟨j, read⟩ := id accepted
  obtain ⟨k, read'⟩ := id accepted'
  obtain ⟨a, matched, rfl⟩ := parseVersion_eq_some read
  obtain ⟨b, matched', rfl⟩ := parseVersion_eq_some read'
  constructor
  · rintro ⟨order, left, right⟩
    have exact := (isPrerelease_iff accepted matched).mp (left a matched)
    have exact' := (isPrerelease_iff accepted' matched').mp (right b matched')
    obtain ⟨less, more, -⟩ := order _ _ a b read read' matched matched'
    exact ⟨a, b, matched, matched', exact, exact', (Version.key_iff_pep exact exact').mp ⟨less, more⟩⟩
  · rintro ⟨a', b', found, found', exact, exact', agree⟩
    obtain rfl := Option.some.inj (matched.symm.trans found)
    obtain rfl := Option.some.inj (matched'.symm.trans found')
    obtain ⟨less, more⟩ := (Version.key_iff_pep exact exact').mpr agree
    refine ⟨?_, ?_, ?_⟩
    · intro j k m n again again' same same'
      obtain rfl := Option.some.inj (Except.ok.inj (read.symm.trans again))
      obtain rfl := Option.some.inj (Except.ok.inj (read'.symm.trans again'))
      obtain rfl := Option.some.inj (found.symm.trans same)
      obtain rfl := Option.some.inj (found'.symm.trans same')
      exact ⟨less, more, eq_iff_of_lt_iff less more⟩
    · intro m same
      obtain rfl := Option.some.inj (found.symm.trans same)
      exact (isPrerelease_iff accepted found).mpr exact
    · intro m same
      obtain rfl := Option.some.inj (found'.symm.trans same)
      exact (isPrerelease_iff accepted' found').mpr exact'

/-- `is_newer` is a strict weak order of the texts that are versions. -/
theorem isNewer_strictWeak (u : Unicode) :
    IsStrictWeakOrder {s // Accepted u s} fun s t => isNewer u s t = .ok true where
  irrefl s newer := by
    obtain ⟨j, k, read, read', less⟩ := isNewer_eq_true.mp newer
    obtain rfl := Option.some.inj (Except.ok.inj (read.symm.trans read'))
    exact lt_irrefl j less
  trans s t r newer newer' := by
    obtain ⟨i, j, read, middle, less⟩ := isNewer_eq_true.mp newer
    obtain ⟨j', k, middle', last, less'⟩ := isNewer_eq_true.mp newer'
    obtain rfl := Option.some.inj (Except.ok.inj (middle.symm.trans middle'))
    exact isNewer_eq_true.mpr ⟨i, k, read, last, less'.trans less⟩
  incomp_trans := by
    rintro ⟨s, i, first⟩ ⟨t, j, middle⟩ ⟨r, k, last⟩ ⟨less, more⟩ ⟨less', more'⟩
    have newer {s t : Text} {j k : Key} (read : parseVersion u s = .ok (some j))
        (read' : parseVersion u t = .ok (some k)) : isNewer u s t = .ok true ↔ k < j := by
      rw [isNewer_eq_true, read, read']
      simp
    simp only [newer first middle, newer middle first, newer middle last, newer last middle, newer first last,
      newer last first, not_lt] at less more less' more' ⊢
    exact ⟨less.trans less', more'.trans more⟩

/-- Versions compare as PEP 440 orders them exactly where what a key keeps of them decides it; `is_newer`
is a strict weak order, and a release that is picked is newer, by PEP 440 too where the two compare. -/
theorem versions_ordered (u : Unicode) :
    (∀ s t, Accepted u s → Accepted u t → (Ordered u s t ↔ Comparable u s t)) ∧
    IsStrictWeakOrder {s // Accepted u s} (fun s t => isNewer u s t = .ok true) ∧
    ∀ index current allow r, pickRelease u index current allow none = .ok (some r) →
      isNewer u r.version current = .ok true ∧ (allow = false → isPrerelease u r.version = .ok false) ∧
        (Comparable u r.version current → Later u r.version current ∧
          (allow = false → ∀ m, Version.match? u r.version = some m → ¬ m.IsPre)) := by
  refine ⟨fun s t accepted accepted' => ordered_iff accepted accepted', isNewer_strictWeak u, ?_⟩
  intro index current allow r picked
  obtain ⟨newer, final⟩ := pickRelease_newer picked
  refine ⟨newer, final, fun comparable => ?_⟩
  obtain ⟨j, k, read, read', less⟩ := isNewer_eq_true.mp newer
  have ordered := (ordered_iff ⟨j, read⟩ ⟨k, read'⟩).mpr comparable
  obtain ⟨a, b, matched, matched', -⟩ := comparable
  refine ⟨⟨a, b, matched, matched', (ordered.order j k a b read read' matched matched').2.1.mp less⟩, ?_⟩
  intro stable m found pre
  have early := (ordered.left m found).mpr pre
  rw [final stable] at early
  cases Except.ok.inj early

/-- A post-release of a pre-release is newer than the release to the code, and no pre-release. -/
theorem prerelease_post_newer :
    isNewer .ascii "1a.post1".toList "1".toList = .ok true ∧
      isPrerelease .ascii "1a.post1".toList = .ok false ∧
      ¬ Later .ascii "1a.post1".toList "1".toList ∧ ¬ Ordered .ascii "1a.post1".toList "1".toList := by
  have newer : isNewer .ascii "1a.post1".toList "1".toList = .ok true := by decide +kernel
  have post : (Version.match? .ascii "1a.post1".toList).map (fun m => m.pep .ascii) =
      some (toLex ([1], toLex (toLex (toLex (-1, 0), ((1 : Nat) : WithBot Nat)), ⊤))) := by decide +kernel
  have release : (Version.match? .ascii "1".toList).map (fun m => m.pep .ascii) =
      some (toLex ([1], toLex (toLex (toLex (2, 0), ⊥), ⊤))) := by decide +kernel
  have older : ¬ Later .ascii "1a.post1".toList "1".toList := by
    rintro ⟨a, b, matched, matched', less⟩
    rw [matched, Option.map_some, Option.some.injEq] at post
    rw [matched', Option.map_some, Option.some.injEq] at release
    rw [post, release] at less
    exact absurd less (by decide)
  refine ⟨newer, by decide +kernel, older, fun ordered => older ?_⟩
  obtain ⟨j, k, read, read', less⟩ := isNewer_eq_true.mp newer
  obtain ⟨a, matched, -⟩ := parseVersion_eq_some read
  obtain ⟨b, matched', -⟩ := parseVersion_eq_some read'
  exact ⟨a, b, matched, matched', (ordered.order j k a b read read' matched matched').2.1.mp less⟩

end Trench.Ops
