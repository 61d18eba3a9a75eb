import Mathlib
import Trench.AuthZone.MasterFile
import Trench.AuthZone.ZonefileServes

set_option autoImplicit false

/- How the passes over a zone file see an entry of a master file: as one line, with the blanks that
were between its fields, where no field has a character that the passes look for. -/
namespace Trench.AuthZone.MasterFile

open Wire
open Trench.Filter (words)
open Zonefile (code content joined joinedTo rstrip groups groupsFrom)

/-! ### Blanks and words -/

def Blank (s : Text) : Prop := ∀ c ∈ s, Name.isSpace c = true

theorem words_nil : words [] = [] := rfl

theorem words_append {a b : Text} {c : Char} (blank : Name.isSpace c = true) :
    words (a ++ c :: b) = words a ++ words b := by
  rw [words, List.splitOnP_append_cons a b blank, List.filter_append]
  rfl

theorem words_cons {b : Text} {c : Char} (blank : Name.isSpace c = true) : words (c :: b) = words b :=
  words_append (a := []) blank

theorem words_of_undivided {w : Text} (some : w ≠ []) (undivided : ∀ c ∈ w, Name.isSpace c = false) :
    words w = [w] := by
  rw [words, List.splitOnP_eq_singleton undivided]
  simp [some]

theorem words_blank {s : Text} (blank : Blank s) : words s = [] := by
  induction s with
  | nil => rfl
  | cons c s ih =>
      obtain ⟨here, others⟩ := List.forall_mem_cons.mp blank
      rw [words_cons here, ih others]

theorem words_append_blank (a : Text) {s : Text} (blank : Blank s) : words (a ++ s) = words a := by
  cases s with
  | nil => rw [List.append_nil]
  | cons c s =>
      obtain ⟨here, others⟩ := List.forall_mem_cons.mp blank
      rw [words_append here, words_blank others, List.append_nil]

theorem rstrip_spec (s : Text) : ∃ t, Blank t ∧ s = rstrip s ++ t := by
  refine ⟨(s.reverse.takeWhile Name.isSpace).reverse, fun c held => ?_, ?_⟩
  · exact List.mem_takeWhile_imp (List.mem_reverse.mp held)
  · rw [rstrip, List.rdropWhile, ← List.reverse_append, List.takeWhile_append_dropWhile, List.reverse_reverse]

theorem rstrip_append (s : Text) {t : Text} (blank : Blank t) : rstrip (s ++ t) = rstrip s := by
  rw [rstrip, rstrip, List.rdropWhile, List.rdropWhile, List.reverse_append, List.dropWhile_append_of_pos]
  exact fun c held => blank c (List.mem_reverse.mp held)

theorem words_rstrip (s : Text) : words (rstrip s) = words s := by
  obtain ⟨t, blank, same⟩ := rstrip_spec s
  conv_rhs => rw [same]
  rw [words_append_blank _ blank]

theorem words_lstrip (s : Text) : words (s.dropWhile Name.isSpace) = words s := by
  induction s with
  | nil => rfl
  | cons c s ih =>
      by_cases blank : Name.isSpace c = true
      · rw [List.dropWhile_cons_of_pos blank, words_cons blank, ih]
      · rw [List.dropWhile_cons_of_neg blank]

theorem words_strip (s : Text) : words (Name.strip s) = words s := by
  rw [← words_lstrip s]
  exact words_rstrip _

theorem semicolon_not_blank {s : Text} (blank : Blank s) : ';' ∉ s := fun held => by
  have space := blank ';' held
  cases space

theorem code_of_clean {s : Text} (clean : ';' ∉ s) : code s = s := by
  rw [code, List.takeWhile_eq_self_iff]
  intro c held
  exact decide_eq_true fun same => clean (same ▸ held)

theorem code_append_clean {s : Text} (clean : ';' ∉ s) (t : Text) : code (s ++ t) = s ++ code t := by
  rw [code, code, List.takeWhile_append_of_pos]
  intro c held
  exact decide_eq_true fun same => clean (same ▸ held)

theorem code_append_cut {s : Text} (cut : ';' ∈ s) (t : Text) : code (s ++ t) = code s := by
  induction s with
  | nil => cases cut
  | cons c s ih =>
      rw [List.cons_append, code, code, List.takeWhile_cons, List.takeWhile_cons]
      split
      · next other =>
          have differ : ';' ≠ c := fun same => of_decide_eq_true other same.symm
          exact congrArg (c :: ·) (ih ((List.mem_cons.mp cut).resolve_left differ))
      · rfl

/-- Blanks at the end are gone before the comment is cut or after. -/
theorem content_rstrip (s : Text) : rstrip (code (rstrip s)) = rstrip (code s) := by
  obtain ⟨t, blank, same⟩ := rstrip_spec s
  by_cases cut : ';' ∈ rstrip s
  · conv_rhs => rw [same, code_append_cut cut]
  · have whole : code s = s := by
      apply code_of_clean
      rw [same]
      exact fun held => (List.mem_append.mp held).elim cut (semicolon_not_blank blank)
    rw [code_of_clean cut, whole]
    conv_rhs => rw [same, rstrip_append _ blank]

/-! ### One line -/

/-- No field has a character that a pass over the whole line looks for. -/
def Clean (l : Line) : Prop := ∀ w ∈ l.fields, ∀ c ∈ w, c ∉ [';', '(', ')']

/-- A line as it is seen once parentheses are blanks and the comment is gone. -/
def Sign.shown : Sign → Text
  | .opening | .closing => [' ']
  | s => s.text

def Line.shown (l : Line) : Text := l.signs.flatMap Sign.shown

/-- An entry as it is seen. -/
def Layout.shown (y : Layout) : Text := rstrip ([' '].intercalate (y.lines.map Line.shown))

section

variable {l : Line}

theorem Clean.field {signs : List Sign} {comment : Option Text} (clean : Clean ⟨signs, comment⟩) {w : Text}
    (held : .field w ∈ signs) : ∀ c ∈ w, c ∉ [';', '(', ')'] :=
  clean w (List.mem_flatMap.mpr ⟨_, held, List.mem_singleton.mpr rfl⟩)

theorem Clean.tail {sign : Sign} {signs : List Sign} {comment : Option Text}
    (clean : Clean ⟨sign :: signs, comment⟩) : Clean ⟨signs, comment⟩ := fun w held =>
  clean w (List.mem_append_right _ held)

theorem semicolon_not_text {sign : Sign} (clean : ∀ w, sign = .field w → ';' ∉ w) : ';' ∉ sign.text := by
  cases sign with
  | field w => exact clean w rfl
  | blank tab => cases tab <;> decide
  | opening => decide
  | closing => decide

theorem code_text (clean : Clean l) : code l.text = l.signs.flatMap Sign.text := by
  have cut : ';' ∉ l.signs.flatMap Sign.text := by
    intro held
    obtain ⟨sign, inside, here⟩ := List.mem_flatMap.mp held
    refine semicolon_not_text (fun w same stands => ?_) here
    subst same
    exact clean.field inside ';' stands (by decide)
  rw [Line.text, code_append_clean cut]
  cases l.comment <;> simp [code]

theorem count_text {c : Char} {sign : Sign} (mark : c = '(' ∧ sign = .opening ∨ c = ')' ∧ sign = .closing)
    (signs : List Sign) (clean : ∀ w, .field w ∈ signs → c ∉ w) :
    (signs.flatMap Sign.text).count c = signs.count sign := by
  induction signs with
  | nil => rfl
  | cons first rest ih =>
      have here : first.text.count c = if first == sign then 1 else 0 := by
        cases first with
        | field w =>
            have none := clean w List.mem_cons_self
            rcases mark with ⟨rfl, rfl⟩ | ⟨rfl, rfl⟩ <;> simpa [Sign.text, List.count_eq_zero] using none
        | blank tab => rcases mark with ⟨rfl, rfl⟩ | ⟨rfl, rfl⟩ <;> cases tab <;> rfl
        | opening => rcases mark with ⟨rfl, rfl⟩ | ⟨rfl, rfl⟩ <;> rfl
        | closing => rcases mark with ⟨rfl, rfl⟩ | ⟨rfl, rfl⟩ <;> rfl
      rw [List.flatMap_cons, List.count_append, ih fun w held => clean w (List.mem_cons_of_mem _ held), List.count_cons,
        here, Nat.add_comm]

/-- The parentheses that are counted are those of the line. -/
theorem depth_text (clean : Clean l) : ((code l.text).count '(' : Int) - (code l.text).count ')' = l.depth := by
  rw [code_text clean, Line.depth, count_text (.inl ⟨rfl, rfl⟩), count_text (.inr ⟨rfl, rfl⟩)]
  · exact fun w held inside => clean.field held ')' inside (by decide)
  · exact fun w held inside => clean.field held '(' inside (by decide)

/-- Parentheses become spaces. -/
def unfold (s : Text) : Text := s.map fun c => if c = '(' ∨ c = ')' then ' ' else c

theorem unfold_signs (signs : List Sign) (clean : ∀ w, .field w ∈ signs → ∀ c ∈ w, c ∉ [';', '(', ')']) :
    unfold (signs.flatMap Sign.text) = signs.flatMap Sign.shown := by
  induction signs with
  | nil => rfl
  | cons first rest ih =>
      have others := ih fun w held => clean w (List.mem_cons_of_mem _ held)
      rw [unfold] at others ⊢
      rw [List.flatMap_cons, List.map_append, others, List.flatMap_cons]
      refine congrArg (· ++ _) ?_
      cases first with
      | field w =>
          refine (List.map_congr_left fun c held => ?_).trans (List.map_id w)
          have plain := clean w List.mem_cons_self c held
          simp only [List.mem_cons, List.not_mem_nil, or_false, not_or] at plain
          exact if_neg fun either => either.elim plain.2.1 plain.2.2
      | blank tab => cases tab <;> rfl
      | opening => rfl
      | closing => rfl

theorem unfold_text (clean : Clean l) : unfold l.text = l.shown ++ l.comment.elim [] fun t => ';' :: unfold t := by
  have signs := unfold_signs l.signs fun w held => clean.field held
  rw [Line.text, unfold, List.map_append, ← unfold, signs, Line.shown]
  cases l.comment <;> rfl

theorem semicolon_not_shown (clean : Clean l) : ';' ∉ l.shown := by
  intro held
  obtain ⟨sign, inside, here⟩ := List.mem_flatMap.mp held
  cases sign with
  | field w => exact clean.field inside ';' here (by decide)
  | blank tab =>
      cases tab
      · exact absurd here (by decide)
      · exact absurd here (by decide)
  | opening => exact absurd here (by decide)
  | closing => exact absurd here (by decide)

end

/-! ### One entry -/

/-- The lines of an entry are the ones that are joined. -/
theorem groupsFrom_held {d : Int} {lines : List Line} (held : Held d lines) (clean : ∀ l ∈ lines, Clean l)
    (before : List Text) (rest : List Text) : groupsFrom before d (lines.map Line.text ++ rest) =
      (before ++ lines.map Line.text) :: groupsFrom [] 0 rest := by
  induction held generalizing before with
  | @last d l closed =>
      have depth := depth_text (clean l List.mem_cons_self)
      rw [List.map_singleton, List.singleton_append, groupsFrom, if_pos (by omega)]
  | @more d l ls left _ ih =>
      have depth := depth_text (clean l List.mem_cons_self)
      have others := ih (fun other inside => clean other (List.mem_cons_of_mem _ inside)) (before ++ [l.text])
      rw [List.append_assoc] at others
      rw [List.map_cons, List.cons_append, groupsFrom, if_neg (by omega),
        show d + ((code l.text).count '(' : Int) - (code l.text).count ')' = d + l.depth by omega]
      exact others

/-- Comments stand behind the last field only. -/
def CommentsLast : List Line → Prop
  | [] => True
  | l :: ls => (l.comment.isSome → ls.flatMap Line.fields = []) ∧ CommentsLast ls

theorem blank_shown {signs : List Sign} (none : signs.flatMap Sign.fields = []) : Blank (signs.flatMap Sign.shown) := by
  intro c held
  obtain ⟨sign, inside, here⟩ := List.mem_flatMap.mp held
  cases sign with
  | field w => exact absurd (List.flatMap_eq_nil_iff.mp none _ inside) (List.cons_ne_nil _ _)
  | blank tab =>
      cases tab
      · rw [List.mem_singleton.mp here]
        rfl
      · rw [List.mem_singleton.mp here]
        rfl
  | opening =>
      rw [List.mem_singleton.mp here]
      rfl
  | closing =>
      rw [List.mem_singleton.mp here]
      rfl

theorem blank_lines {ls : List Line} (none : ls.flatMap Line.fields = []) :
    Blank (ls.flatMap fun l => ' ' :: l.shown) := by
  intro c held
  obtain ⟨l, inside, here⟩ := List.mem_flatMap.mp held
  rcases List.mem_cons.mp here with rfl | here
  · rfl
  · exact blank_shown (List.flatMap_eq_nil_iff.mp none l inside) c here

/-- What is cut off with a comment is blank. -/
theorem code_lines {ls : List Line} (clean : ∀ l ∈ ls, Clean l) (last : CommentsLast ls) :
    ∃ s, Blank s ∧ (ls.flatMap fun l => ' ' :: l.shown) = code (ls.flatMap fun l => ' ' :: unfold l.text) ++ s := by
  induction ls with
  | nil => exact ⟨[], fun c held => (by cases held), rfl⟩
  | cons l ls ih =>
      have mine := clean l List.mem_cons_self
      have plain : ';' ∉ ' ' :: l.shown := fun held =>
        (List.mem_cons.mp held).elim (fun same => absurd same (by decide)) (semicolon_not_shown mine)
      rw [List.flatMap_cons, List.flatMap_cons, unfold_text mine]
      cases commented : l.comment with
      | none =>
          obtain ⟨s, blank, same⟩ := ih (fun other inside => clean other (List.mem_cons_of_mem _ inside)) last.2
          refine ⟨s, blank, ?_⟩
          rw [Option.elim_none, List.append_nil, code_append_clean plain, same, List.append_assoc]
      | some t =>
          have behind := last.1 (by rw [commented]; rfl)
          refine ⟨_, blank_lines behind, ?_⟩
          rw [Option.elim_some, ← List.cons_append, List.append_assoc, code_append_clean plain, List.cons_append]
          simp [code]

theorem joinedTo_eq (buf line : Text) (some : buf ≠ []) : joinedTo buf line = buf ++ ' ' :: unfold line := by
  rw [joinedTo, if_neg some]
  rfl

theorem foldl_joinedTo (lines : List Text) (buf : Text) (some : buf ≠ []) :
    lines.foldl joinedTo buf = buf ++ lines.flatMap fun line => ' ' :: unfold line := by
  induction lines generalizing buf with
  | nil => rw [List.foldl_nil, List.flatMap_nil, List.append_nil]
  | cons line lines ih =>
      rw [List.foldl_cons, joinedTo_eq buf line some, ih _ (by simp), List.flatMap_cons, List.append_assoc]

theorem intercalate_cons (first : Text) (rest : List Text) :
    [' '].intercalate (first :: rest) = first ++ rest.flatMap fun t => ' ' :: t := by
  induction rest generalizing first with
  | nil => simp [List.intercalate]
  | cons second rest ih =>
      have tail := ih second
      rw [List.intercalate] at tail ⊢
      rw [List.intersperse_cons_cons, List.flatten_cons, List.flatten_cons, tail, List.flatMap_cons]
      simp

/-- What is open behind the first line was opened on it. -/
theorem first_not_empty {l second : Line} {ls : List Line} (held : Held 0 (l :: second :: ls)) :
    unfold l.text ≠ [] := by
  cases held with
  | more left _ =>
      rw [Line.depth] at left
      have opened : .opening ∈ l.signs := List.count_pos_iff.mp (by omega)
      have there : '(' ∈ l.signs.flatMap Sign.text := List.mem_flatMap.mpr ⟨_, opened, by decide⟩
      rw [unfold, ne_eq, List.map_eq_nil_iff]
      exact List.ne_nil_of_mem (List.mem_append_left _ there)

/-- What the file's passes leave of an entry is the entry as it is seen. -/
theorem content_joined (y : Layout) (clean : ∀ l ∈ y.lines, Clean l) (last : CommentsLast y.lines) :
    content (joined (y.lines.map Line.text)) = y.shown := by
  have held := y.held
  rw [Layout.shown, content, joined, content_rstrip]
  generalize y.lines = lines at held clean last ⊢
  obtain ⟨l, ls, rfl⟩ : ∃ l ls, lines = l :: ls := by
    cases held with
    | last _ => exact ⟨_, _, rfl⟩
    | more _ _ => exact ⟨_, _, rfl⟩
  have whole : ((l :: ls).map Line.text).foldl joinedTo [] =
      unfold l.text ++ ls.flatMap fun l => ' ' :: unfold l.text := by
    rw [List.map_cons, List.foldl_cons, show joinedTo [] l.text = unfold l.text from rfl]
    cases ls with
    | nil => simp
    | cons second more => rw [foldl_joinedTo _ _ (first_not_empty held), List.flatMap_map]
  have mine := clean l List.mem_cons_self
  have others : ∀ l ∈ ls, Clean l := fun other inside => clean other (List.mem_cons_of_mem _ inside)
  rw [whole, List.map_cons, intercalate_cons, List.flatMap_map, unfold_text mine]
  cases commented : l.comment with
  | none =>
      obtain ⟨s, blank, same⟩ := code_lines others last.2
      rw [Option.elim_none, List.append_nil, code_append_clean (semicolon_not_shown mine), same, ← List.append_assoc,
        rstrip_append _ blank]
  | some t =>
      have behind := last.1 (by rw [commented]; rfl)
      rw [Option.elim_some, List.append_assoc, code_append_clean (semicolon_not_shown mine),
        rstrip_append _ (blank_lines behind), List.cons_append]
      simp [code]

/-- The words of an entry as it is seen are those of its fields. -/
theorem words_signs {signs : List Sign} (apart : signs.IsChain fun a b => a.isField = false ∨ b.isField = false) :
    words (signs.flatMap Sign.shown) = (signs.flatMap Sign.fields).flatMap words := by
  induction signs with
  | nil => rfl
  | cons first rest ih =>
      have tail := ih apart.tail
      rw [List.flatMap_cons, List.flatMap_cons, List.flatMap_append, ← tail]
      cases first with
      | field w =>
          rw [show (Sign.field w).fields.flatMap words = words w by simp [Sign.fields]]
          cases rest with
          | nil => rw [List.flatMap_nil, List.append_nil, words_nil, List.append_nil]; rfl
          | cons second more =>
              have other := (List.isChain_cons_cons.mp apart).1.resolve_left (by simp [Sign.isField])
              rw [List.flatMap_cons]
              cases second with
              | field v => cases other
              | blank tab => cases tab <;> exact (words_append rfl).trans (congrArg (_ ++ ·) (words_cons rfl).symm)
              | opening => exact (words_append rfl).trans (congrArg (_ ++ ·) (words_cons rfl).symm)
              | closing => exact (words_append rfl).trans (congrArg (_ ++ ·) (words_cons rfl).symm)
      | blank tab => cases tab <;> exact words_cons rfl
      | opening => exact words_cons rfl
      | closing => exact words_cons rfl

theorem words_shown (y : Layout) : words y.shown = y.words.flatMap words := by
  have apart := y.apart
  rw [Layout.shown, words_rstrip, Layout.words]
  generalize y.lines = lines at apart ⊢
  induction lines with
  | nil => rfl
  | cons l ls ih =>
      obtain ⟨mine, others⟩ := List.forall_mem_cons.mp apart
      have tail := ih others
      rw [List.map_cons, List.flatMap_cons, List.flatMap_append, ← tail, Line.fields, ← words_signs mine, ← Line.shown]
      cases ls with
      | nil => rw [List.map_nil]; simp [List.intercalate, words_nil]
      | cons second more =>
          rw [List.map_cons, intercalate_cons, List.flatMap_cons, List.cons_append, words_append rfl]
          rw [← intercalate_cons]

theorem rstrip_cons_visible {c : Char} (visible : Name.isSpace c = false) (s : Text) :
    rstrip (c :: s) = c :: rstrip s := by
  obtain ⟨t, blank, same⟩ := rstrip_spec s
  have kept : rstrip (c :: rstrip s) = c :: rstrip s := by
    rw [rstrip, List.rdropWhile_eq_self_iff]
    intro filled
    by_cases empty : rstrip s = []
    · simp [empty, visible]
    · rw [List.getLast_cons empty]
      exact List.rdropWhile_last_not _ _ empty
  conv_lhs => rw [same, ← List.cons_append, rstrip_append _ blank]
  exact kept

theorem rstrip_visible {w : Text} (visible : ∀ c ∈ w, Name.isSpace c = false) (s : Text) :
    rstrip (w ++ s) = w ++ rstrip s := by
  induction w with
  | nil => rfl
  | cons c w ih =>
      obtain ⟨here, others⟩ := List.forall_mem_cons.mp visible
      rw [List.cons_append, rstrip_cons_visible here, ih others, List.cons_append]

theorem rstrip_cons {c : Char} {s : Text} (some : words s ≠ []) : rstrip (c :: s) = c :: rstrip s := by
  obtain ⟨t, blank, same⟩ := rstrip_spec s
  have filled : rstrip s ≠ [] := by
    intro empty
    rw [← words_rstrip, empty] at some
    exact some words_nil
  conv_lhs => rw [same, ← List.cons_append, rstrip_append _ blank]
  rw [rstrip, List.rdropWhile_eq_self_iff]
  intro _
  rw [List.getLast_cons filled]
  exact List.rdropWhile_last_not _ _ filled

/-- The signs of an entry up to its end, the first one apart. -/
theorem shown_cons {y : Layout} {sign : Sign} (first : y.first = some sign) :
    ∃ s, y.shown = rstrip (sign.shown ++ s) := by
  rw [Layout.first] at first
  rw [Layout.shown]
  generalize y.lines = lines at first ⊢
  obtain ⟨l, line, start⟩ := Option.bind_eq_some_iff.mp first
  obtain ⟨ls, rfl⟩ := List.head?_eq_some_iff.mp line
  obtain ⟨signs, same⟩ := List.head?_eq_some_iff.mp start
  rw [List.map_cons, intercalate_cons, Line.shown, same, List.flatMap_cons, List.append_assoc]
  exact ⟨_, rfl⟩

theorem shown_of_field {y : Layout} {w : Text} (first : y.first = some (.field w))
    (visible : ∀ c ∈ w, Name.isSpace c = false) : ∃ s, y.shown = w ++ s := by
  obtain ⟨s, same⟩ := shown_cons first
  exact ⟨rstrip s, by rw [same]; exact rstrip_visible visible s⟩

theorem shown_of_blank {y : Layout} {tab : Bool} (first : y.first = some (.blank tab)) (some : words y.shown ≠ []) :
    ∃ c s, Name.isSpace c = true ∧ y.shown = c :: s := by
  obtain ⟨s, same⟩ := shown_cons first
  have blank : ∃ c, Name.isSpace c = true ∧ (Sign.blank tab).shown = [c] := by
    cases tab <;> exact ⟨_, rfl, rfl⟩
  obtain ⟨c, space, shown⟩ := blank
  rw [shown, List.singleton_append] at same
  rw [same, words_rstrip, words_cons space] at some
  exact ⟨c, rstrip s, space, same.trans (rstrip_cons some)⟩

end Trench.AuthZone.MasterFile
