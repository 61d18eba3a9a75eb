import Mathlib

set_option autoImplicit false

/- Patterns in which one symbol stands for any string, and the search for the
pieces between them: each piece at the leftmost place after the one before. -/

namespace StarPattern

variable {α : Type} [DecidableEq α]

/-- The strings of a pattern: `star` is any string, another symbol is itself. -/
def Matches (star : α) : List α → List α → Prop
  | [], s => s = []
  | p :: ps, s =>
    (p = star ∧ ∃ gap rest, s = gap ++ rest ∧ Matches star ps rest) ∨
      (p ≠ star ∧ ∃ rest, s = p :: rest ∧ Matches star ps rest)

/-- What follows the leftmost occurrence of a piece. -/
def after (piece : List α) : List α → Option (List α)
  | [] => if piece = [] then some [] else none
  | c :: rest =>
    if piece <+: c :: rest then some ((c :: rest).drop piece.length) else after piece rest

/-- Finds the pieces one after the other. -/
def eat : List (List α) → List α → Bool
  | [], _ => true
  | piece :: pieces, s =>
    match after piece s with
    | none => false
    | some rest => eat pieces rest

/-- The pieces stand in a string one after the other, with anything between. -/
def InOrder : List (List α) → List α → Prop
  | [], _ => True
  | piece :: pieces, s => ∃ gap rest, s = gap ++ piece ++ rest ∧ InOrder pieces rest

omit [DecidableEq α] in
theorem InOrder.append_left {pieces : List (List α)} {s : List α} (inOrder : InOrder pieces s)
    (front : List α) : InOrder pieces (front ++ s) := by
  cases pieces with
  | nil => trivial
  | cons piece pieces =>
    obtain ⟨gap, rest, rfl, later⟩ := inOrder
    exact ⟨front ++ gap, rest, by simp only [List.append_assoc], later⟩

theorem after_eq_some {piece s rest : List α} (found : after piece s = some rest) :
    ∃ gap, s = gap ++ piece ++ rest := by
  induction s with
  | nil =>
    unfold after at found
    split at found
    · next empty =>
        cases found
        exact ⟨[], by rw [empty]; rfl⟩
    · cases found
  | cons c s ih =>
    unfold after at found
    split at found
    · next start =>
        obtain ⟨tail, split⟩ := start
        simp only [Option.some.injEq] at found
        rw [← split, List.drop_left] at found
        exact ⟨[], by rw [← split, found]; rfl⟩
    · obtain ⟨gap, same⟩ := ih found
      exact ⟨c :: gap, by rw [same]; rfl⟩

/-- The leftmost occurrence leaves at least what any other occurrence leaves. -/
theorem after_leftmost (piece gap rest : List α) :
    ∃ front, after piece (gap ++ piece ++ rest) = some (front ++ rest) := by
  induction gap with
  | nil =>
    refine ⟨[], ?_⟩
    rw [List.nil_append, List.nil_append]
    cases whole : piece ++ rest with
    | nil =>
      obtain ⟨none, bare⟩ := List.append_eq_nil_iff.mp whole
      rw [none, bare]
      rfl
    | cons c s =>
      unfold after
      rw [if_pos (by rw [← whole]; exact List.prefix_append piece rest), ← whole, List.drop_left]
  | cons c gap ih =>
    obtain ⟨front, found⟩ := ih
    show ∃ front, after piece (c :: (gap ++ piece ++ rest)) = _
    unfold after
    split
    · next start =>
        refine ⟨(c :: (gap ++ piece)).drop piece.length, ?_⟩
        show some ((c :: (gap ++ piece) ++ rest).drop piece.length) = _
        rw [List.drop_append_of_le_length]
        simp only [List.length_cons, List.length_append]
        omega
    · exact ⟨front, found⟩

/-- Taking each piece at its leftmost place finds them whenever they are there. -/
theorem eat_iff (pieces : List (List α)) : ∀ s, eat pieces s = true ↔ InOrder pieces s := by
  induction pieces with
  | nil =>
    intro s
    exact ⟨fun _ => trivial, fun _ => rfl⟩
  | cons piece pieces ih =>
    intro s
    unfold eat
    constructor
    · intro found
      cases first : after piece s with
      | none =>
        rw [first] at found
        cases found
      | some rest =>
        rw [first] at found
        obtain ⟨gap, split⟩ := after_eq_some first
        exact ⟨gap, rest, split, (ih rest).mp found⟩
    · intro inOrder
      obtain ⟨gap, rest, rfl, later⟩ := inOrder
      obtain ⟨front, first⟩ := after_leftmost piece gap rest
      rw [first]
      exact (ih _).mpr (later.append_left front)

omit [DecidableEq α] in
/-- Empty pieces are found anywhere. -/
theorem inOrder_filter (pieces : List (List α)) :
    ∀ s, InOrder (pieces.filter fun piece => !piece.isEmpty) s ↔ InOrder pieces s := by
  induction pieces with
  | nil =>
    intro s
    rfl
  | cons piece pieces ih =>
    intro s
    by_cases empty : piece = []
    · rw [List.filter_cons_of_neg (by simp [empty]), ih, empty]
      constructor
      · intro inOrder
        exact ⟨[], s, rfl, inOrder⟩
      · intro inOrder
        obtain ⟨gap, rest, rfl, later⟩ := inOrder
        exact later.append_left _
    · rw [List.filter_cons_of_pos (by simp [empty])]
      constructor
      · intro inOrder
        obtain ⟨gap, rest, split, later⟩ := inOrder
        exact ⟨gap, rest, split, (ih rest).mp later⟩
      · intro inOrder
        obtain ⟨gap, rest, split, later⟩ := inOrder
        exact ⟨gap, rest, split, (ih rest).mpr later⟩

/-- The strings of a pattern that is cut at its stars. -/
def Spans : List (List α) → List α → Prop
  | [], _ => False
  | [last], s => s = last
  | piece :: next :: pieces, s => ∃ gap rest, s = piece ++ gap ++ rest ∧ Spans (next :: pieces) rest

theorem splitOn_ne_nil (star : α) (pattern : List α) : pattern.splitOn star ≠ [] :=
  List.splitOnP_ne_nil _ _

theorem splitOn_cons_star (star : α) (ps : List α) :
    (star :: ps).splitOn star = [] :: ps.splitOn star := by
  rw [List.splitOn, List.splitOnP_cons_eq_if_modifyHead, if_pos (beq_self_eq_true star),
    ← List.splitOn]

theorem splitOn_cons_other {star p : α} (other : p ≠ star) {ps piece : List α}
    {pieces : List (List α)} (cut : ps.splitOn star = piece :: pieces) :
    (p :: ps).splitOn star = (p :: piece) :: pieces := by
  rw [List.splitOn, List.splitOnP_cons_eq_if_modifyHead,
    if_neg (fun same => other (beq_iff_eq.mp same)), ← List.splitOn, cut]
  rfl

/-- A pattern with no star is one piece. -/
theorem splitOn_bare {star : α} {pattern : List α} (bare : star ∉ pattern) :
    pattern.splitOn star = [pattern] := by
  induction pattern with
  | nil => rfl
  | cons p ps ih =>
    rw [List.mem_cons, not_or] at bare
    exact splitOn_cons_other (fun same => bare.1 same.symm) (ih bare.2)

/-- A pattern with a star has a first and a last piece. -/
theorem splitOn_starred {star : α} {pattern : List α} (starred : star ∈ pattern) :
    ∃ head mid tail, pattern.splitOn star = head :: (mid ++ [tail]) := by
  induction pattern with
  | nil => cases starred
  | cons p ps ih =>
    by_cases any : p = star
    · subst any
      rw [splitOn_cons_star]
      exact ⟨[], _, _, by rw [List.dropLast_append_getLast (splitOn_ne_nil p ps)]⟩
    · obtain ⟨head, mid, tail, cut⟩ := ih (List.mem_of_ne_of_mem (fun same => any same.symm) starred)
      exact ⟨p :: head, mid, tail, splitOn_cons_other any cut⟩

theorem matches_iff_spans (star : α) (pattern : List α) :
    ∀ s, Matches star pattern s ↔ Spans (pattern.splitOn star) s := by
  induction pattern with
  | nil =>
    intro s
    rfl
  | cons p ps ih =>
    intro s
    obtain ⟨piece, pieces, cut⟩ := List.exists_cons_of_ne_nil (splitOn_ne_nil star ps)
    unfold Matches
    by_cases any : p = star
    · have split : (p :: ps).splitOn star = [] :: piece :: pieces := by
        rw [any, splitOn_cons_star, cut]
      rw [split]
      unfold Spans
      rw [← cut]
      constructor
      · intro either
        rcases either with ⟨-, gap, rest, same, later⟩ | ⟨other, -⟩
        · exact ⟨gap, rest, same, (ih rest).mp later⟩
        · exact absurd any other
      · intro spans
        obtain ⟨gap, rest, same, later⟩ := spans
        exact .inl ⟨any, gap, rest, same, (ih rest).mpr later⟩
    · rw [splitOn_cons_other any cut]
      have longer : Spans ((p :: piece) :: pieces) s ↔
          ∃ rest, s = p :: rest ∧ Spans (piece :: pieces) rest := by
        cases pieces with
        | nil =>
          constructor
          · intro same
            exact ⟨piece, same, rfl⟩
          · intro shown
            obtain ⟨rest, rfl, same⟩ := shown
            show _ = _
            rw [show rest = piece from same]
        | cons next pieces =>
          constructor
          · intro spans
            obtain ⟨gap, rest, rfl, later⟩ := spans
            exact ⟨piece ++ gap ++ rest, rfl, gap, rest, rfl, later⟩
          · intro shown
            obtain ⟨-, rfl, gap, rest, rfl, later⟩ := shown
            exact ⟨gap, rest, rfl, later⟩
      rw [longer, ← cut]
      constructor
      · intro either
        rcases either with ⟨same, -⟩ | ⟨-, rest, same, later⟩
        · exact absurd same any
        · exact ⟨rest, same, (ih rest).mp later⟩
      · intro shown
        obtain ⟨rest, same, later⟩ := shown
        exact .inr ⟨any, rest, same, (ih rest).mpr later⟩

omit [DecidableEq α] in
/-- A cut pattern: the first piece in front, the last behind, the others between. -/
theorem spans_iff (tail : List α) (mid : List (List α)) :
    ∀ head s, Spans (head :: (mid ++ [tail])) s ↔
      ∃ window, s = head ++ window ++ tail ∧ InOrder mid window := by
  induction mid with
  | nil =>
    intro head s
    constructor
    · intro spans
      obtain ⟨gap, rest, same, last⟩ := spans
      exact ⟨gap, by rw [same, show rest = tail from last], trivial⟩
    · intro shown
      obtain ⟨window, same, -⟩ := shown
      exact ⟨window, tail, same, rfl⟩
  | cons piece mid ih =>
    intro head s
    constructor
    · intro spans
      obtain ⟨gap, rest, rfl, later⟩ := spans
      obtain ⟨window, rfl, inOrder⟩ := (ih piece rest).mp later
      exact ⟨gap ++ piece ++ window, by simp only [List.append_assoc],
        gap, window, rfl, inOrder⟩
    · intro shown
      obtain ⟨window, rfl, gap, rest, rfl, inOrder⟩ := shown
      refine ⟨gap, piece ++ rest ++ tail, by simp only [List.append_assoc], ?_⟩
      exact (ih piece _).mpr ⟨rest, rfl, inOrder⟩

/-! ### Patterns under a map of their symbols -/

omit [DecidableEq α] in
/-- Symbols that are not the star stand for themselves. -/
theorem matches_append {star : α} {front ps : List α} (plain : star ∉ front) (s : List α) :
    Matches star (front ++ ps) s ↔ ∃ rest, s = front ++ rest ∧ Matches star ps rest := by
  induction front generalizing s with
  | nil => exact ⟨fun found => ⟨s, rfl, found⟩, fun ⟨rest, same, found⟩ => same ▸ found⟩
  | cons p front ih =>
    rw [List.mem_cons, not_or] at plain
    rw [List.cons_append, Matches]
    constructor
    · rintro (⟨same, -⟩ | ⟨-, rest, rfl, later⟩)
      · exact absurd same.symm plain.1
      · obtain ⟨tail, rfl, found⟩ := (ih plain.2 rest).mp later
        exact ⟨tail, rfl, found⟩
    · rintro ⟨tail, rfl, found⟩
      exact .inr ⟨fun same => plain.1 same.symm, front ++ tail, rfl, (ih plain.2 _).mpr ⟨tail, rfl, found⟩⟩

omit [DecidableEq α] in
theorem mem_of_matches {star c : α} {ps : List α} (other : c ≠ star) :
    ∀ s, c ∈ ps → Matches star ps s → c ∈ s := by
  induction ps with
  | nil => exact fun s held => by cases held
  | cons p ps ih =>
    intro s held found
    rw [Matches] at found
    rcases found with ⟨same, gap, rest, rfl, later⟩ | ⟨-, rest, rfl, later⟩
    · have behind := (List.mem_cons.mp held).resolve_left fun equal => other (equal.trans same)
      exact List.mem_append_right gap (ih rest behind later)
    · rcases List.mem_cons.mp held with same | behind
      · exact same ▸ List.mem_cons_self
      · exact List.mem_cons_of_mem p (ih rest behind later)

section

variable {star : α} {image : α → List α} (keeps : image star = [star])
  (plain : ∀ c, c ≠ star → star ∉ image c)

include keeps plain

omit [DecidableEq α] in
theorem Matches.flatMap {ps : List α} : ∀ {s : List α}, Matches star ps s →
    Matches star (ps.flatMap image) (s.flatMap image) := by
  induction ps with
  | nil =>
    intro s found
    rw [show s = [] from found]
    rfl
  | cons p ps ih =>
    intro s found
    rw [Matches] at found
    rcases found with ⟨rfl, gap, rest, rfl, later⟩ | ⟨other, rest, rfl, later⟩
    · rw [List.flatMap_cons, keeps, List.flatMap_append]
      exact .inl ⟨rfl, gap.flatMap image, rest.flatMap image, rfl, ih later⟩
    · rw [List.flatMap_cons, List.flatMap_cons, matches_append (plain p other)]
      exact ⟨rest.flatMap image, rfl, ih later⟩

/-- A string that the map leaves alone, and that the mapped pattern has, is the image of one of the pattern. -/
theorem Matches.exists_flatMap {ps : List α} : ∀ {u : List α}, (∀ c ∈ u, image c = [c]) →
    Matches star (ps.flatMap image) u →
      ∃ s, Matches star ps s ∧ s.flatMap image = u ∧ ∀ c ∈ s, c ∈ ps ∨ c ∈ u := by
  induction ps with
  | nil =>
    intro u _ found
    rw [show u = [] from found]
    exact ⟨[], rfl, rfl, fun c held => by cases held⟩
  | cons p ps ih =>
    intro u fixed found
    by_cases any : p = star
    · subst any
      rw [List.flatMap_cons, keeps, List.singleton_append, Matches] at found
      rcases found with ⟨-, gap, rest, rfl, later⟩ | ⟨other, -⟩
      · obtain ⟨s, inside, same, origin⟩ := ih (fun c held => fixed c (List.mem_append_right gap held)) later
        have still : gap.flatMap image = gap := by
          have each : ∀ c ∈ gap, image c = [c] := fun c held => fixed c (List.mem_append_left rest held)
          rw [List.flatMap_congr each, List.flatMap_singleton']
        refine ⟨gap ++ s, .inl ⟨rfl, gap, s, rfl, inside⟩, by rw [List.flatMap_append, still, same], ?_⟩
        intro c held
        rcases List.mem_append.mp held with front | back
        · exact .inr (List.mem_append_left rest front)
        · exact (origin c back).imp (List.mem_cons_of_mem p) (List.mem_append_right gap)
      · exact absurd rfl other
    · rw [List.flatMap_cons, matches_append (plain p any)] at found
      obtain ⟨rest, rfl, later⟩ := found
      obtain ⟨s, inside, same, origin⟩ := ih (fun c held => fixed c (List.mem_append_right _ held)) later
      refine ⟨p :: s, .inr ⟨any, s, rfl, inside⟩, by rw [List.flatMap_cons, same], ?_⟩
      intro c held
      rcases List.mem_cons.mp held with same | back
      · exact .inl (same ▸ List.mem_cons_self)
      · exact (origin c back).imp (List.mem_cons_of_mem p) (List.mem_append_right _)

end

end StarPattern
