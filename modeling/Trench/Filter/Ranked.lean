import Mathlib
import Trench.Filter.EngineDecides
import Trench.Lib.FirstMax

set_option autoImplicit false

/- Which of the rules that apply an engine picks, ties included. -/

namespace Trench.Filter

open Wire

/-- The tables of an engine in the order in which they are searched, the first of them highest. -/
def Place.rank : Place → Nat
  | .suffix _ _ => 3
  | .plain _ => 2
  | .exact _ _ => 1
  | .regex _ => 0
  | .nowhere => 0

def Rule.rank (r : Rule) : Nat := r.place.rank

/-- The score, and on a tie the table. -/
def weight (r : Rule) : (Bool ×ₗ Nat) ×ₗ Nat := toLex (score r, r.rank)

/-- A rule matches the name. -/
def Rule.hits (lib : Library) (name : Text) (r : Rule) : Bool :=
  match r.place with
  | .suffix _ key => underAny name [key]
  | .plain key => underAny name [key]
  | .exact _ key => name == key
  | .regex _ => r.regex.any fun pattern => pattern.search lib name
  | .nowhere => false

/-- The rules of one polarity that are live and apply to a query, as they are listed. -/
def applying (lib : Library) (rules : List Rule) (q : Query) (block : Bool) : List Rule :=
  (liveRules rules none).filter fun r =>
    r.block == block && (r.hits lib (normalName q.qname) && isApplicable lib q (normalName q.qname) r)

/-- No exception wins, and the first of the heaviest block rules does not rewrite. -/
def Blocks (block allow : List Rule) : Prop :=
  ¬Wins (· ∈ block) (· ∈ allow) ∧ ∃ r, block.argmax weight = some r ∧ r.rewrite = none

theorem hits_iff {lib : Library} {name : Text} {r : Rule} : r.hits lib name = true ↔ r.Matches lib name := by
  rw [matches_iff, Rule.hits]
  have under (key : Text) : underAny name [key] = true ↔ OnBoundary name key := by
    rw [underAny_iff]
    simp only [List.mem_singleton, exists_eq_left]
  cases r.place with
  | suffix block key => exact under key
  | plain key => exact under key
  | exact block key => exact beq_iff_eq
  | regex block =>
    dsimp only
    rw [Option.any_eq_true]
    simp only [search_iff]
  | nowhere => exact iff_of_false Bool.false_ne_true not_false

theorem mem_applying {lib : Library} {rules : List Rule} {q : Query} {block : Bool} {r : Rule} :
    r ∈ applying lib rules q block ↔ Applicable lib rules q r ∧ r.block = block := by
  rw [applying, List.mem_filter, Bool.and_eq_true, Bool.and_eq_true, hits_iff, isApplicable_iff, beq_iff_eq,
    Applicable]
  tauto

theorem weight_eq_iff {r : Rule} {s : Bool ×ₗ Nat} {k : Nat} : weight r = toLex (s, k) ↔ score r = s ∧ r.rank = k := by
  rw [weight, EmbeddingLike.apply_eq_iff_eq, Prod.mk.injEq]

/-! ### The first of the candidates -/

section

variable {lib : Library} {rules : List Rule} {q : Query} {eng : FilterEngine}

/-- What the parts of the candidates that are held as they are listed have in common. -/
theorem find?_part {part : Rule → Bool} {s : Bool ×ₗ Nat} {k : Nat}
    (covers : ∀ r ∈ liveRules rules none, isApplicable lib q (normalName q.qname) r = true →
      score r = s → (part r = true ↔ r.rank = k ∧ r.block = true ∧ r.hits lib (normalName q.qname) = true)) :
    (((liveRules rules none).filter part).filter (isApplicable lib q (normalName q.qname))).find?
        (fun r => decide (score r = s)) =
      (applying lib rules q true).find? fun r => decide (weight r = toLex (s, k)) := by
  rw [applying, List.find?_filter, List.find?_filter, List.find?_filter]
  refine List.find?_congr fun r live => ?_
  rw [Bool.eq_iff_iff]
  simp only [decide_eq_true_eq, Bool.and_eq_true, beq_iff_eq, weight_eq_iff]
  constructor
  · rintro ⟨here, applies, same⟩
    obtain ⟨rank, block, hits⟩ := (covers r live applies same).mp here
    exact ⟨⟨block, hits, applies⟩, same, rank⟩
  · rintro ⟨⟨block, hits, applies⟩, same, rank⟩
    exact ⟨(covers r live applies same).mpr ⟨rank, block, hits⟩, applies, same⟩

theorem rank_of_place {r : Rule} {p : Place} (place : r.place = p) : r.rank = p.rank := congrArg Place.rank place

theorem score_of_suffix {r : Rule} {block : Bool} {key : Text} (place : r.place = .suffix block key) :
    score r = toLex (r.important, key.length) := by
  unfold Rule.place at place
  cases regex : r.regex with
  | some pattern => rw [regex] at place; cases place
  | none =>
    cases exact : r.exact with
    | some name => rw [regex, exact] at place; cases place
    | none =>
      cases suffix : r.suffix with
      | none => rw [regex, exact, suffix] at place; cases place
      | some other =>
        rw [regex, exact, suffix] at place
        dsimp only at place
        have same : other = key := by
          split at place <;> cases place
          rfl
        subst same
        unfold score
        rw [suffix, exact]
        cases other <;> rfl

/-- Names that end a name on a boundary differ in length. -/
theorem OnBoundary.unique {name d d' : Text} (here : OnBoundary name d) (there : OnBoundary name d')
    (level : d.length = d'.length) : d = d' := by
  have suffix : ∀ {d : Text}, OnBoundary name d → d <:+ name := by
    rintro d (rfl | ⟨front, rfl⟩)
    · exact List.suffix_rfl
    · exact (List.suffix_cons '.' d).trans (List.suffix_append front _)
  exact (List.suffix_of_suffix_length_le (suffix here) (suffix there) level.le).eq_of_length level

theorem findSome?_unique {α β : Type} {l : List α} {g : α → Option β} {k : α} {v : β} (listed : k ∈ l)
    (here : g k = some v) (elsewhere : ∀ c ∈ l, c ≠ k → g c = none) : l.findSome? g = some v := by
  induction l with
  | nil => exact absurd listed List.not_mem_nil
  | cons c l ih =>
      by_cases same : c = k
      · rw [List.findSome?_cons, same, here]
      · rw [List.findSome?_cons, elsewhere c List.mem_cons_self same]
        exact ih ((List.mem_cons.mp listed).resolve_left (Ne.symm same)) fun d later => elsewhere d
          (List.mem_cons_of_mem _ later)

/-- The suffix table is searched key by key, but level rules share their key. -/
theorem find?_suffixes (named : PlainName q.qname) (s : Bool ×ₗ Nat) :
    (((suffixes q.qname).flatMap fun cand =>
        (liveRules rules none).filter fun r => decide (r.place = .suffix true cand)).filter
          (isApplicable lib q (normalName q.qname))).find? (fun r => decide (score r = s)) =
      (applying lib rules q true).find? fun r => decide (weight r = toLex (s, 3)) := by
  have boundary : ∀ cand, cand ∈ suffixes q.qname ↔ OnBoundary (normalName q.qname) cand :=
    fun _ => mem_suffixes named.labels
  have hits {r : Rule} {key : Text} (place : r.place = .suffix true key) :
      r.hits lib (normalName q.qname) = true ↔ OnBoundary (normalName q.qname) key := by
    rw [hits_iff, matches_iff, place]
  have suffixed {r : Rule} (rank : r.rank = 3) (block : r.block = true) : ∃ key, r.place = .suffix true key := by
    have side := block_of_place (r := r)
    rw [Rule.rank] at rank
    cases place : r.place with
    | suffix b key =>
      rw [place] at side
      rw [← side.symm.trans block]
      exact ⟨key, rfl⟩
    | plain key => rw [place] at rank; cases rank
    | exact b key => rw [place] at rank; cases rank
    | regex b => rw [place] at rank; cases rank
    | nowhere => rw [place] at rank; cases rank
  cases found : (applying lib rules q true).find? fun r => decide (weight r = toLex (s, 3)) with
  | none =>
    rw [List.find?_eq_none] at found ⊢
    intro r listed level
    obtain ⟨held, applies⟩ := List.mem_filter.mp listed
    obtain ⟨cand, key, kept⟩ := List.mem_flatMap.mp held
    obtain ⟨live, place⟩ := List.mem_filter.mp kept
    have place := of_decide_eq_true place
    have side := block_of_place (r := r)
    rw [place] at side
    refine found r (mem_applying.mpr ⟨⟨live, ?_, isApplicable_iff.mp applies⟩, side⟩) ?_
    · exact hits_iff.mp ((hits place).mpr ((boundary cand).mp key))
    · rw [decide_eq_true_eq, weight_eq_iff]
      exact ⟨of_decide_eq_true level, rank_of_place place⟩
  | some r =>
    have level := List.find?_some found
    rw [decide_eq_true_eq, weight_eq_iff] at level
    obtain ⟨⟨live, fits, applies⟩, block⟩ := mem_applying.mp (List.mem_of_find?_eq_some found)
    obtain ⟨key, place⟩ := suffixed level.2 block
    have here : OnBoundary (normalName q.qname) key := (hits place).mp (hits_iff.mpr fits)
    -- a rule that is level and applies has the same key
    have shares {r' : Rule} {key' : Text} (place' : r'.place = .suffix true key') (same : score r' = s)
        (there : OnBoundary (normalName q.qname) key') : key' = key := by
      refine there.unique here ?_
      have both := same.trans level.1.symm
      rw [score_of_suffix place, score_of_suffix place', EmbeddingLike.apply_eq_iff_eq, Prod.mk.injEq] at both
      exact both.2
    rw [List.filter_flatMap, List.find?_flatMap]
    refine findSome?_unique ((boundary key).mpr here) ?_ ?_
    · rw [← found]
      refine find?_part fun r' live' applies' same => ?_
      rw [decide_eq_true_eq]
      constructor
      · intro place'
        have side := block_of_place (r := r')
        rw [place'] at side
        exact ⟨rank_of_place place', side, (hits place').mpr here⟩
      · rintro ⟨rank', block', hits'⟩
        obtain ⟨key', place'⟩ := suffixed rank' block'
        rw [place', shares place' same ((hits place').mp hits')]
    · intro cand listed other
      rw [List.find?_eq_none]
      intro r' kept same
      obtain ⟨held, -⟩ := List.mem_filter.mp kept
      have place' := of_decide_eq_true (List.mem_filter.mp held).2
      exact other (shares place' (of_decide_eq_true same) ((boundary cand).mp listed))

theorem find?_exact (s : Bool ×ₗ Nat) :
    (((liveRules rules none).filter fun r => decide (r.place = .exact true (normalName q.qname))).filter
        (isApplicable lib q (normalName q.qname))).find? (fun r => decide (score r = s)) =
      (applying lib rules q true).find? fun r => decide (weight r = toLex (s, 1)) := by
  refine find?_part fun r _ _ _ => ?_
  rw [decide_eq_true_eq]
  have side := block_of_place (r := r)
  constructor
  · intro place
    rw [place] at side
    exact ⟨rank_of_place place, side, hits_iff.mpr (matches_iff.mpr (by rw [place]))⟩
  · rintro ⟨rank, block, hits⟩
    rw [hits_iff, matches_iff] at hits
    rw [Rule.rank] at rank
    cases place : r.place with
    | exact b key =>
      rw [place] at side hits
      rw [side.symm.trans block, show normalName q.qname = key from hits]
    | suffix b key => rw [place] at rank; cases rank
    | plain key => rw [place] at rank; cases rank
    | regex b => rw [place] at rank; cases rank
    | nowhere => rw [place] at hits; cases hits

theorem find?_regex (s : Bool ×ₗ Nat) :
    ((((liveRules rules none).filter fun r => decide (r.place = .regex true)).filter
        fun r => r.regex.any fun pattern => pattern.search lib (normalName q.qname)).filter
          (isApplicable lib q (normalName q.qname))).find? (fun r => decide (score r = s)) =
      (applying lib rules q true).find? fun r => decide (weight r = toLex (s, 0)) := by
  rw [List.filter_filter (p := fun r : Rule => r.regex.any fun pattern => pattern.search lib (normalName q.qname))]
  refine find?_part fun r _ _ _ => ?_
  rw [Bool.and_eq_true, decide_eq_true_eq]
  have side := block_of_place (r := r)
  have searched : r.place = .regex true →
      (r.hits lib (normalName q.qname) = r.regex.any fun pattern => pattern.search lib (normalName q.qname)) :=
    fun place => by rw [Rule.hits, place]
  constructor
  · rintro ⟨search, place⟩
    rw [place] at side
    exact ⟨rank_of_place place, side, (searched place).trans search⟩
  · rintro ⟨rank, block, hits⟩
    rw [Rule.rank] at rank
    cases place : r.place with
    | regex b =>
      rw [place] at side
      obtain rfl : b = true := side.symm.trans block
      exact ⟨(searched place).symm.trans hits, rfl⟩
    | suffix b key => rw [place] at rank; cases rank
    | plain key => rw [place] at rank; cases rank
    | exact b key => rw [place] at rank; cases rank
    | nowhere => rw [Rule.hits, place] at hits; cases hits

/-- An engine keeps the rules of a table as they are listed. -/
def InOrder (rules : List Rule) (eng : FilterEngine) : Prop :=
  ∀ p : Place, p.keepsRules = true → eng.held p = (liveRules rules none).filter fun r => decide (r.place = p)

/-- The first of the highest candidates rewrites exactly when the heaviest block rule does. -/
theorem mostSpecific_candidates (serves : Serves (liveRules rules none) eng q.qname) (order : InOrder rules eng)
    (named : PlainName q.qname) {f : Text → Option Text}
    (sources : ∀ cand ∈ suffixes q.qname, eng.plainSource cand = .ok (f cand)) {made : List Rule}
    (members : ∀ r, r ∈ made ↔ true = true ∧ ∃ cand ∈ suffixes q.qname, ∃ source,
      f cand = some source ∧ r = FilterEngine.madeRule cand source)
    {found : List Rule}
    (parts : found = ((suffixes q.qname).flatMap fun cand => eng.held (.suffix true cand)) ++ made ++
      eng.held (.exact true (normalName q.qname)) ++
      (eng.held (.regex true)).filter fun r => r.regex.any fun pattern => pattern.search lib (normalName q.qname))
    (blocks : Mirrors (· ∈ found.filter (isApplicable lib q (normalName q.qname)))
      (fun r => Applicable lib rules q r ∧ r.block = true))
    (blocks' : Mirrors (fun r => Applicable lib rules q r ∧ r.block = true)
      (· ∈ found.filter (isApplicable lib q (normalName q.qname)))) :
    (∃ b, mostSpecific (found.filter (isApplicable lib q (normalName q.qname))) = some b ∧ b.rewrite = none) ↔
      ∃ r, (applying lib rules q true).argmax weight = some r ∧ r.rewrite = none := by
  have sourced : ∀ cand ∈ suffixes q.qname,
      (f cand).isSome = true ↔ ∃ r ∈ liveRules rules none, r.place = .plain cand := by
    intro cand listed
    obtain ⟨source, here, present⟩ := serves.plain cand listed
    rw [sources cand listed] at here
    cases here
    exact present
  have related {b r : Rule}
      (best : mostSpecific (found.filter (isApplicable lib q (normalName q.qname))) = some b)
      (heaviest : (applying lib rules q true).argmax weight = some r) : b.rewrite = none ↔ r.rewrite = none := by
    obtain ⟨highest, first⟩ := FirstMax.argmax_eq_some_iff.mp best
    obtain ⟨most, lead⟩ := FirstMax.argmax_eq_some_iff.mp heaviest
    obtain ⟨fits, polarity⟩ := mem_applying.mp (List.argmax_mem heaviest)
    have level : score r = score b := by
      obtain ⟨b', listed, twin⟩ := blocks' r ⟨fits, polarity⟩
      obtain ⟨r', listed', twin'⟩ := blocks b (List.argmax_mem best)
      apply le_antisymm
      · rw [twin.score]
        exact highest b' listed
      · rw [twin'.score]
        have under := most r' (mem_applying.mpr listed')
        exact (Prod.Lex.le_iff.mp under).elim (fun less => less.le) fun same => same.1.le
    -- no rule of a table that is searched earlier is level
    have none_above {k : Nat} (above : r.rank < k) :
        (applying lib rules q true).find? (fun x => decide (weight x = toLex (score b, k))) = none := by
      rw [List.find?_eq_none]
      intro x listed same
      have under := most x listed
      rw [of_decide_eq_true same, weight, level] at under
      rcases Prod.Lex.le_iff.mp under with less | ⟨-, less⟩
      · exact lt_irrefl _ less
      · exact absurd above (not_lt.mpr less)
    have none_made (below : r.rank < 2) : (made.filter (isApplicable lib q (normalName q.qname))).find?
        (fun a => decide (score a = score b)) = none := by
      rw [List.find?_eq_none]
      intro m kept same
      obtain ⟨-, cand, listed, source, given, rfl⟩ := (members m).mp (List.mem_filter.mp kept).1
      obtain ⟨x, live, place⟩ := (sourced cand listed).mp (by rw [given]; rfl)
      have twin := twin_madeRule source place (octets_of_suffix named listed).1
      have side := block_of_place (r := x)
      rw [place] at side
      have hits : x.Matches lib (normalName q.qname) := by
        rw [matches_iff, place]
        exact (mem_suffixes named.labels).mp listed
      have applies := (plain_spec lib q (place_eq_plain.mp place).1).1
      refine List.find?_eq_none.mp (none_above below) x (mem_applying.mpr ⟨⟨live, hits, applies⟩, side⟩) ?_
      rw [decide_eq_true_eq, weight_eq_iff]
      exact ⟨twin.score.symm.trans (of_decide_eq_true same), rank_of_place place⟩
    have flat : ((suffixes q.qname).flatMap fun cand => eng.held (.suffix true cand)) =
        (suffixes q.qname).flatMap fun cand =>
          (liveRules rules none).filter fun r => decide (r.place = .suffix true cand) :=
      congrArg (fun table => (suffixes q.qname).flatMap table) (funext fun cand => order (.suffix true cand) rfl)
    rw [parts, List.filter_append, List.filter_append, List.filter_append, List.find?_append, List.find?_append,
      List.find?_append, flat, find?_suffixes named, order _ rfl, find?_exact, order _ rfl, find?_regex] at first
    have weigh : weight r = toLex (score b, r.rank) := by rw [weight, level]
    rw [weigh] at lead
    cases place : r.place with
    | suffix side key =>
      rw [rank_of_place place] at lead
      rw [show (Place.suffix side key).rank = 3 from rfl] at lead
      rw [lead, Option.some_or, Option.some_or, Option.some_or] at first
      rw [Option.some.inj first]
    | plain key =>
      have rewrites : r.rewrite = none := (plain_spec lib q (place_eq_plain.mp place).1).2.2
      refine iff_of_true ?_ rewrites
      have listed : key ∈ suffixes q.qname := by
        have hits := matches_iff.mp fits.2.1
        rw [place] at hits
        exact (mem_suffixes named.labels).mpr hits
      obtain ⟨source, given⟩ := Option.isSome_iff_exists.mp ((sourced key listed).mpr ⟨r, fits.1, place⟩)
      have twin := twin_madeRule source place (octets_of_suffix named listed).1
      have there : ((made.filter (isApplicable lib q (normalName q.qname))).find?
          fun a => decide (score a = score b)).isSome = true := by
        rw [List.find?_isSome]
        refine ⟨FilterEngine.madeRule key source, List.mem_filter.mpr ⟨?_, ?_⟩, ?_⟩
        · exact (members _).mpr ⟨rfl, key, listed, source, given, rfl⟩
        · exact isApplicable_iff.mpr (plain_spec lib q rfl).1
        · rw [decide_eq_true_eq, twin.score, level]
      obtain ⟨m, picked⟩ := Option.isSome_iff_exists.mp there
      rw [none_above (by rw [rank_of_place place]; exact Nat.lt_succ_self 2), Option.none_or, picked,
        Option.some_or, Option.some_or] at first
      obtain ⟨-, cand, -, source', -, rfl⟩ :=
        (members m).mp (List.mem_filter.mp (List.mem_of_find?_eq_some picked)).1
      rw [← Option.some.inj first]
      rfl
    | exact side key =>
      rw [rank_of_place place, show (Place.exact side key).rank = 1 from rfl] at lead
      have rank : r.rank < 2 := by rw [rank_of_place place]; exact Nat.lt_succ_self 1
      rw [none_above (rank.trans (Nat.lt_succ_self 2)), Option.none_or, none_made rank, Option.none_or, lead,
        Option.some_or] at first
      rw [Option.some.inj first]
    | regex side =>
      rw [rank_of_place place, show (Place.regex side).rank = 0 from rfl] at lead
      have rank : r.rank < 1 := by rw [rank_of_place place]; exact Nat.lt_succ_self 0
      rw [none_above (rank.trans (by decide)), Option.none_or, none_made (rank.trans (by decide)), Option.none_or,
        none_above rank, Option.none_or, lead] at first
      rw [Option.some.inj first]
    | nowhere =>
      have hits := matches_iff.mp fits.2.1
      rw [place] at hits
      cases hits
  constructor
  · rintro ⟨b, best, rewrites⟩
    cases heaviest : (applying lib rules q true).argmax weight with
    | none =>
      obtain ⟨r, listed, -⟩ := blocks b (List.argmax_mem best)
      have some' := mem_applying.mpr listed
      rw [List.argmax_eq_none.mp heaviest] at some'
      cases some'
    | some r => exact ⟨r, rfl, (related best heaviest).mp rewrites⟩
  · rintro ⟨r, heaviest, rewrites⟩
    cases best : mostSpecific (found.filter (isApplicable lib q (normalName q.qname))) with
    | none =>
      obtain ⟨b, listed, -⟩ := blocks' r (mem_applying.mp (List.argmax_mem heaviest))
      rw [List.argmax_eq_none.mp best] at listed
      cases listed
    | some b => exact ⟨b, rfl, (related best heaviest).mpr rewrites⟩

/-- What an engine does with a query, by the rules that apply to it. -/
structure Acts (lib : Library) (rules : List Rule) (q : Query) (d : Decision) : Prop where
  allow : d.action = .allow ↔ Wins (· ∈ applying lib rules q true) (· ∈ applying lib rules q false)
  block : d.action = .block ↔ Blocks (applying lib rules q true) (applying lib rules q false)

theorem Serves.acts (lib : Library) (q : Query) (serves : Serves (liveRules rules none) eng q.qname)
    (order : InOrder rules eng) (named : PlainName q.qname) :
    ∃ d, eng.matchQuery lib q = .ok d ∧ Acts lib rules q d := by
  have shape : suffixes q.qname = normalName q.qname :: afterDots (normalName q.qname) := by
    unfold suffixes
    rw [if_neg named.labels]
  have sources : ∀ cand ∈ suffixes q.qname, eng.plainSource cand =
      .ok ((eng.plainSource cand).toOption.getD none) := by
    intro cand listed
    obtain ⟨source, found, -⟩ := serves.plain cand listed
    rw [found]
    rfl
  obtain ⟨made, members, block⟩ := candidates_eq eng lib (suffixes q.qname) (normalName q.qname) true sources
    (fun _ => rfl) (fun _ => rfl) (show eng.blockRegex = eng.held (.regex true) from rfl)
  obtain ⟨block', blocked, inBlock⟩ := candidates_spec eng lib (suffixes q.qname)
    (normalName q.qname) true sources (fun _ => rfl) (fun _ => rfl)
    (show eng.blockRegex = eng.held (.regex true) from rfl)
  obtain ⟨allow, allowed, inAllow⟩ := candidates_spec eng lib (suffixes q.qname)
    (normalName q.qname) false sources (fun _ => rfl) (fun _ => rfl)
    (show eng.allowRegex = eng.held (.regex false) from rfl)
  have parts : block' = _ := Except.ok.inj (blocked.symm.trans block)
  obtain ⟨blocks, blocks'⟩ := serves.mirrors lib named sources true inBlock
  obtain ⟨allows, allows'⟩ := serves.mirrors lib named sources false inAllow
  have same (polarity : Bool) : (fun r => Applicable lib rules q r ∧ r.block = polarity) =
      (· ∈ applying lib rules q polarity) := funext fun r => propext mem_applying.symm
  have wins : Wins (· ∈ block'.filter (isApplicable lib q (normalName q.qname)))
      (· ∈ allow.filter (isApplicable lib q (normalName q.qname))) ↔
        Wins (· ∈ applying lib rules q true) (· ∈ applying lib rules q false) := by
    rw [← same, ← same]
    exact ⟨fun won => won.congr blocks' allows, fun won => won.congr blocks allows'⟩
  refine ⟨FilterEngine.decided (block'.filter (isApplicable lib q (normalName q.qname)))
    (allow.filter (isApplicable lib q (normalName q.qname))), ?_, ?_⟩
  · unfold FilterEngine.matchQuery
    rw [shape] at blocked allowed ⊢
    simp only [blocked, allowed]
    rfl
  · by_cases won : Wins (· ∈ block'.filter (isApplicable lib q (normalName q.qname)))
        (· ∈ allow.filter (isApplicable lib q (normalName q.qname)))
    · have allowing := decided_of_wins won
      refine ⟨iff_of_true allowing (wins.mp won), iff_of_false ?_ fun stands => stands.1 (wins.mp won)⟩
      rw [allowing]
      exact Action.noConfusion
    · have picks := mostSpecific_candidates serves order named sources members parts blocks blocks'
      have acted : ∀ best : Option Rule,
          ((best.map FilterEngine.blocked).getD {}).action ≠ Action.allow ∧
            (((best.map FilterEngine.blocked).getD {}).action = Action.block ↔
              ∃ b, best = some b ∧ b.rewrite = none) := by
        intro best
        cases best with
        | none => exact ⟨Action.noConfusion, iff_of_false Action.noConfusion fun found => nomatch found.choose_spec.1⟩
        | some b =>
          rw [Option.map_some, Option.getD_some, blocked_action]
          split
          · next plainly => exact ⟨Action.noConfusion, iff_of_true rfl ⟨b, rfl, plainly⟩⟩
          · next rewrites =>
              refine ⟨Action.noConfusion, iff_of_false Action.noConfusion ?_⟩
              rintro ⟨b', same', plainly⟩
              cases same'
              exact rewrites plainly
      rw [decided_of_loses won]
      obtain ⟨other, blocking⟩ := acted (mostSpecific (block'.filter (isApplicable lib q (normalName q.qname))))
      exact ⟨iff_of_false other (wins.not.mp won), blocking.trans (picks.trans (and_iff_right (wins.not.mp won)).symm)⟩

end

/-! ### A compiled engine -/

theorem held_foldl (rules : List Rule) (p : Place) (keeps : p.keepsRules = true)
    (into : FilterEngine × Option (List (Text × Text))) :
    (rules.foldl FilterEngine.add into).1.held p = into.1.held p ++ rules.filter fun r => decide (r.place = p) := by
  induction rules generalizing into with
  | nil => exact (List.append_nil _).symm
  | cons r rules ih =>
    rw [List.foldl_cons, ih, held_add r p keeps, List.append_assoc, List.filter_cons]
    by_cases here : r.place = p
    · rw [if_pos here, if_pos (decide_eq_true here)]
      rfl
    · rw [if_neg here, if_neg (by rw [decide_eq_true_eq]; exact here)]
      rfl

theorem inOrder_compile {rules : List Rule} {eng : FilterEngine} (compiled : FilterEngine.compile rules none = .ok eng) :
    InOrder rules eng := by
  intro p keeps
  have whole := held_foldl (liveRules rules none) p keeps ({}, some [])
  have empty : ({} : FilterEngine).held p = [] := by rcases p with (_ | _) | (_ | _) | (_ | _) | _ | _ <;> rfl
  rw [empty, List.nil_append] at whole
  rw [← whole]
  unfold FilterEngine.compile at compiled
  cases built : SharedBlockTable.build (((liveRules rules none).foldl FilterEngine.add ({}, some [])).2.getD []) with
  | error fault =>
    simp only [built] at compiled
    cases compiled
  | ok table =>
    simp only [built] at compiled
    cases compiled
    rcases p with (_ | _) | (_ | _) | (_ | _) | _ | _ <;> rfl

/-- A compiled engine acts on every name by the rules that apply to it. -/
theorem compile_acts (lib : Library) {rules : List Rule} (table : TableHolds rules) :
    ∃ eng, FilterEngine.compile rules none = .ok eng ∧
      ∀ q : Query, PlainName q.qname → ∃ d, eng.matchQuery lib q = .ok d ∧ Acts lib rules q d := by
  obtain ⟨eng, compiled, serves⟩ := compile_serves table
  exact ⟨eng, compiled, fun q named => (serves q.qname named).acts lib q (inOrder_compile compiled) named⟩

end Trench.Filter
