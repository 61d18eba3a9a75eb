import Mathlib
import Trench.Filter.Parser
import Trench.Filter.Ranked
import Trench.Gravity.Stream

set_option autoImplicit false

/- A proposed rule change, replayed on the names that were asked for. -/

namespace Trench.Ops

open Wire Trench.Filter

structure Flip where
  qname : Text
  hits : Int
  rule : Text

structure WhatIfResult where
  totalNames : Nat := 0
  totalHits : Int := 0
  newlyBlocked : List Flip := []
  newlyAllowed : List Flip := []
  affectedHits : Int := 0

/-- The domains as they are compiled, those that are blank left out. -/
def entries (lib : Library) (domains : List Text) : List Text :=
  (domains.map fun d => lib.lower (Name.strip d)).filter (· ≠ [])

def deltaRules (lib : Library) (py : Scanner) (deny allow : List Text) (listText : Text) : List Rule :=
  ((entries lib deny).map fun d => { raw := d, suffix := some d, source := "whatif".toList }) ++
    ((entries lib allow).map fun d =>
      { raw := d, block := false, important := true, suffix := some d, source := "whatif".toList }) ++
    if listText = [] then [] else iterList lib py listText "whatif-list".toList

def compileDelta (lib : Library) (py : Scanner) (deny allow : List Text) (listText : Text) :
    Except TableFault FilterEngine := FilterEngine.compile (deltaRules lib py deny allow listText) none

/-- What `match` is asked of a name alone. -/
def asked (qname : Text) : Query := { qname, qtype := 1, ctags := ∅, client := [], clientNames := ∅ }

/-- Whether the name would be blocked, and the proposed rule that says so. -/
def candidate (curBlocked : Bool) (d : Decision) : Bool × Text :=
  match d.action with
  | .allow => (false, d.rule)
  | .block => (true, d.rule)
  | _ => (curBlocked, [])

/-- A name that would change. -/
def WhatIfResult.flipped (res : WhatIfResult) (flip : Flip) (candBlocked : Bool) : WhatIfResult :=
  let res := { res with affectedHits := res.affectedHits + flip.hits }
  if candBlocked then { res with newlyBlocked := res.newlyBlocked ++ [flip] }
  else { res with newlyAllowed := res.newlyAllowed ++ [flip] }

/-- One name of the loop of `diff_decisions`. -/
def replay (lib : Library) (current delta : FilterEngine) (res : WhatIfResult) (entry : Text × Int) :
    Except TableFault WhatIfResult := do
  let res := { res with totalHits := res.totalHits + entry.2 }
  let qname := Name.lowerText entry.1
  let cur ← current.matchQuery lib (asked qname)
  let curBlocked := cur.action == .block
  let d ← delta.matchQuery lib (asked qname)
  let (candBlocked, via) := candidate curBlocked d
  if candBlocked = curBlocked then return res
  else return res.flipped { qname, hits := entry.2, rule := via } candBlocked

/-- The most frequent first. -/
def byHits (flips : List Flip) : List Flip := flips.mergeSort fun f g => decide (g.hits ≤ f.hits)

def diffDecisions (lib : Library) (current delta : FilterEngine) (names : List (Text × Int)) :
    Except TableFault WhatIfResult := do
  let res ← names.foldlM (replay lib current delta) { totalNames := names.length }
  return { res with newlyBlocked := byHits res.newlyBlocked, newlyAllowed := byHits res.newlyAllowed }

/-- A name is reported as newly blocked or newly allowed. -/
def WhatIfResult.reports (res : WhatIfResult) (qname : Text) : Bool :=
  (res.newlyBlocked ++ res.newlyAllowed).any fun f => f.qname == qname

/-- The verdict that a result tells of a name: the current one, flipped where it is reported. -/
def WhatIfResult.predicts (res : WhatIfResult) (current : Bool) (qname : Text) : Bool :=
  current ^^ res.reports (Name.lowerText qname)

/-- The proposed rules once they are adopted, the list under its own name. -/
def adoptedRules (lib : Library) (py : Scanner) (deny allow : List Text) (listText source : Text) : List Rule :=
  operatorRules lib allow deny ++ iterList lib py listText source

/-- The live rules of one polarity that apply to a name; none is looked up for the root. -/
def consulted (lib : Library) (rules : List Rule) (qname : Text) (block : Bool) : List Rule :=
  if normalName qname = [] then [] else applying lib rules (asked qname) block

/-- The verdict on a name where the proposed rules are asked first. -/
def Foreseen (block allow block' allow' : List Rule) : Prop :=
  ¬Wins (· ∈ block') (· ∈ allow') ∧ (Blocks block' allow' ∨ Blocks block allow)

/-- How the current rules that apply to a name and the proposed ones get in each other's way. -/
inductive Clash (block allow block' allow' : List Rule) : Prop where
  /-- Only plain exceptions are proposed, and an important current rule blocks. -/
  | overruled (r : Rule) (wins : Wins (· ∈ block') (· ∈ allow')) (heaviest : block.argmax weight = some r)
      (important : r.important = true) (plainly : r.rewrite = none)
      (plain : ∀ a ∈ allow ++ allow', a.important = false)
  /-- A block is proposed, and an important current exception stands. -/
  | excepted (a : Rule) (blocks : Blocks block' allow') (listed : a ∈ allow) (important : a.important = true)
  /-- A plain block is proposed, and a plain current exception stands. -/
  | spared (a : Rule) (blocks : Blocks block' allow') (listed : a ∈ allow)
      (plain : ∀ r ∈ block ++ block', r.important = false)
  /-- A block is proposed, and a current rule that weighs as much rewrites. -/
  | rewritten (r r' : Rule) (blocks : Blocks block' allow') (heaviest : block.argmax weight = some r)
      (rewrites : r.rewrite ≠ none) (heaviest' : block'.argmax weight = some r') (below : weight r' ≤ weight r)
  /-- A rewrite is proposed, and the current rule that blocks weighs less. -/
  | rewrites (r r' : Rule) (blocks : Blocks block allow) (loses : ¬Wins (· ∈ block') (· ∈ allow'))
      (heaviest : block.argmax weight = some r) (heaviest' : block'.argmax weight = some r')
      (rewrites : r'.rewrite ≠ none) (above : weight r < weight r')

/-! ### Two lists of rules and their union -/

section

variable {block allow block' allow' : List Rule}

theorem wins_append : Wins (· ∈ block ++ block') (· ∈ allow ++ allow') ↔
    ((∃ a, a ∈ allow) ∨ ∃ a, a ∈ allow') ∧
      ((∃ r ∈ block, r.important = true) ∨ (∃ r ∈ block', r.important = true) →
        (∃ a ∈ allow, a.important = true) ∨ ∃ a ∈ allow', a.important = true) := by
  unfold Wins
  simp only [List.mem_append, or_and_right, exists_or]

theorem important_of_heaviest {r : Rule} (heaviest : block.argmax weight = some r) :
    r.important = true ↔ ∃ x ∈ block, x.important = true := by
  constructor
  · exact fun important => ⟨r, List.argmax_mem heaviest, important⟩
  · rintro ⟨x, listed, important⟩
    have under := List.le_of_mem_argmax listed heaviest
    have score : score x ≤ score r := (Prod.Lex.le_iff.mp under).elim le_of_lt fun same => same.1.le
    have flag : x.important ≤ r.important := (Prod.Lex.le_iff.mp score).elim le_of_lt fun same => same.1.le
    rw [important] at flag
    exact top_le_iff.mp flag

theorem weight_lt_of_important {r r' : Rule} (plain : r.important = false) (important : r'.important = true) :
    weight r < weight r' := by
  refine Prod.Lex.lt_iff.mpr (.inl (Prod.Lex.lt_iff.mpr (.inl ?_)))
  change r.important < r'.important
  rw [plain, important]
  decide

theorem heaviest_append_left {r : Rule} (heaviest : block.argmax weight = some r)
    (above : ∀ r', block'.argmax weight = some r' → ¬weight r < weight r') :
    (block ++ block').argmax weight = some r := by
  rw [FirstMax.argmax_append, heaviest]
  cases other : block'.argmax weight with
  | none => rfl
  | some r' => exact if_neg (above r' other)

theorem heaviest_append_right {r' : Rule} (heaviest' : block'.argmax weight = some r')
    (above : ∀ r, block.argmax weight = some r → weight r < weight r') :
    (block ++ block').argmax weight = some r' := by
  rw [FirstMax.argmax_append, heaviest']
  cases other : block.argmax weight with
  | none => rfl
  | some r => exact if_pos (above r other)

/-- Where a proposed exception wins, the union blocks only by an important current rule. -/
theorem blocks_append_of_wins (wins : Wins (· ∈ block') (· ∈ allow')) :
    Blocks (block ++ block') (allow ++ allow') ↔ Clash block allow block' allow' := by
  obtain ⟨some', flags'⟩ := wins
  constructor
  · rintro ⟨loses, x, heaviest, plainly⟩
    rw [wins_append] at loses
    have plain : ¬((∃ a ∈ allow, a.important = true) ∨ ∃ a ∈ allow', a.important = true) :=
      fun important => loses ⟨.inr some', fun _ => important⟩
    have none' : ¬∃ r ∈ block', r.important = true := fun important => plain (.inr (flags' important))
    have current : ∃ r ∈ block, r.important = true := by
      by_contra none
      exact loses ⟨.inr some', fun important => (important.elim none none').elim⟩
    cases lead : block.argmax weight with
    | none =>
      obtain ⟨r, listed, -⟩ := current
      rw [List.argmax_eq_none.mp lead] at listed
      cases listed
    | some r =>
      have important := (important_of_heaviest lead).mpr current
      have same : (block ++ block').argmax weight = some r := heaviest_append_left lead fun r' lead' =>
        not_lt.mpr (weight_lt_of_important (Bool.eq_false_iff.mpr fun flag =>
          none' ((important_of_heaviest lead').mp flag)) important).le
      obtain rfl : r = x := Option.some.inj (same.symm.trans heaviest)
      refine .overruled r ⟨some', flags'⟩ lead important plainly fun a listed => ?_
      refine Bool.eq_false_iff.mpr fun flag => plain ?_
      exact (List.mem_append.mp listed).imp (fun here => ⟨a, here, flag⟩) fun there => ⟨a, there, flag⟩
  · intro clash
    cases clash with
    | overruled r wins lead important plainly plain =>
      refine ⟨fun won => ?_, r, heaviest_append_left lead fun r' lead' => ?_, plainly⟩
      · obtain ⟨a, listed, flag⟩ := won.2 ⟨r, List.mem_append_left _ (List.argmax_mem lead), important⟩
        rw [plain a listed] at flag
        cases flag
      · refine not_lt.mpr (weight_lt_of_important (Bool.eq_false_iff.mpr fun flag => ?_) important).le
        obtain ⟨a, listed, flag'⟩ := flags' ⟨r', List.argmax_mem lead', flag⟩
        rw [plain a (List.mem_append_right _ listed)] at flag'
        cases flag'
    | excepted a blocks => exact absurd ⟨some', flags'⟩ blocks.1
    | spared a blocks => exact absurd ⟨some', flags'⟩ blocks.1
    | rewritten r r' blocks => exact absurd ⟨some', flags'⟩ blocks.1
    | rewrites r r' blocks loses => exact absurd ⟨some', flags'⟩ loses

/-- Where a proposed rule blocks, the union does unless they clash. -/
theorem blocks_append_of_blocks (blocks : Blocks block' allow') :
    Blocks (block ++ block') (allow ++ allow') ↔ ¬Clash block allow block' allow' := by
  obtain ⟨loses', r', lead', plainly'⟩ := blocks
  constructor
  · rintro ⟨loses, x, heaviest, plainly⟩ clash
    cases clash with
    | overruled r wins => exact loses' wins
    | excepted a blocks listed important =>
      exact loses ⟨⟨a, List.mem_append_left _ listed⟩, fun _ => ⟨a, List.mem_append_left _ listed, important⟩⟩
    | spared a blocks listed plain =>
      refine loses ⟨⟨a, List.mem_append_left _ listed⟩, ?_⟩
      rintro ⟨r, there, important⟩
      rw [plain r there] at important
      cases important
    | rewritten r r'' blocks lead rewrites lead'' below =>
      have same : (block ++ block').argmax weight = some r := heaviest_append_left lead fun other here => by
        obtain rfl : r'' = other := Option.some.inj (lead''.symm.trans here)
        exact not_lt.mpr below
      obtain rfl : r = x := Option.some.inj (same.symm.trans heaviest)
      exact rewrites plainly
    | rewrites r r'' blocks loses'' lead lead'' rewrites above =>
      obtain rfl : r'' = r' := Option.some.inj (lead''.symm.trans lead')
      exact rewrites plainly'
  · intro calm
    have blocks : Blocks block' allow' := ⟨loses', r', lead', plainly'⟩
    refine ⟨fun won => ?_, ?_⟩
    · obtain ⟨some_exception, flags⟩ := wins_append.mp won
      have none : ¬∃ a ∈ allow, a.important = true :=
        fun ⟨a, listed, important⟩ => calm (.excepted a blocks listed important)
      by_cases important : (∃ r ∈ block, r.important = true) ∨ ∃ r ∈ block', r.important = true
      · obtain ⟨a, listed, flag⟩ := (flags important).resolve_left none
        exact loses' ⟨⟨a, listed⟩, fun _ => ⟨a, listed, flag⟩⟩
      · obtain ⟨none_block, none_block'⟩ := not_or.mp important
        rcases some_exception with ⟨a, listed⟩ | there
        · refine calm (.spared a blocks listed fun r here => Bool.eq_false_iff.mpr fun flag => important ?_)
          exact (List.mem_append.mp here).imp (fun here => ⟨r, here, flag⟩) fun there => ⟨r, there, flag⟩
        · exact loses' ⟨there, fun flag => absurd flag none_block'⟩
    · cases lead : block.argmax weight with
      | none => exact ⟨r', heaviest_append_right lead' (fun r here => nomatch lead.symm.trans here), plainly'⟩
      | some r =>
        by_cases above : weight r < weight r'
        · refine ⟨r', heaviest_append_right lead' fun other here => ?_, plainly'⟩
          obtain rfl : r = other := Option.some.inj (lead.symm.trans here)
          exact above
        · refine ⟨r, heaviest_append_left lead fun other here => ?_, ?_⟩
          · obtain rfl : r' = other := Option.some.inj (lead'.symm.trans here)
            exact above
          · by_contra rewrites
            exact calm (.rewritten r r' blocks lead rewrites lead' (not_lt.mp above))

/-- Where the proposed rules decide nothing, the union blocks as the current rules do unless they clash. -/
theorem blocks_append_of_neither (loses' : ¬Wins (· ∈ block') (· ∈ allow')) (open' : ¬Blocks block' allow') :
    (Blocks block allow ↔ Blocks (block ++ block') (allow ++ allow')) ↔ ¬Clash block allow block' allow' := by
  have rewrites' : ∀ r', block'.argmax weight = some r' → r'.rewrite ≠ none :=
    fun r' lead' plainly => open' ⟨loses', r', lead', plainly⟩
  constructor
  · intro same clash
    cases clash with
    | overruled r wins => exact loses' wins
    | excepted a blocks => exact open' blocks
    | spared a blocks => exact open' blocks
    | rewritten r r' blocks => exact open' blocks
    | rewrites r r' blocks loses lead lead' rewrites above =>
      obtain ⟨-, x, heaviest, plainly⟩ := same.mp blocks
      have right : (block ++ block').argmax weight = some r' := heaviest_append_right lead' fun other here => by
        obtain rfl : r = other := Option.some.inj (lead.symm.trans here)
        exact above
      obtain rfl : r' = x := Option.some.inj (right.symm.trans heaviest)
      exact rewrites plainly
  · intro calm
    constructor
    · rintro ⟨loses, r, lead, plainly⟩
      refine ⟨fun won => ?_, r, heaviest_append_left lead fun r' lead' above => ?_, plainly⟩
      · obtain ⟨some_exception, flags⟩ := wins_append.mp won
        -- whichever exception there is, an important block on its side asks for an important one
        rcases some_exception with here | there
        · refine loses ⟨here, fun important => ?_⟩
          refine (flags (.inl important)).elim id fun ⟨a, listed, flag⟩ => ?_
          exact absurd ⟨⟨a, listed⟩, fun _ => ⟨a, listed, flag⟩⟩ loses'
        · refine loses' ⟨there, fun important => ?_⟩
          refine (flags (.inr important)).elim (fun ⟨a, listed, flag⟩ => ?_) id
          exact absurd ⟨⟨a, listed⟩, fun _ => ⟨a, listed, flag⟩⟩ loses
      · exact calm (.rewrites r r' ⟨loses, r, lead, plainly⟩ loses' lead lead' (rewrites' r' lead') above)
    · rintro ⟨loses, x, heaviest, plainly⟩
      have left : block.argmax weight = some x ∧ ∀ r', block'.argmax weight = some r' → ¬weight x < weight r' := by
        rw [FirstMax.argmax_append] at heaviest
        cases lead : block.argmax weight with
        | none =>
          rw [lead] at heaviest
          exact absurd plainly (rewrites' x heaviest)
        | some r =>
          cases lead' : block'.argmax weight with
          | none =>
            rw [lead, lead'] at heaviest
            exact ⟨heaviest, fun r' here => nomatch here⟩
          | some r' =>
            rw [lead, lead', FirstMax.higher] at heaviest
            split at heaviest
            · obtain rfl : r' = x := Option.some.inj heaviest
              exact absurd plainly (rewrites' r' lead')
            · next level =>
                obtain rfl : r = x := Option.some.inj heaviest
                refine ⟨rfl, fun other here => ?_⟩
                obtain rfl : r' = other := Option.some.inj here
                exact level
      refine ⟨fun won => loses (wins_append.mpr ⟨.inl won.1, fun important => ?_⟩), x, left.1, plainly⟩
      refine important.elim (fun here => .inl (won.2 here)) fun there => ?_
      cases flag : x.important with
      | true => exact .inl (won.2 ⟨x, List.argmax_mem left.1, flag⟩)
      | false =>
        cases lead' : block'.argmax weight with
        | none =>
          obtain ⟨r', listed, -⟩ := there
          rw [List.argmax_eq_none.mp lead'] at listed
          cases listed
        | some r' =>
          exact absurd (weight_lt_of_important flag ((important_of_heaviest lead').mpr there)) (left.2 r' lead')

/-- What is foreseen of two lists is the verdict of their union exactly when they do not clash. -/
theorem foreseen_iff : (Foreseen block allow block' allow' ↔ Blocks (block ++ block') (allow ++ allow')) ↔
    ¬Clash block allow block' allow' := by
  by_cases wins : Wins (· ∈ block') (· ∈ allow')
  · have foreseen : ¬Foreseen block allow block' allow' := fun both => both.1 wins
    rw [iff_false_left foreseen, blocks_append_of_wins wins]
  · by_cases blocks : Blocks block' allow'
    · have foreseen : Foreseen block allow block' allow' := ⟨wins, .inl blocks⟩
      rw [iff_true_left foreseen, blocks_append_of_blocks blocks]
    · rw [← blocks_append_of_neither wins blocks, Foreseen, or_iff_right blocks, and_iff_right wins]

end

/-! ### The rules that apply -/

section

variable {lib : Library} {py : Scanner}

/-- No `$badfilter` rule of one list disables a rule of the other that applies to the name. -/
structure Apart (lib : Library) (current adopted : List Rule) (qname : Text) : Prop where
  keepsCurrent : ∀ r, Applicable lib current (asked qname) r → patternId r ∈ badfilterIds adopted → r.rewrite ≠ none
  keepsAdopted : ∀ r, Applicable lib adopted (asked qname) r → patternId r ∈ badfilterIds current → r.rewrite ≠ none

theorem badfilterIds_append (rules rules' : List Rule) :
    badfilterIds (rules ++ rules') = badfilterIds rules ∪ badfilterIds rules' := by
  rw [badfilterIds, badfilterIds, badfilterIds, List.filter_append, List.map_append, List.toFinset_append]

/-- A rule is live beside the `$badfilter` patterns of a set. -/
def isLive (keys : Finset PatternId) (r : Rule) : Bool :=
  !r.badfilter && !(decide (patternId r ∈ keys) && r.rewrite.isNone)

theorem liveRules_eq (rules : List Rule) : liveRules rules none = rules.filter (isLive (badfilterIds rules)) := rfl

/-- A rule of one polarity matches and applies. -/
def fits (lib : Library) (q : Query) (block : Bool) (r : Rule) : Bool :=
  r.block == block && (r.hits lib (normalName q.qname) && isApplicable lib q (normalName q.qname) r)

theorem applying_eq (rules : List Rule) (q : Query) (block : Bool) :
    applying lib rules q block = (rules.filter (isLive (badfilterIds rules))).filter (fits lib q block) := rfl

/-- More `$badfilter` patterns make no difference where they disable nothing that applies. -/
theorem filter_isLive {rules : List Rule} {q : Query} {block : Bool} {keys : Finset PatternId}
    (stays : ∀ r, Applicable lib rules q r → patternId r ∈ keys → r.rewrite ≠ none) :
    (rules.filter (isLive (badfilterIds rules ∪ keys))).filter (fits lib q block) = applying lib rules q block := by
  rw [applying_eq, List.filter_filter, List.filter_filter]
  refine List.filter_congr fun r listed => ?_
  cases fit : fits lib q block r with
  | false => rfl
  | true =>
    rw [Bool.true_and, Bool.true_and, Bool.eq_iff_iff]
    have live (set : Finset PatternId) : isLive set r = true ↔
        r.badfilter = false ∧ ¬(patternId r ∈ set ∧ r.rewrite = none) := by
      rw [isLive, Bool.and_eq_true, Bool.not_eq_true', Bool.not_eq_true', ← Bool.not_eq_true (_ && _),
        Bool.and_eq_true, decide_eq_true_eq, Option.isNone_iff_eq_none]
    rw [live, live, Finset.mem_union]
    refine and_congr_right fun enabled => ⟨fun apart here => apart ⟨.inl here.1, here.2⟩, fun apart => ?_⟩
    rintro ⟨here | there, plainly⟩
    · exact apart ⟨here, plainly⟩
    · have applies : r ∈ applying lib rules q block := by
        rw [applying_eq, List.mem_filter, List.mem_filter, live]
        exact ⟨⟨listed, enabled, apart⟩, fit⟩
      exact stays r (mem_applying.mp applies).1 there plainly

/-- Lists that are apart apply side by side. -/
theorem consulted_append {current adopted : List Rule} {qname : Text} (apart : Apart lib current adopted qname)
    (block : Bool) : consulted lib (current ++ adopted) qname block =
      consulted lib current qname block ++ consulted lib adopted qname block := by
  by_cases root : normalName qname = []
  · rw [consulted, if_pos root, consulted, if_pos root, consulted, if_pos root, List.append_nil]
  · rw [consulted, if_neg root, consulted, if_neg root, consulted, if_neg root, applying_eq (current ++ adopted),
      List.filter_append, List.filter_append, badfilterIds_append, filter_isLive apart.keepsCurrent,
      Finset.union_comm, filter_isLive apart.keepsAdopted]

/-- A rule without what only tells of its origin. -/
def bare (r : Rule) : Rule := { r with raw := [], source := [] }

theorem applying_bare (rules : List Rule) (q : Query) (block : Bool) :
    applying lib (rules.map bare) q block = (applying lib rules q block).map bare := by
  have keys : badfilterIds (rules.map bare) = badfilterIds rules := by
    rw [badfilterIds, badfilterIds, List.filter_map, List.map_map]
    rfl
  rw [applying_eq, applying_eq, keys, List.filter_map, List.filter_map]
  rfl

/-- What a list of domains is compiled to, its origin aside. -/
def denied (domain : Text) : Rule := { raw := [], suffix := some domain }

def excepted (domain : Text) : Rule := { raw := [], block := false, important := true, suffix := some domain }

theorem bare_iterList (listText source : Text) :
    (iterList lib py listText source).map bare = (iterList lib py listText []).map bare := by
  rw [iterList, iterList, List.map_filterMap, List.map_filterMap]
  refine List.filterMap_congr fun raw _ => ?_
  rw [parseLine_under, Option.map_map]
  rfl

theorem bare_deltaRules (deny allow : List Text) (listText : Text) :
    (deltaRules lib py deny allow listText).map bare = (entries lib deny).map denied ++
      (entries lib allow).map excepted ++ (iterList lib py listText []).map bare := by
  rw [deltaRules, List.map_append, List.map_append, List.map_map, List.map_map]
  congr 1
  by_cases empty : listText = []
  · rw [if_pos empty, empty]
    rfl
  · rw [if_neg empty, bare_iterList]

theorem bare_adoptedRules (deny allow : List Text) (listText source : Text) :
    (adoptedRules lib py deny allow listText source).map bare = (allow.map fun d => excepted (lib.lower d)) ++
      (deny.map fun d => denied (lib.lower d)) ++ (iterList lib py listText []).map bare := by
  rw [adoptedRules, operatorRules, List.map_append, List.map_append, List.map_map, List.map_map, bare_iterList]
  rfl

/-- A blank entry makes no rule that applies. -/
theorem filter_entries {rule : Text → Rule} {p : Rule → Bool} (blank : p (rule []) = false) {domains : List Text}
    (trimmed : ∀ d ∈ domains, Name.strip d = d) :
    ((entries lib domains).map rule).filter p = (domains.map fun d => rule (lib.lower d)).filter p := by
  induction domains with
  | nil => rfl
  | cons d domains ih =>
      have rest := ih fun d' later => trimmed d' (List.mem_cons_of_mem _ later)
      rw [entries, List.map_cons, trimmed d List.mem_cons_self, List.map_cons, List.filter_cons (p := p), ← rest,
        entries]
      by_cases empty : lib.lower d = []
      · rw [List.filter_cons_of_neg (by simp [empty]), empty, blank]
        rfl
      · rw [List.filter_cons_of_pos (by simp [empty]), List.map_cons, List.filter_cons]

theorem badfilterIds_map {rule : Text → Rule} (enabled : ∀ d, (rule d).badfilter = false) (domains : List Text) :
    badfilterIds (domains.map rule) = ∅ := by
  have none : (domains.map rule).filter (fun r => r.badfilter) = [] := by
    rw [List.filter_eq_nil_iff]
    intro r listed
    obtain ⟨d, -, rfl⟩ := List.mem_map.mp listed
    rw [enabled]
    exact Bool.false_ne_true
  rw [badfilterIds, none]
  rfl

/-- A rule of the other polarity does not apply. -/
theorem filter_map_other {rule : Text → Rule} {p : Rule → Bool} (other : ∀ d, p (rule d) = false)
    (domains : List Text) : (domains.map rule).filter p = [] := by
  rw [List.filter_eq_nil_iff]
  intro r listed
  obtain ⟨d, -, rfl⟩ := List.mem_map.mp listed
  rw [other]
  exact Bool.false_ne_true

/-- Entries without blanks around them apply once adopted as they do when they are proposed. -/
theorem consulted_adopted {deny allow : List Text} (listText source qname : Text)
    (trimmed : ∀ d ∈ deny ++ allow, Name.strip d = d) (block : Bool) :
    (consulted lib (adoptedRules lib py deny allow listText source) qname block).map bare =
      (consulted lib (deltaRules lib py deny allow listText) qname block).map bare := by
  by_cases root : normalName qname = []
  · rw [consulted, if_pos root, consulted, if_pos root]
  rw [consulted, if_neg root, consulted, if_neg root, ← applying_bare, ← applying_bare, bare_deltaRules,
    bare_adoptedRules, applying_eq, applying_eq, badfilterIds_append, badfilterIds_append, badfilterIds_append,
    badfilterIds_append, badfilterIds_map (fun _ => rfl), badfilterIds_map (fun _ => rfl),
    badfilterIds_map (fun _ => rfl), badfilterIds_map (fun _ => rfl), List.filter_filter, List.filter_filter,
    List.filter_append, List.filter_append, List.filter_append, List.filter_append]
  generalize ∅ ∪ ∅ ∪ badfilterIds ((iterList lib py listText []).map bare) = keys
  congr 1
  -- an empty suffix ends no name on a boundary
  have nowhere : underAny (normalName qname) [[]] = false := by
    rw [← Bool.not_eq_true, underAny_iff]
    simp only [List.mem_singleton, exists_eq_left]
    exact not_onBoundary_nil root
  cases block with
  | true =>
    have other : ∀ d, (fits lib (asked qname) true (excepted d) && isLive keys (excepted d)) = false := fun _ => rfl
    have blank : (fits lib (asked qname) true (denied []) && isLive keys (denied [])) = false := by
      have hits : (denied []).hits lib (normalName (asked qname).qname) = false := nowhere
      rw [fits, hits, Bool.false_and, Bool.and_false, Bool.false_and]
    have none (domains : List Text) : (domains.map excepted).filter
        (fun r => fits lib (asked qname) true r && isLive keys r) = [] := filter_map_other other domains
    have none' := none (allow.map lib.lower)
    rw [List.map_map] at none'
    rw [none, List.append_nil, filter_entries blank fun d listed => trimmed d (List.mem_append_left _ listed)]
    exact congrArg (· ++ _) none'

  | false =>
    have other : ∀ d, (fits lib (asked qname) false (denied d) && isLive keys (denied d)) = false := fun _ => rfl
    have blank : (fits lib (asked qname) false (excepted []) && isLive keys (excepted [])) = false := by
      have hits : (excepted []).hits lib (normalName (asked qname).qname) = false := nowhere
      rw [fits, hits, Bool.false_and, Bool.and_false, Bool.false_and]
    have none (domains : List Text) : (domains.map denied).filter
        (fun r => fits lib (asked qname) false r && isLive keys r) = [] := filter_map_other other domains
    have none' := none (deny.map lib.lower)
    rw [List.map_map] at none'
    rw [none, List.nil_append, filter_entries blank fun d listed => trimmed d (List.mem_append_right _ listed)]
    exact (congrArg (_ ++ ·) none').trans (List.append_nil _)


/-- What a verdict rests on does not tell of origins. -/
theorem blocks_bare (block allow : List Rule) : Blocks (block.map bare) (allow.map bare) ↔ Blocks block allow := by
  have flagged (l : List Rule) : (∃ r, r ∈ l.map bare ∧ r.important = true) ↔ ∃ r, r ∈ l ∧ r.important = true := by
    constructor
    · rintro ⟨r, listed, important⟩
      obtain ⟨x, here, rfl⟩ := List.mem_map.mp listed
      exact ⟨x, here, important⟩
    · rintro ⟨x, here, important⟩
      exact ⟨bare x, List.mem_map_of_mem here, important⟩
  have some_of : (∃ r, r ∈ allow.map bare) ↔ ∃ r, r ∈ allow := by
    constructor
    · rintro ⟨r, listed⟩
      obtain ⟨x, here, -⟩ := List.mem_map.mp listed
      exact ⟨x, here⟩
    · exact fun ⟨x, here⟩ => ⟨bare x, List.mem_map_of_mem here⟩
  have wins : Wins (· ∈ block.map bare) (· ∈ allow.map bare) ↔ Wins (· ∈ block) (· ∈ allow) := by
    rw [Wins, Wins, flagged, flagged, some_of]
  have heaviest : (block.map bare).argmax weight = (block.argmax weight).map bare :=
    FirstMax.argmax_map (fun _ => rfl) block
  rw [Blocks, Blocks, wins, heaviest]
  refine and_congr_right fun _ => ?_
  constructor
  · rintro ⟨r, here, plainly⟩
    obtain ⟨x, there, rfl⟩ := Option.map_eq_some_iff.mp here
    exact ⟨x, there, plainly⟩
  · rintro ⟨x, there, plainly⟩
    exact ⟨bare x, Option.map_eq_some_iff.mpr ⟨x, there, rfl⟩, plainly⟩

end

/-! ### The replay -/

/-- A name that can be in the log: the root, or plain labels. -/
def Known (qname : Text) : Prop := normalName qname = [] ∨ PlainName qname

section

variable {lib : Library} {py : Scanner} {current delta : FilterEngine} {rules rules' : List Rule}

theorem normalName_lowerText (qname : Text) : normalName (Name.lowerText qname) = normalName qname := by
  have dot : ((· == '.') ∘ Char.toLower : Char → Bool) = (· == '.') := by
    funext c
    rw [Function.comp_apply, Bool.eq_iff_iff, beq_iff_eq, beq_iff_eq]
    exact ⟨toLower_eq_dot, fun same => by rw [same]; rfl⟩
  have lowered : ∀ s : Text, Name.lowerText (Name.lowerText s) = Name.lowerText s := by
    intro s
    rw [Name.lowerText, Name.lowerText, List.map_map]
    exact List.map_congr_left fun c _ => c.toLower_toLower_eq_toLower
  have stripped : (Name.lowerText qname).rdropWhile (· == '.') = Name.lowerText (qname.rdropWhile (· == '.')) := by
    rw [List.rdropWhile, List.rdropWhile, Name.lowerText, Name.lowerText, ← List.map_reverse, List.dropWhile_map,
      dot, List.map_reverse]
  rw [normalName, stripped, lowered, normalName]

theorem matchQuery_lowerText (eng : FilterEngine) (qname : Text) :
    eng.matchQuery lib (asked (Name.lowerText qname)) = eng.matchQuery lib (asked qname) := by
  have same : suffixes (Name.lowerText qname) = suffixes qname := by
    rw [suffixes, suffixes, normalName_lowerText]
  have asks (name : Text) : suffixes (asked name).qname = suffixes name := rfl
  rw [FilterEngine.matchQuery, FilterEngine.matchQuery, asks, asks, same]
  rfl

theorem consulted_congr {qname other : Text} (same : normalName qname = normalName other) (block : Bool) :
    consulted lib rules qname block = consulted lib rules other block := by
  have fitting : fits lib (asked qname) block = fits lib (asked other) block := by
    funext r
    have names : normalName (asked qname).qname = normalName (asked other).qname := same
    rw [fits, fits, names]
    rfl
  rw [consulted, consulted, applying_eq, applying_eq, fitting, same]

/-- An engine answers for a name by the rules that are consulted. -/
def Answers (lib : Library) (eng : FilterEngine) (rules : List Rule) (qname : Text) : Prop :=
  ∃ d, eng.matchQuery lib (asked qname) = .ok d ∧
    (d.action = .allow ↔ Wins (· ∈ consulted lib rules qname true) (· ∈ consulted lib rules qname false)) ∧
    (d.action = .block ↔ Blocks (consulted lib rules qname true) (consulted lib rules qname false))

theorem compile_answers (lib : Library) (table : TableHolds rules) : ∃ eng, FilterEngine.compile rules none = .ok eng ∧
    ∀ qname, Known qname → Answers lib eng rules qname := by
  obtain ⟨eng, compiled, acts⟩ := compile_acts lib table
  refine ⟨eng, compiled, fun qname known => ?_⟩
  rcases known with root | named
  · have nothing : suffixes (asked qname).qname = [] := if_pos root
    refine ⟨{}, ?_, ?_, ?_⟩
    · rw [FilterEngine.matchQuery, nothing]
    · rw [consulted, if_pos root, consulted, if_pos root]
      exact iff_of_false (by decide) fun wins => absurd wins.1.choose_spec List.not_mem_nil
    · rw [consulted, if_pos root, consulted, if_pos root]
      exact iff_of_false (by decide) fun blocks => nomatch blocks.2.choose_spec.1
  · obtain ⟨d, found, allow, block⟩ := acts (asked qname) named
    rw [Answers, consulted, if_neg named.labels, consulted, if_neg named.labels]
    exact ⟨d, found, allow, block⟩

/-- The verdict that is foreseen for a name is not the current one. -/
def Flips (lib : Library) (rules rules' : List Rule) (qname : Text) : Prop :=
  ¬(Foreseen (consulted lib rules qname true) (consulted lib rules qname false) (consulted lib rules' qname true)
    (consulted lib rules' qname false) ↔ Blocks (consulted lib rules qname true) (consulted lib rules qname false))

theorem reports_flipped (res : WhatIfResult) (flip : Flip) (candBlocked : Bool) (name : Text) :
    (res.flipped flip candBlocked).reports name = true ↔ res.reports name = true ∨ flip.qname = name := by
  unfold WhatIfResult.reports WhatIfResult.flipped
  simp only [List.any_append, Bool.or_eq_true, List.any_eq_true, beq_iff_eq]
  cases candBlocked with
  | true =>
      simp only [↓reduceIte, List.mem_append, List.mem_singleton, or_and_right, exists_or, exists_eq_left]
      exact or_right_comm
  | false =>
      simp only [Bool.false_eq_true, ↓reduceIte, List.mem_append, List.mem_singleton, or_and_right, exists_or,
        exists_eq_left, or_assoc]

/-- The candidate verdict is the one that is foreseen. -/
theorem candidate_iff {c d : Decision} {block allow block' allow' : List Rule}
    (blocks : c.action = .block ↔ Blocks block allow)
    (allows' : d.action = .allow ↔ Wins (· ∈ block') (· ∈ allow'))
    (blocks' : d.action = .block ↔ Blocks block' allow') :
    (candidate (c.action == .block) d).1 = true ↔ Foreseen block allow block' allow' := by
  rw [Foreseen, ← allows', ← blocks', ← blocks, candidate]
  cases d.action <;> simp

/-- One name more. -/
theorem replay_spec {entry : Text × Int} (answers : Answers lib current rules entry.1)
    (answers' : Answers lib delta rules' entry.1) (res : WhatIfResult) :
    ∃ res', replay lib current delta res entry = .ok res' ∧ ∀ name, res'.reports name = true ↔
      res.reports name = true ∨ Name.lowerText entry.1 = name ∧ Flips lib rules rules' entry.1 := by
  obtain ⟨c, now, -, blocks⟩ := answers
  obtain ⟨d, next, allows', blocks'⟩ := answers'
  have same := candidate_iff blocks allows' blocks'
  have flips : Flips lib rules rules' entry.1 ↔ (candidate (c.action == .block) d).1 ≠ (c.action == .block) := by
    have blocked := (beq_iff_eq (a := c.action)).trans blocks
    rw [Flips, ← same, ← blocked]
    exact not_congr Bool.eq_iff_iff.symm
  by_cases stays : (candidate (c.action == .block) d).1 = (c.action == .block)
  · refine ⟨{ res with totalHits := res.totalHits + entry.2 }, ?_, fun name => ?_⟩
    · rw [replay, matchQuery_lowerText, matchQuery_lowerText, now, next]
      exact if_pos stays
    · rw [or_iff_left fun both => flips.mp both.2 stays]
      rfl
  · let flip : Flip :=
      { qname := Name.lowerText entry.1, hits := entry.2, rule := (candidate (c.action == .block) d).2 }
    refine ⟨({ res with totalHits := res.totalHits + entry.2 } : WhatIfResult).flipped flip
      (candidate (c.action == .block) d).1, ?_, fun name => ?_⟩
    · rw [replay, matchQuery_lowerText, matchQuery_lowerText, now, next]
      exact if_neg stays
    · rw [reports_flipped, and_iff_left (flips.mpr stays)]
      rfl

theorem replay_foldlM {names : List (Text × Int)} (answers : ∀ entry ∈ names, Answers lib current rules entry.1)
    (answers' : ∀ entry ∈ names, Answers lib delta rules' entry.1) (res : WhatIfResult) :
    ∃ res', names.foldlM (replay lib current delta) res = .ok res' ∧ ∀ name, res'.reports name = true ↔
      res.reports name = true ∨ ∃ entry ∈ names, Name.lowerText entry.1 = name ∧ Flips lib rules rules' entry.1 := by
  induction names generalizing res with
  | nil =>
      refine ⟨res, rfl, fun name => ?_⟩
      rw [or_iff_left]
      rintro ⟨entry, listed, -⟩
      cases listed
  | cons entry names ih =>
      obtain ⟨here, later⟩ := List.forall_mem_cons.mp answers
      obtain ⟨here', later'⟩ := List.forall_mem_cons.mp answers'
      obtain ⟨mid, first, reports⟩ := replay_spec here here' res
      obtain ⟨last, rest, reports'⟩ := ih later later' mid
      refine ⟨last, ?_, fun name => ?_⟩
      · rw [List.foldlM_cons, first]
        exact rest
      · rw [reports', reports, List.exists_mem_cons_iff, or_assoc]

/-- The result reports exactly the names whose verdict is foreseen to change. -/
theorem diffDecisions_spec {names : List (Text × Int)} (answers : ∀ entry ∈ names, Answers lib current rules entry.1)
    (answers' : ∀ entry ∈ names, Answers lib delta rules' entry.1) :
    ∃ res, diffDecisions lib current delta names = .ok res ∧ ∀ entry ∈ names,
      (res.reports (Name.lowerText entry.1) = true ↔ Flips lib rules rules' entry.1) := by
  obtain ⟨res, run, reports⟩ := replay_foldlM answers answers' { totalNames := names.length }
  refine ⟨{ res with newlyBlocked := byHits res.newlyBlocked, newlyAllowed := byHits res.newlyAllowed }, ?_, ?_⟩
  · rw [diffDecisions, run]
    rfl
  · intro entry listed
    have sorted (flips : List Flip) (name : Text) : (byHits flips).any (fun f => f.qname == name) =
        flips.any fun f => f.qname == name := List.Perm.any_eq (List.mergeSort_perm _ _)
    rw [WhatIfResult.reports, List.any_append, sorted, sorted, ← List.any_append]
    refine (reports _).trans ?_
    have unreported : ¬({ totalNames := names.length } : WhatIfResult).reports (Name.lowerText entry.1) = true :=
      Bool.false_ne_true
    rw [or_iff_right unreported]
    constructor
    · rintro ⟨other, -, same, flips⟩
      have names : normalName other.1 = normalName entry.1 := by
        rw [← normalName_lowerText, same, normalName_lowerText]
      rw [Flips, consulted_congr names, consulted_congr names, consulted_congr names, consulted_congr names] at flips
      exact flips
    · exact fun flips => ⟨entry, listed, rfl, flips⟩

end

/-! ### Whether what-if tells the truth -/

/-- The verdict that is predicted for a name is the one it gets once the change is adopted. -/
def Truthful (lib : Library) (py : Scanner) (rules : List Rule) (deny allow : List Text) (listText source : Text)
    (names : List (Text × Int)) (qname : Text) : Prop :=
  ∃ current delta union res now then', FilterEngine.compile rules none = .ok current ∧
    compileDelta lib py deny allow listText = .ok delta ∧
    FilterEngine.compile (rules ++ adoptedRules lib py deny allow listText source) none = .ok union ∧
    diffDecisions lib current delta names = .ok res ∧ current.matchQuery lib (asked qname) = .ok now ∧
    union.matchQuery lib (asked qname) = .ok then' ∧
    res.predicts (now.action == .block) qname = (then'.action == .block)

/-- The shared tables of the engines hold what is imported. -/
structure Tables (lib : Library) (py : Scanner) (rules : List Rule) (deny allow : List Text)
    (listText source : Text) : Prop where
  current : TableHolds rules
  delta : TableHolds (deltaRules lib py deny allow listText)
  union : TableHolds (rules ++ adoptedRules lib py deny allow listText source)

section

variable {lib : Library} {py : Scanner} {rules : List Rule} {deny allow : List Text} {listText source : Text}
  {names : List (Text × Int)} {qname : Text} {hits : Int}

theorem truthful_iff_blocks (tables : Tables lib py rules deny allow listText source)
    (known : ∀ entry ∈ names, Known entry.1) (listed : (qname, hits) ∈ names) :
    Truthful lib py rules deny allow listText source names qname ↔
      (Foreseen (consulted lib rules qname true) (consulted lib rules qname false)
          (consulted lib (deltaRules lib py deny allow listText) qname true)
          (consulted lib (deltaRules lib py deny allow listText) qname false) ↔
        Blocks (consulted lib (rules ++ adoptedRules lib py deny allow listText source) qname true)
          (consulted lib (rules ++ adoptedRules lib py deny allow listText source) qname false)) := by
  obtain ⟨current, compiled, answers⟩ := compile_answers lib tables.current
  obtain ⟨delta, compiled', answers'⟩ := compile_answers lib tables.delta
  obtain ⟨union, compiled'', answers''⟩ := compile_answers lib tables.union
  obtain ⟨now, found, -, blocks⟩ := answers qname (known _ listed)
  obtain ⟨then', found', -, blocks'⟩ := answers'' qname (known _ listed)
  obtain ⟨res, run, reports⟩ := diffDecisions_spec (fun entry here => answers entry.1 (known entry here))
    fun entry here => answers' entry.1 (known entry here)
  have blocked := (beq_iff_eq (a := now.action)).trans blocks
  have predicted : res.predicts (now.action == .block) qname = true ↔
      Foreseen (consulted lib rules qname true) (consulted lib rules qname false)
        (consulted lib (deltaRules lib py deny allow listText) qname true)
        (consulted lib (deltaRules lib py deny allow listText) qname false) := by
    have flips := reports _ listed
    rw [Flips, ← blocked] at flips
    rw [WhatIfResult.predicts]
    cases reported : res.reports (Name.lowerText qname) with
    | true =>
        have other := flips.mp reported
        cases flag : (now.action == .block) with
        | true =>
            rw [flag] at other
            exact iff_of_false Bool.false_ne_true fun foreseen => other (iff_of_true foreseen rfl)
        | false =>
            rw [flag] at other
            exact iff_of_true rfl (not_not.mp fun none => other (iff_of_false none Bool.false_ne_true))
    | false =>
        rw [reported] at flips
        rw [Bool.xor_false]
        exact (not_not.mp (flips.not.mp Bool.false_ne_true)).symm
  have verdict := (beq_iff_eq (a := then'.action)).trans blocks'
  rw [← predicted, ← verdict, ← Bool.eq_iff_iff]
  constructor
  · rintro ⟨current', delta', union', res', now', then'', c, c', c'', run', f, f', same⟩
    obtain rfl : current = current' := Except.ok.inj (compiled.symm.trans c)
    obtain rfl : delta = delta' := Except.ok.inj (compiled'.symm.trans c')
    obtain rfl : union = union' := Except.ok.inj (compiled''.symm.trans c'')
    obtain rfl : res = res' := Except.ok.inj (run.symm.trans run')
    obtain rfl : now = now' := Except.ok.inj (found.symm.trans f)
    obtain rfl : then' = then'' := Except.ok.inj (found'.symm.trans f')
    exact same
  · exact fun same => ⟨current, delta, union, res, now, then', compiled, compiled', compiled'', run, found, found', same⟩

/-- What-if tells the truth of a name exactly when the proposed rules and the current ones do not clash. -/
theorem truthful_iff (tables : Tables lib py rules deny allow listText source)
    (known : ∀ entry ∈ names, Known entry.1) (trimmed : ∀ d ∈ deny ++ allow, Name.strip d = d)
    (apart : Apart lib rules (adoptedRules lib py deny allow listText source) qname)
    (listed : (qname, hits) ∈ names) :
    Truthful lib py rules deny allow listText source names qname ↔
      ¬Clash (consulted lib rules qname true) (consulted lib rules qname false)
        (consulted lib (deltaRules lib py deny allow listText) qname true)
        (consulted lib (deltaRules lib py deny allow listText) qname false) := by
  rw [truthful_iff_blocks tables known listed, ← foreseen_iff, consulted_append apart, consulted_append apart,
    ← blocks_bare, List.map_append, List.map_append, consulted_adopted listText source qname trimmed,
    consulted_adopted listText source qname trimmed, ← List.map_append, ← List.map_append, blocks_bare]

end

/-- A domain, as it is asked for and as it is denied. -/
def aExample : Text := "a.example".toList

theorem known_example : ∀ entry ∈ [(aExample, (1 : Int))], Known entry.1 := by
  intro entry listed
  rw [List.mem_singleton.mp listed]
  have ascii : aExample.all (fun c => decide (c.toNat < 128)) = true := by decide
  exact .inr ⟨fun c here => of_decide_eq_true (List.all_eq_true.mp ascii c here), by decide, by decide⟩

theorem tables_example {rules : List Rule} (current : TableHolds rules)
    (union : TableHolds (rules ++ adoptedRules Library.blank Scanner.ascii [aExample] [] [] [])) :
    Tables Library.blank Scanner.ascii rules [aExample] [] [] [] := by
  refine ⟨current, ⟨⟨?_, ?_⟩, ?_⟩, union⟩
  · decide
  · decide
  · decide

/-- A domain that no current rule is about is blocked once it is denied, and what-if says so. -/
theorem truthful_denied : Truthful Library.blank Scanner.ascii adsRules [aExample] [] [] [] [(aExample, 1)] aExample := by
  have tables : Tables Library.blank Scanner.ascii adsRules [aExample] [] [] [] :=
    tables_example ⟨⟨by decide, by decide⟩, by decide⟩ ⟨⟨by decide, by decide⟩, by decide⟩
  have trimmed : ∀ d ∈ [aExample] ++ [], Name.strip d = d := by decide
  have apart : Apart Library.blank adsRules (adoptedRules Library.blank Scanner.ascii [aExample] [] [] []) aExample :=
    ⟨fun r _ disabled => absurd disabled (Finset.notMem_empty _), fun r _ disabled =>
      absurd disabled (Finset.notMem_empty _)⟩
  refine (truthful_iff tables known_example trimmed apart List.mem_cons_self).mpr fun clash => ?_
  have none (block : Bool) : consulted Library.blank adsRules aExample block = [] := by
    cases block <;> decide +kernel
  rw [none, none] at clash
  cases clash with
  | overruled r wins heaviest => cases heaviest
  | excepted a blocks listed => cases listed
  | spared a blocks listed => cases listed
  | rewritten r r' blocks heaviest => cases heaviest
  | rewrites r r' blocks loses heaviest => cases heaviest

/-- A domain that the operator allows stays allowed when it is denied, and what-if calls it newly blocked. -/
theorem not_truthful_allowed : ¬Truthful Library.blank Scanner.ascii (operatorRules Library.blank [aExample] [])
    [aExample] [] [] [] [(aExample, 1)] aExample := by
  have tables : Tables Library.blank Scanner.ascii (operatorRules Library.blank [aExample] []) [aExample] [] [] [] :=
    tables_example ⟨⟨by decide, by decide⟩, by decide⟩ ⟨⟨by decide, by decide⟩, by decide⟩
  rw [truthful_iff_blocks tables known_example List.mem_cons_self]
  intro same
  have foreseen : Foreseen
      (consulted Library.blank (operatorRules Library.blank [aExample] []) aExample true)
      (consulted Library.blank (operatorRules Library.blank [aExample] []) aExample false)
      (consulted Library.blank (deltaRules Library.blank Scanner.ascii [aExample] [] []) aExample true)
      (consulted Library.blank (deltaRules Library.blank Scanner.ascii [aExample] [] []) aExample false) := by
    have none : consulted Library.blank (deltaRules Library.blank Scanner.ascii [aExample] [] []) aExample false = [] := by
      decide +kernel
    have one : consulted Library.blank (deltaRules Library.blank Scanner.ascii [aExample] [] []) aExample true =
        [{ raw := aExample, suffix := some aExample, source := "whatif".toList }] := by
      rfl
    have loses : ¬Wins (· ∈ [({ raw := aExample, suffix := some aExample, source := "whatif".toList } : Rule)])
        (· ∈ ([] : List Rule)) := fun wins => absurd wins.1.choose_spec List.not_mem_nil
    rw [none, one]
    exact ⟨loses, .inl ⟨loses, _, rfl, rfl⟩⟩
  have exception : { raw := aExample, block := false, important := true, suffix := some aExample, source := allowlist } ∈
      consulted Library.blank (operatorRules Library.blank [aExample] [] ++
        adoptedRules Library.blank Scanner.ascii [aExample] [] [] []) aExample false := by
    have only : consulted Library.blank (operatorRules Library.blank [aExample] [] ++
        adoptedRules Library.blank Scanner.ascii [aExample] [] [] []) aExample false =
          [{ raw := aExample, block := false, important := true, suffix := some aExample, source := allowlist }] := by
      rfl
    rw [only]
    exact List.mem_cons_self
  exact (same.mp foreseen).1 ⟨⟨_, exception⟩, fun _ => ⟨_, exception, rfl⟩⟩

end Trench.Ops
