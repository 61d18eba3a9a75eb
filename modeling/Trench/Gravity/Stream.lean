import Mathlib
import Trench.Filter.Parser
import Trench.App.Adopt

set_option autoImplicit false

/- The corpus is compiled in one pass over its lists, with the patterns that `$badfilter`
disables collected by a prescan. -/

namespace Trench

open Wire Trench.Filter

namespace Filter

/-! ### Response policy zones -/

def looksLikeRpz (lib : Library) (text : Text) : Bool :=
  let head := lib.lower (text.take 4000)
  (decide ("soa".toList <:+: head) &&
      (decide ("rpz".toList <:+: head) || decide ("in cname .".toList <:+: head))) ||
    decide ("rpz-passthru".toList <:+: head)

/-- `_RR`: the owner and the data of a record line. -/
def recordOf (py : Scanner) (line : Text) : Option (Text × Text) :=
  let skip (optional : Text → Bool) (tokens : List Text) : List Text :=
    match tokens with
    | token :: rest => if optional token then rest else token :: rest
    | [] => []
  match words line with
  | [] => none
  | owner :: rest =>
    match skip (py.ignoreCase "IN".toList) (skip (fun token => token.all py.isDigit) rest) with
    | rtype :: data :: _ =>
      if ["CNAME".toList, "A".toList, "AAAA".toList].any fun t => py.ignoreCase t rtype then
        some (owner, data)
      else none
    | _ => none

/-- The owner without the zone's own name and without a wildcard; `none` skips the record. -/
def triggerOf (origin owner : Text) : Option Text :=
  let inside := origin ≠ [] ∧ endsWith owner ('.' :: origin) = true
  if ¬ inside ∧ owner = origin then none
  else
    let owner := if inside then owner.take (owner.length - (origin.length + 1)) else owner
    let owner := lstrip ['*', '.'] owner
    if owner = [] then none else some owner

/-- The rule of a trigger and its data. -/
def policyRule (source owner data : Text) : Rule :=
  if data ∈ ["rpz-passthru".toList, "rpz-passthru.".toList] then
    { raw := owner, block := false, important := true, suffix := some owner, source := source }
  else if data ∈ [[], ['.']] then
    { raw := owner, suffix := some owner, source := source, rewrite := some ⟨some 3, none, 0⟩ }
  else { raw := owner, suffix := some owner, source := source }

/-- One line of a policy zone, with the origin in force; `none` is the `IndexError` of an
`$ORIGIN` without a name. -/
def rpzLine (lib : Library) (py : Scanner) (source origin raw : Text) : Option (Text × Option Rule) :=
  let line := Name.strip (partition ';' raw).1
  let up := py.upper line
  if line = [] then some (origin, none)
  else if startsWith up "$ORIGIN".toList then
    ((words line)[1]?).map fun name => (lib.lower (rstrip ['.'] name), none)
  else if " SOA ".toList <:+: up ∨ startsWith up ['@'] = true ∨ " NS ".toList <:+: up then
    some (origin, none)
  else
    some (origin, do
      let (owner, data) ← recordOf py line
      let owner ← triggerOf origin (lib.lower (rstrip ['.'] owner))
      return policyRule source owner (lib.lower (rstrip ['.'] data)))

def rpzLines (lib : Library) (py : Scanner) (source origin : Text) : List Text → Option (List Rule)
  | [] => some []
  | raw :: rest => do
    let (origin, rule) ← rpzLine lib py source origin raw
    let rules ← rpzLines lib py source origin rest
    return rule.toList ++ rules

def parseRpz (lib : Library) (py : Scanner) (text source : Text) : Option (List Rule) :=
  rpzLines lib py source [] (splitLines text)

/-! ### The stream and its prescan -/

/-- The rules of a list in any dialect. -/
def iterRules (lib : Library) (py : Scanner) (text source : Text) : Option (List Rule) :=
  if looksLikeRpz lib text then parseRpz lib py text source else some (iterList lib py text source)

/-- The patterns that `$badfilter` disables anywhere in the texts, as the prescan finds them. -/
def badfilterKeys (lib : Library) (py : Scanner) (texts : List (Text × Text)) : Finset PatternId :=
  ((texts.filter fun entry => !looksLikeRpz lib entry.2).flatMap fun entry =>
    (iterBadfilter lib py entry.2 entry.1).map patternId).toFinset

/-- The name that the rules of a source carry. -/
def label (src : Text) : Text :=
  let last := (src.reverse.takeWhile (· ≠ '/')).reverse
  if last = [] then src else last

/-- The rules of the sources in the order in which they are popped; `none` when a list
cannot be read. -/
def popAll (lib : Library) (py : Scanner) : List (Text × Text) → Option (List Rule)
  | [] => some []
  | (src, text) :: rest => do
    let rules ← iterRules lib py text (label src)
    let more ← popAll lib py rest
    return rules ++ more

/-- The whole stream: the corpus, its last source first, and the operator's rules. -/
def streamRules (lib : Library) (py : Scanner) (texts : List (Text × Text)) (allow deny : List Text) :
    Option (List Rule) :=
  (popAll lib py texts.reverse).map fun corpus => corpus ++ operatorRules lib allow deny

/-! ### The prescan finds the patterns of the whole stream -/

theorem rpzLine_badfilter {lib : Library} {py : Scanner} {source origin origin' raw : Text}
    {rule : Option Rule} (read : rpzLine lib py source origin raw = some (origin', rule)) :
    ∀ r ∈ rule, r.badfilter = false := by
  unfold rpzLine at read
  dsimp only at read
  split_ifs at read
  · cases read
    intro r listed
    cases listed
  · obtain ⟨name, -, same⟩ := Option.map_eq_some_iff.mp read
    cases same
    intro r listed
    cases listed
  · cases read
    intro r listed
    cases listed
  · simp only [Option.some.injEq, Prod.mk.injEq] at read
    obtain ⟨-, same⟩ := read
    intro r listed
    rw [← same] at listed
    obtain ⟨record, -, made⟩ := Option.bind_eq_some_iff.mp listed
    obtain ⟨owner, -, made⟩ := Option.bind_eq_some_iff.mp made
    cases made
    unfold policyRule
    split_ifs <;> rfl

/-- No rule of a policy zone disables another. -/
theorem rpzLines_badfilter {lib : Library} {py : Scanner} {source : Text} (lines : List Text) :
    ∀ {origin : Text} {rules : List Rule}, rpzLines lib py source origin lines = some rules →
      ∀ r ∈ rules, r.badfilter = false := by
  induction lines with
  | nil =>
    intro origin rules read
    cases read
    intro r listed
    cases listed
  | cons raw lines ih =>
    intro origin rules read
    unfold rpzLines at read
    obtain ⟨⟨origin', rule⟩, first, read⟩ := Option.bind_eq_some_iff.mp read
    obtain ⟨more, rest, read⟩ := Option.bind_eq_some_iff.mp read
    cases read
    intro r listed
    rcases List.mem_append.mp listed with here | later
    · exact rpzLine_badfilter first r (Option.mem_toList.mp here)
    · exact ih rest r later

theorem mem_badfilterIds {rules : List Rule} {key : PatternId} :
    key ∈ badfilterIds rules ↔ ∃ r ∈ rules, r.badfilter = true ∧ patternId r = key := by
  unfold badfilterIds
  simp only [List.mem_toFinset, List.mem_map, List.mem_filter]
  constructor
  · rintro ⟨r, ⟨listed, disables⟩, same⟩
    exact ⟨r, listed, disables, same⟩
  · rintro ⟨r, listed, disables, same⟩
    exact ⟨r, ⟨listed, disables⟩, same⟩

/-- Whatever its rules are labelled with, a list disables the same patterns. -/
theorem badfilterIds_iterList (lib : Library) (py : Scanner) (text source source' : Text) :
    badfilterIds (iterList lib py text source) = badfilterIds (iterList lib py text source') := by
  have bare (source : Text) :
      badfilterIds (iterList lib py text source) = badfilterIds (iterList lib py text []) := by
    have under : iterList lib py text source = (iterList lib py text []).map (Rule.under source) := by
      unfold iterList
      rw [List.map_filterMap]
      apply List.filterMap_congr
      intro raw _
      exact parseLine_under lib py source raw
    ext key
    rw [under, mem_badfilterIds, mem_badfilterIds]
    constructor
    · rintro ⟨r, listed, disables, same⟩
      obtain ⟨r', listed', rfl⟩ := List.mem_map.mp listed
      exact ⟨r', listed', disables, same⟩
    · rintro ⟨r, listed, disables, same⟩
      exact ⟨r.under source, List.mem_map.mpr ⟨r, listed, rfl⟩, disables, same⟩
  rw [bare source, bare source']

/-- Every list that is not a policy zone has its `$badfilter` rules written out. -/
def AllWrittenOut (lib : Library) (py : Scanner) (texts : List (Text × Text)) : Prop :=
  ∀ entry ∈ texts, looksLikeRpz lib entry.2 = false → WrittenOut lib py entry.2 entry.1

theorem AllWrittenOut.keys {lib : Library} {py : Scanner} (texts : List (Text × Text)) :
    ∀ {corpus : List Rule}, AllWrittenOut lib py texts → popAll lib py texts = some corpus →
      badfilterKeys lib py texts = badfilterIds corpus := by
  induction texts with
  | nil =>
    intro corpus _ popped
    cases popped
    rfl
  | cons entry texts ih =>
    intro corpus written popped
    obtain ⟨src, text⟩ := entry
    unfold popAll at popped
    obtain ⟨rules, read, popped⟩ := Option.bind_eq_some_iff.mp popped
    obtain ⟨more, rest, popped⟩ := Option.bind_eq_some_iff.mp popped
    cases popped
    have later := ih (fun entry listed => written entry (List.mem_cons_of_mem _ listed)) rest
    have both : badfilterIds (rules ++ more) = badfilterIds rules ∪ badfilterIds more := by
      unfold badfilterIds
      rw [List.filter_append, List.map_append, List.toFinset_append]
    rw [both, ← later]
    unfold iterRules at read
    cases policy : looksLikeRpz lib text with
    | true =>
      rw [policy, if_pos rfl] at read
      have none : badfilterIds rules = ∅ := by
        ext key
        rw [mem_badfilterIds]
        constructor
        · rintro ⟨r, listed, disables, -⟩
          rw [rpzLines_badfilter _ read r listed] at disables
          cases disables
        · intro absurd
          cases absurd
      rw [none, Finset.empty_union]
      unfold badfilterKeys
      rw [List.filter_cons_of_neg (by simp [policy])]
    | false =>
      rw [policy, if_neg Bool.false_ne_true] at read
      cases read
      have scanned := (iterBadfilter_eq_iff lib py text src).mpr
        (written (src, text) List.mem_cons_self policy)
      have first : ((iterBadfilter lib py text src).map patternId).toFinset =
          badfilterIds (iterList lib py text (label src)) := by
        rw [scanned, badfilterIds_iterList lib py text (label src) src]
        rfl
      unfold badfilterKeys
      rw [List.filter_cons_of_pos (by simp [policy]), List.flatMap_cons, List.toFinset_append, first]

/-- The prescan of a text finds its `$badfilter` rules exactly when they are written out, and
of texts in which they are, one pass drops what compiling the whole list would. -/
theorem streaming_spec (lib : Library) (py : Scanner) :
    (∀ text source, iterBadfilter lib py text source =
        (iterList lib py text source).filter Rule.badfilter ↔ WrittenOut lib py text source) ∧
      ∀ texts allow deny rules, AllWrittenOut lib py texts →
        streamRules lib py texts allow deny = some rules →
        liveRules rules (some (badfilterKeys lib py texts)) = liveRules rules none := by
  constructor
  · exact iterBadfilter_eq_iff lib py
  · intro texts allow deny rules written streamed
    unfold streamRules at streamed
    obtain ⟨corpus, popped, same⟩ := Option.map_eq_some_iff.mp streamed
    have written' : AllWrittenOut lib py texts.reverse :=
      fun entry listed => written entry (List.mem_reverse.mp listed)
    have keys : badfilterKeys lib py texts = badfilterKeys lib py texts.reverse := by
      unfold badfilterKeys
      ext key
      simp only [List.mem_toFinset, List.mem_flatMap, List.mem_filter, List.mem_reverse]
    rw [keys, AllWrittenOut.keys _ written' popped, ← same, ← liveRules_none]

/-- Enough of `str` and `re` for plain rules. -/
def Scanner.ascii : Scanner where
  upper s := s.map Char.toUpper
  isDigit c := c.isDigit
  int _ := none
  isIPv6 _ := false
  ignoreCase word s := word == s.map Char.toUpper
  safeRegex _ := true

/-- A rule and, with the modifier written out, the rule that disables it. -/
def literalTexts : List (Text × Text) :=
  [("list".toList, "||a.example^\n||a.example^$badfilter".toList)]

theorem streaming_literalTexts : ∃ rules,
    streamRules Library.blank Scanner.ascii literalTexts [] [] = some rules ∧
      liveRules rules (some (badfilterKeys Library.blank Scanner.ascii literalTexts)) =
        liveRules rules none := by
  cases streamed : streamRules Library.blank Scanner.ascii literalTexts [] [] with
  | none =>
    have reads : (streamRules Library.blank Scanner.ascii literalTexts [] []).isSome = true := by
      decide +kernel
    rw [streamed] at reads
    cases reads
  | some rules =>
    have written : AllWrittenOut Library.blank Scanner.ascii literalTexts := by
      unfold AllWrittenOut WrittenOut
      decide +kernel
    exact ⟨rules, rfl,
      (streaming_spec Library.blank Scanner.ascii).2 literalTexts [] [] rules written streamed⟩

/-- The same with another modifier first. -/
def importantTexts : List (Text × Text) :=
  [("list".toList, "||a.example^\n||a.example^$important,badfilter".toList)]

/-- The prescan passes the rule by, and the stream keeps what the whole list drops. -/
theorem not_streaming_importantTexts :
    (∃ entry ∈ importantTexts, iterBadfilter Library.blank Scanner.ascii entry.2 entry.1 ≠
        (iterList Library.blank Scanner.ascii entry.2 entry.1).filter Rule.badfilter) ∧
      ∃ rules, streamRules Library.blank Scanner.ascii importantTexts [] [] = some rules ∧
        liveRules rules (some (badfilterKeys Library.blank Scanner.ascii importantTexts)) ≠
          liveRules rules none := by
  constructor
  · refine ⟨_, List.mem_cons_self, ?_⟩
    intro same
    have lengths := congrArg List.length same
    revert lengths
    decide +kernel
  · have sizes : (streamRules Library.blank Scanner.ascii importantTexts [] []).map (fun rules =>
        ((liveRules rules (some (badfilterKeys Library.blank Scanner.ascii importantTexts))).length,
          (liveRules rules none).length)) = some (1, 0) := by
      decide +kernel
    obtain ⟨rules, streamed, lengths⟩ := Option.map_eq_some_iff.mp sizes
    refine ⟨rules, streamed, ?_⟩
    intro same
    rw [same] at lengths
    simp only [Prod.mk.injEq] at lengths
    omega

end Filter

end Trench
