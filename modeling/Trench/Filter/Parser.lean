import Mathlib
import Trench.Wire.NameText
import Trench.Filter.Rule
import Trench.Filter.Shared

set_option autoImplicit false

/- Every list dialect is parsed into rules, line by line. -/

namespace Trench.Filter

open Wire

/-- What the parser takes from `str`, `re` and `socket` beside the matcher's `Library`. -/
structure Scanner where
  upper : Text → Text
  /-- `\d` in a text pattern. -/
  isDigit : Char → Bool
  /-- `int`, of a text. -/
  int : Text → Option Int
  /-- `inet_pton(AF_INET6, text)` succeeds. -/
  isIPv6 : Text → Bool
  /-- A word of a pattern under `re.IGNORECASE` is the text. -/
  ignoreCase : Text → Text → Bool
  /-- `_safe_regex` compiles the pattern: it parses, backtracks little and is fast on the probes. -/
  safeRegex : Text → Bool

/-! ### Text -/

/-- The characters that end a line for `str.splitlines`. -/
def isLineEnd (c : Char) : Bool :=
  let n := c.toNat
  (10 ≤ n && n ≤ 13) || (28 ≤ n && n ≤ 30) || n == 0x85 || n == 0x2028 || n == 0x2029

/-- `str.splitlines`, with what has been read of the line. -/
def splitLinesFrom (line : Text) : Text → List Text
  | [] => if line = [] then [] else [line]
  | '\r' :: '\n' :: rest => line :: splitLinesFrom [] rest
  | c :: rest => if isLineEnd c then line :: splitLinesFrom [] rest else splitLinesFrom (line ++ [c]) rest

def splitLines (text : Text) : List Text := splitLinesFrom [] text

/-- `str.split()`. -/
def words (s : Text) : List Text := (s.splitOnP Name.isSpace).filter (· ≠ [])

/-- `str.partition` at one character: what is before it, and what is after. -/
def partition (sep : Char) (s : Text) : Text × Text :=
  (s.takeWhile (· ≠ sep), (s.dropWhile (· ≠ sep)).tail)

def startsWith (s head : Text) : Bool := head.isPrefixOf s

def endsWith (s tail : Text) : Bool := tail.isSuffixOf s

/-- `str.lstrip` and `str.rstrip` of a set of characters. -/
def lstrip (chars : List Char) (s : Text) : Text := s.dropWhile (· ∈ chars)

def rstrip (chars : List Char) (s : Text) : Text := s.rdropWhile (· ∈ chars)

/-! ### The value of `$dnsrewrite` -/

/-- The number of a type; no query has one that is not 16 bits wide, and a negative one is
kept among those. -/
def typeNumber (n : Int) : Nat := if 0 ≤ n then n.toNat else 65535 + n.natAbs

def typeFromText (py : Scanner) (s : Text) : Option Nat :=
  let s := py.upper s
  if startsWith s "TYPE".toList then (py.int (s.drop 4)).map typeNumber
  else (RRType.typeText.find? fun entry => entry.2.toList = s).map fun entry => entry.1.toNat

/-- The members of `Rcode` by name. -/
def rcodeNames : List (String × Nat) :=
  [("NOERROR", 0), ("FORMERR", 1), ("SERVFAIL", 2), ("NXDOMAIN", 3), ("NOTIMP", 4), ("REFUSED", 5),
   ("YXDOMAIN", 6), ("YXRRSET", 7), ("NXRRSET", 8), ("NOTAUTH", 9), ("NOTZONE", 10), ("BADVERS", 16),
   ("BADKEY", 17), ("BADTIME", 18)]

def rcodeNamed (s : Text) : Option Nat :=
  (rcodeNames.find? fun entry => entry.1.toList = s).map Prod.snd

/-- `(\d{1,3}\.){3}\d{1,3}`, of a whole text. -/
def isDotted (py : Scanner) (s : Text) : Bool :=
  let parts := s.splitOn '.'
  parts.length == 4 && parts.all fun p => p ≠ [] && p.length ≤ 3 && p.all py.isDigit

def isIPv4 (py : Scanner) (s : Text) : Bool :=
  isDotted py s && (s.splitOn '.').all fun p =>
    match py.int p with
    | some n => 0 ≤ n && n ≤ 255
    | none => false

def nameOf (s : Text) : Option Name := (Name.fromText s).toOption

def rdataFor (py : Scanner) (rtype value : Text) : Option (Option Rdata × Nat) :=
  if value = [] then
    if rtype = [] then some (none, 0) else (typeFromText py rtype).map fun t => (none, t)
  else do
    let t ← typeFromText py rtype
    if t = RRType.a.toNat then return (some (.a value), t)
    if t = RRType.aaaa.toNat then return (some (.aaaa value), t)
    if t = RRType.cname.toNat then return (some (.cname (← nameOf value)), t)
    if t = RRType.txt.toNat then return (some (.txt [encode value]), t)
    if t = RRType.mx.toNat then
      let (pref, exch) := partition ' ' value
      -- a value without a preference is the exchange
      if exch = [] then return (some (.mx ⟨0, ← nameOf value⟩), t)
      return (some (.mx ⟨← py.int pref, ← nameOf exch⟩), t)
    return (none, t)

/-- Parse a `$dnsrewrite` value; `none` is the `ValueError`. -/
def parseDnsrewrite (py : Scanner) (spec : Text) : Option Rewrite :=
  let spec := Name.strip spec
  let up := py.upper spec
  if up ∈ ["REFUSED".toList, "NXDOMAIN".toList, "NOERROR".toList, "SERVFAIL".toList] then
    some ⟨rcodeNamed up, none, 0⟩
  else if ';' ∈ spec then
    let parts := spec.splitOn ';'
    let rcode := py.upper (Name.strip (parts.getD 0 []))
    let rtype := py.upper (Name.strip (parts.getD 1 []))
    let value := Name.strip (parts.getD 2 [])
    (rdataFor py rtype value).map fun found => ⟨some ((rcodeNamed rcode).getD 0), found.1, found.2⟩
  else if isIPv4 py spec then some ⟨none, some (.a spec), RRType.a.toNat⟩
  else if ':' ∈ spec ∧ py.isIPv6 spec = true then some ⟨none, some (.aaaa spec), RRType.aaaa.toNat⟩
  else (nameOf spec).map fun target => ⟨none, some (.cname target), RRType.cname.toNat⟩

/-! ### Lines of a list -/

/-- `_VALID_DOMAIN`: labels of these characters, with a last dot or without. -/
def validDomain (s : Text) : Bool :=
  let plain (c : Char) : Bool := ('a' ≤ c && c ≤ 'z') || ('0' ≤ c && c ≤ '9') || c == '_' || c == '-'
  match (Name.dropRootDot s).splitOn '.' with
  | [] => false
  | first :: rest =>
    (first ≠ [] && first.all fun c => plain c || c == '*') &&
      rest.all fun label => label ≠ [] && label.all plain

def ignoredNames : List Text :=
  ["localhost", "localhost.localdomain", "broadcasthost", "ip6-localhost", "ip6-loopback",
   "ip6-allnodes", "ip6-allrouters"].map String.toList

/-- `_HOSTS_IP`. -/
def hostsIP : List Text := ["0.0.0.0", "127.0.0.1", "::1", "::"].map String.toList

def isIP (py : Scanner) (s : Text) : Bool := isDotted py s || s.contains ':'

def suffixRule (lib : Library) (dom source : Text) : Option Rule :=
  let dom := lib.lower (rstrip ['.'] (lstrip ['*', '.'] dom))
  if dom = [] ∨ dom ∈ ignoredNames ∨ validDomain (dom ++ ['.']) = false then none
  else some { raw := dom, suffix := some dom, source := source }

/-- `(pattern, modifiers)`, respecting a leading /regex/ literal. -/
def splitModifiers (line : Text) : Text × Text :=
  let body := if startsWith line "@@".toList then line.drop 2 else line
  let rest := (body.reverse.takeWhile (· ≠ '/')).reverse
  let literal := body.take (body.length - rest.length)
  if startsWith body ['/'] = true ∧ 1 < literal.length ∧ (rest = [] ∨ startsWith rest ['$'] = true) then
    (literal, rest.drop 1)
  else partition '$' line

def applyPattern (lib : Library) (py : Scanner) (rule : Rule) (pat : Text) : Rule :=
  if pat = [] then rule
  else if startsWith pat ['/'] && endsWith pat ['/'] && decide (2 < pat.length) then
    let inner := (pat.drop 1).dropLast
    { rule with regex := if py.safeRegex inner then some (.regex inner) else none }
  else if startsWith pat ['|'] && endsWith pat ['|'] && !startsWith pat ['|', '|'] then
    let key := rstrip ['.'] (rstrip ['^'] (rstrip ['|'] (lstrip ['|'] pat)))
    { rule with exact := some (lib.lower key) }
  else
    let p := if startsWith pat ['|', '|'] then pat.drop 2 else pat
    let p := lstrip ['*', '.'] (lstrip ['|'] (rstrip ['|'] (rstrip ['^'] p)))
    if '*' ∈ p then { rule with regex := some (.glob ⟨lib.lower p⟩) }
    else
      let p := lib.lower (rstrip ['.'] p)
      if p = [] then rule else { rule with suffix := some p }

/-- Split a `a|~b|c` modifier value into what is required and what is excluded. -/
def splitNegated (value : Text) : List Text × List Text :=
  let parts := ((value.splitOn '|').map Name.strip).filter (· ≠ [])
  (parts.filter fun p => !startsWith p ['~'],
    ((parts.filter fun p => startsWith p ['~']).map fun p => Name.strip (p.drop 1)).filter (· ≠ []))

/-- What the modifiers of a rule have collected. -/
structure Modifiers where
  dnstypes : Finset Nat := ∅
  dnstypesNot : Finset Nat := ∅
  ctags : Finset Text := ∅
  ctagsNot : Finset Text := ∅
  clients : Finset Text := ∅
  clientsNot : Finset Text := ∅
  denyallow : List Text := []

/-- The name of a modifier, before its value. -/
def modifierName (lib : Library) (mod : Text) : Text :=
  lib.lower (Name.strip (partition '=' (Name.strip mod)).1)

/-- The single and the double quotation mark. -/
def quotes : List Char := [Char.ofNat 39, Char.ofNat 34]

/-- One modifier; `none` drops the rule. -/
def applyModifier (lib : Library) (py : Scanner) (mods : Modifiers) (rule : Rule) (mod : Text) :
    Option (Modifiers × Rule) :=
  let value := (partition '=' (Name.strip mod)).2
  let name := modifierName lib mod
  let (req, notReq) := splitNegated value
  let unquoted (names : List Text) := names.map fun c => rstrip quotes (lstrip quotes c)
  if Name.strip mod = [] then some (mods, rule)
  else if name = "important".toList then some (mods, { rule with important := true })
  else if name = "badfilter".toList then some (mods, { rule with badfilter := true })
  else if name = "dnstype".toList then
    some ({ mods with
      dnstypes := mods.dnstypes ∪ (req.filterMap (typeFromText py)).toFinset
      dnstypesNot := mods.dnstypesNot ∪ (notReq.filterMap (typeFromText py)).toFinset }, rule)
  else if name = "dnsrewrite".toList then
    (parseDnsrewrite py value).map fun rewrite => (mods, { rule with rewrite := some rewrite })
  else if name = "ctag".toList then
    some ({ mods with
      ctags := mods.ctags ∪ req.toFinset
      ctagsNot := mods.ctagsNot ∪ notReq.toFinset }, rule)
  else if name = "client".toList then
    some ({ mods with
      clients := mods.clients ∪ (unquoted req).toFinset
      clientsNot := mods.clientsNot ∪ (unquoted notReq).toFinset }, rule)
  else if name = "denyallow".toList then
    some ({ mods with
      denyallow := mods.denyallow ++ (((value.splitOn '|').map Name.strip).filter (· ≠ [])).map
        fun d => lib.lower (rstrip ['.'] d) }, rule)
  else some (mods, rule)

def runModifiers (lib : Library) (py : Scanner) (mods : Modifiers) (rule : Rule) :
    List Text → Option (Modifiers × Rule)
  | [] => some (mods, rule)
  | mod :: rest => do
    let (mods, rule) ← applyModifier lib py mods rule mod
    runModifiers lib py mods rule rest

/-- A collected set, when it is not empty. -/
def collected {α : Type} [DecidableEq α] (s : Finset α) (old : Option (Finset α)) : Option (Finset α) :=
  if s = ∅ then old else some s

def applyModifiers (lib : Library) (py : Scanner) (rule : Rule) (modstr : Text) : Option Rule :=
  (runModifiers lib py {} rule (modstr.splitOn ',')).map fun (mods, rule) =>
    { rule with
      dnstypes := collected mods.dnstypes rule.dnstypes
      dnstypesNot := collected mods.dnstypesNot rule.dnstypesNot
      ctags := collected mods.ctags rule.ctags
      ctagsNot := collected mods.ctagsNot rule.ctagsNot
      clients := collected mods.clients rule.clients
      clientsNot := collected mods.clientsNot rule.clientsNot
      denyallow := if mods.denyallow = [] then rule.denyallow else mods.denyallow }

/-- The line without the mark of an exception. -/
def withoutMark (line : Text) : Text := if startsWith line "@@".toList then line.drop 2 else line

def parseAdblock (lib : Library) (py : Scanner) (line source : Text) : Option Rule :=
  let block := !startsWith line "@@".toList
  let line := withoutMark line
  let (pattern, modstr) := splitModifiers line
  let rule := applyPattern lib py { raw := line, block := block, source := source } (Name.strip pattern)
  if rule.suffix = none ∧ rule.exact = none ∧ rule.regex = none then none
  else if modstr = [] then some rule
  else applyModifiers lib py rule modstr

/-- The line is skipped: it is blank or a comment. -/
def isComment (line : Text) : Bool := line.isEmpty || startsWith line ['#'] || startsWith line ['!']

def dnsmasq : Text := "address=/".toList

/-- The line has the anchors or the modifiers of an adblock rule. -/
def isAdblock (line : Text) : Bool :=
  startsWith line "||".toList || startsWith line "@@".toList || startsWith line ['|'] ||
    line.contains '^' || line.contains '$' || startsWith line ['/']

def parseLine (lib : Library) (py : Scanner) (source raw : Text) : Option Rule :=
  let line := Name.strip raw
  if isComment line then none
  else if startsWith line dnsmasq then
    let dom := lib.lower ((line.splitOn '/').getD 1 [])
    if dom = [] then none else suffixRule lib dom source
  else if isAdblock line then parseAdblock lib py line source
  else
    let parts := words line
    let first := parts.getD 0 []
    if 2 ≤ parts.length ∧ (first ∈ hostsIP ∨ isIP py first = true) then
      suffixRule lib (lib.lower (parts.getD 1 [])) source
    else suffixRule lib (lib.lower first) source

/-- The rules of a list. -/
def iterList (lib : Library) (py : Scanner) (text source : Text) : List Rule :=
  (splitLines text).filterMap (parseLine lib py source)

/-- The modifier as it must appear for the prescan to look at a line. -/
def badfilterMark : Text := "$badfilter".toList

/-- Only the `$badfilter` rules of a list, from the lines that have the modifier literally. -/
def iterBadfilter (lib : Library) (py : Scanner) (text source : Text) : List Rule :=
  (splitLines text).filterMap fun raw =>
    if badfilterMark <:+: raw then (parseLine lib py source raw).filter Rule.badfilter else none

/-! ### Which lines carry the modifier -/

def isBadfilter (lib : Library) (mod : Text) : Bool :=
  decide (Name.strip mod ≠ []) && decide (modifierName lib mod = "badfilter".toList)

/-- The modifiers of a line, when it has any, name `badfilter`, in whatever place and case. -/
def carriesBadfilter (lib : Library) (raw : Text) : Bool :=
  let line := Name.strip raw
  !isComment line && !startsWith line dnsmasq && isAdblock line &&
    ((splitModifiers (withoutMark line)).2.splitOn ',').any (isBadfilter lib)

theorem applyModifier_badfilter {lib : Library} {py : Scanner} {mods mods' : Modifiers}
    {rule rule' : Rule} {mod : Text}
    (applied : applyModifier lib py mods rule mod = some (mods', rule')) :
    rule'.badfilter = (rule.badfilter || isBadfilter lib mod) := by
  have other {name : Text} (named : modifierName lib mod = name) (differs : name ≠ "badfilter".toList) :
      (decide (Name.strip mod ≠ []) && decide (modifierName lib mod = "badfilter".toList)) = false := by
    rw [named, decide_eq_false differs, Bool.and_false]
  unfold applyModifier at applied
  unfold isBadfilter
  dsimp only at applied
  split_ifs at applied with blank important badfilter dnstype dnsrewrite ctag client denyallow
  · cases applied
    rw [decide_eq_false (not_not.mpr blank), Bool.false_and, Bool.or_false]
  · cases applied
    rw [other important (by decide), Bool.or_false]
  · cases applied
    rw [decide_eq_true blank, decide_eq_true badfilter, Bool.and_self, Bool.or_true]
  · cases applied
    rw [other dnstype (by decide), Bool.or_false]
  · obtain ⟨rewrite, -, same⟩ := Option.map_eq_some_iff.mp applied
    cases same
    rw [other dnsrewrite (by decide), Bool.or_false]
  · cases applied
    rw [other ctag (by decide), Bool.or_false]
  · cases applied
    rw [other client (by decide), Bool.or_false]
  · cases applied
    rw [other denyallow (by decide), Bool.or_false]
  · cases applied
    rw [decide_eq_false badfilter, Bool.and_false, Bool.or_false]

theorem runModifiers_badfilter {lib : Library} {py : Scanner} (list : List Text) :
    ∀ {mods mods' : Modifiers} {rule rule' : Rule},
      runModifiers lib py mods rule list = some (mods', rule') →
      rule'.badfilter = (rule.badfilter || list.any (isBadfilter lib)) := by
  induction list with
  | nil =>
    intro mods mods' rule rule' ran
    cases ran
    rw [List.any_nil, Bool.or_false]
  | cons mod rest ih =>
    intro mods mods' rule rule' ran
    unfold runModifiers at ran
    obtain ⟨⟨mods₁, rule₁⟩, applied, later⟩ := Option.bind_eq_some_iff.mp ran
    rw [ih later, applyModifier_badfilter applied, List.any_cons, Bool.or_assoc]

theorem applyPattern_badfilter (lib : Library) (py : Scanner) (rule : Rule) (pat : Text) :
    (applyPattern lib py rule pat).badfilter = rule.badfilter := by
  unfold applyPattern
  dsimp only
  split_ifs <;> rfl

/-- An adblock rule disables others exactly when one of its modifiers says so. -/
theorem parseAdblock_badfilter {lib : Library} {py : Scanner} {line source : Text} {r : Rule}
    (parsed : parseAdblock lib py line source = some r) :
    r.badfilter =
      ((splitModifiers (withoutMark line)).2.splitOn ',').any (isBadfilter lib) := by
  unfold parseAdblock at parsed
  dsimp only at parsed
  split_ifs at parsed with unmatched bare
  · cases parsed
    have blank : isBadfilter lib [] = false := rfl
    rw [applyPattern_badfilter, bare, List.splitOn_nil, List.any_cons, blank]
    rfl
  · unfold applyModifiers at parsed
    obtain ⟨⟨mods, rule⟩, ran, same⟩ := Option.map_eq_some_iff.mp parsed
    cases same
    dsimp only
    rw [runModifiers_badfilter _ ran, applyPattern_badfilter, Bool.false_or]

theorem suffixRule_badfilter {lib : Library} {dom source : Text} {r : Rule}
    (made : suffixRule lib dom source = some r) : r.badfilter = false := by
  unfold suffixRule at made
  dsimp only at made
  split_ifs at made
  cases made
  rfl

theorem parseLine_badfilter {lib : Library} {py : Scanner} {source raw : Text} {r : Rule}
    (parsed : parseLine lib py source raw = some r) : r.badfilter = carriesBadfilter lib raw := by
  unfold carriesBadfilter
  unfold parseLine at parsed
  dsimp only at parsed ⊢
  split_ifs at parsed with comment address blank adblock hosts
  · rw [suffixRule_badfilter parsed, address]
    simp
  · rw [parseAdblock_badfilter parsed, adblock]
    simp [comment, address]
  · rw [suffixRule_badfilter parsed]
    simp [adblock]
  · rw [suffixRule_badfilter parsed]
    simp [adblock]

/-! ### The source of a rule is only carried along -/

def Rule.under (source : Text) (r : Rule) : Rule := { r with source := source }

@[simp] theorem Rule.under_badfilter (source : Text) (r : Rule) :
    (r.under source).badfilter = r.badfilter := rfl

theorem suffixRule_under (lib : Library) (dom source : Text) :
    suffixRule lib dom source = (suffixRule lib dom []).map (Rule.under source) := by
  unfold suffixRule
  dsimp only
  split_ifs <;> rfl

theorem applyPattern_under (lib : Library) (py : Scanner) (rule : Rule) (pat source : Text) :
    applyPattern lib py (rule.under source) pat = (applyPattern lib py rule pat).under source := by
  unfold applyPattern
  dsimp only
  split_ifs <;> rfl

theorem applyModifier_under (lib : Library) (py : Scanner) (mods : Modifiers) (rule : Rule)
    (mod source : Text) :
    applyModifier lib py mods (rule.under source) mod =
      (applyModifier lib py mods rule mod).map fun made => (made.1, made.2.under source) := by
  unfold applyModifier
  dsimp only
  split_ifs
  all_goals first
    | rfl
    | (rw [Option.map_map]; rfl)

theorem runModifiers_under (lib : Library) (py : Scanner) (source : Text) (list : List Text) :
    ∀ (mods : Modifiers) (rule : Rule),
      runModifiers lib py mods (rule.under source) list =
        (runModifiers lib py mods rule list).map fun made => (made.1, made.2.under source) := by
  induction list with
  | nil =>
    intro mods rule
    rfl
  | cons mod rest ih =>
    intro mods rule
    unfold runModifiers
    rw [applyModifier_under]
    cases applyModifier lib py mods rule mod with
    | none => rfl
    | some made => exact ih made.1 made.2

theorem parseAdblock_under (lib : Library) (py : Scanner) (line source : Text) :
    parseAdblock lib py line source = (parseAdblock lib py line []).map (Rule.under source) := by
  have pattern (block : Bool) (raw pat : Text) :
      applyPattern lib py { raw := raw, block := block, source := source } pat =
        (applyPattern lib py { raw := raw, block := block } pat).under source :=
    applyPattern_under lib py { raw := raw, block := block } pat source
  unfold parseAdblock
  dsimp only
  rw [pattern]
  generalize applyPattern lib py _ _ = rule
  by_cases unmatched : rule.suffix = none ∧ rule.exact = none ∧ rule.regex = none
  · have under : (rule.under source).suffix = none ∧ (rule.under source).exact = none ∧
        (rule.under source).regex = none := unmatched
    rw [if_pos unmatched, if_pos under]
    rfl
  · have under : ¬ ((rule.under source).suffix = none ∧ (rule.under source).exact = none ∧
        (rule.under source).regex = none) := unmatched
    rw [if_neg unmatched, if_neg under]
    split_ifs
    · rfl
    · unfold applyModifiers
      rw [runModifiers_under, Option.map_map, Option.map_map]
      rfl

theorem parseLine_under (lib : Library) (py : Scanner) (source raw : Text) :
    parseLine lib py source raw = (parseLine lib py [] raw).map (Rule.under source) := by
  unfold parseLine
  dsimp only
  split_ifs
  · rfl
  · rfl
  · exact suffixRule_under lib _ source
  · exact parseAdblock_under lib py _ source
  · exact suffixRule_under lib _ source
  · exact suffixRule_under lib _ source

/-! ### The prescan -/

/-- Every line that parses to a rule with the modifier has it literally. -/
def WrittenOut (lib : Library) (py : Scanner) (text source : Text) : Prop :=
  ∀ raw ∈ splitLines text, carriesBadfilter lib raw = true →
    (parseLine lib py source raw).isSome = true → badfilterMark <:+: raw

/-- A scan that leaves out some results has them all exactly when it leaves out none. -/
theorem filterMap_eq_iff {α β : Type} {f g : α → Option β} (l : List α)
    (part : ∀ x ∈ l, f x = none ∨ f x = g x) :
    l.filterMap f = l.filterMap g ↔ ∀ x ∈ l, f x = g x := by
  have shorter : ∀ l : List α, (∀ x ∈ l, f x = none ∨ f x = g x) →
      (l.filterMap f).length ≤ (l.filterMap g).length := by
    intro l
    induction l with
    | nil =>
      intro _
      exact le_rfl
    | cons x l ih =>
      intro part
      have rest := ih fun y listed => part y (List.mem_cons_of_mem x listed)
      rw [List.filterMap_cons, List.filterMap_cons]
      rcases part x List.mem_cons_self with same | same
      · rw [same]
        cases g x with
        | none => exact rest
        | some y => exact rest.trans (Nat.le_succ _)
      · rw [same]
        cases g x with
        | none => exact rest
        | some y =>
          rw [List.length_cons, List.length_cons]
          omega
  induction l with
  | nil => simp
  | cons x l ih =>
    have later : ∀ y ∈ l, f y = none ∨ f y = g y :=
      fun y listed => part y (List.mem_cons_of_mem x listed)
    have rest : l.filterMap f = l.filterMap g ↔ ∀ y ∈ l, f y = g y := ih later
    rw [List.forall_mem_cons, ← rest, List.filterMap_cons, List.filterMap_cons]
    rcases part x List.mem_cons_self with same | same
    · rw [same]
      cases found : g x with
      | none => simp
      | some y =>
        have bound := shorter l later
        constructor
        · intro equal
          have lengths : (l.filterMap f).length = (l.filterMap g).length + 1 := congrArg List.length equal
          omega
        · intro both
          cases both.1
    · rw [same]
      cases g x with
      | none => simp
      | some y => simp

/-- The prescan finds the `$badfilter` rules of a list exactly when they are written out. -/
theorem iterBadfilter_eq_iff (lib : Library) (py : Scanner) (text source : Text) :
    iterBadfilter lib py text source = (iterList lib py text source).filter Rule.badfilter ↔
      WrittenOut lib py text source := by
  unfold iterBadfilter iterList WrittenOut
  rw [List.filter_filterMap, filterMap_eq_iff]
  · apply forall₂_congr
    intro raw listed
    cases parsed : parseLine lib py source raw with
    | none => simp
    | some r =>
      rw [← parseLine_badfilter parsed]
      by_cases literal : badfilterMark <:+: raw
      · simp [literal]
      · cases carried : r.badfilter <;> simp [literal, Option.filter, carried]
  · intro raw listed
    by_cases literal : badfilterMark <:+: raw
    · right
      rw [if_pos literal]
    · left
      rw [if_neg literal]

end Trench.Filter
