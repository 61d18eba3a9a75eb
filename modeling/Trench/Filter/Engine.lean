import Mathlib
import Trench.Lib.Dict
import Trench.Filter.Rule
import Trench.Filter.Shared

set_option autoImplicit false

/- The compiled rule index and its matcher. A query name is ASCII text, on which
`lower` is `lowerText`. -/

namespace Trench.Filter

open Wire

inductive Action where
  | none
  | block
  | allow
  | rewrite
  deriving DecidableEq, Repr

structure Decision where
  action : Action := .none
  rdata : Option Rdata := none
  rcode : Option Nat := none
  rule : Text := []
  source : Text := []
  reason : Text := []

/-- Prefixes by version and length, the network with the source it came from. -/
structure IPMatcher where
  v4 : Dict Nat (Dict Nat Text) := Dict.empty
  v6 : Dict Nat (Dict Nat Text) := Dict.empty
  size : Nat := 0

namespace IPMatcher

/-- The longest prefix that holds an address of `bits` bits. -/
def longest (table : Dict Nat (Dict Nat Text)) (bits value : Nat) : Option Text :=
  ((table.entries.map Prod.fst).mergeSort fun a b => decide (b ≤ a)).findSome? fun length =>
    let mask := if length = 0 then 0 else ((1 <<< length) - 1) <<< (bits - length)
    (table.get? length).bind fun networks => networks.get? (value &&& mask)

/-- The source of the most specific prefix that holds `ip`. -/
def find (lib : Library) (ips : IPMatcher) (ip : Text) : Option Text :=
  match lib.address ip with
  | none => none
  | some (4, value) => longest ips.v4 32 value
  | some (_, value) => longest ips.v6 128 value

end IPMatcher

/-- Rule sources that are an operator's, not an imported list. -/
def operatorSources : List Text := ["custom".toList, denylist, allowlist]

/-- A bare `||domain^` or hosts block rule with no modifiers. -/
def isPlain (r : Rule) : Bool :=
  r.block && r.suffix.isSome && !r.important && !r.badfilter && r.dnstypes.isNone &&
    r.ctags.isNone && r.clients.isNone && r.dnstypesNot.isNone && r.ctagsNot.isNone &&
    r.clientsNot.isNone && r.denyallow.isEmpty && r.rewrite.isNone

abbrev PatternId := Option Text × Option Text × Option Text × Bool

def patternId (r : Rule) : PatternId :=
  (r.suffix, r.exact, r.regex.map Pattern.pattern, r.block)

/-- The patterns that `$badfilter` rules disable. -/
def badfilterIds (rules : List Rule) : Finset PatternId :=
  ((rules.filter fun r => r.badfilter).map patternId).toFinset

/-- The rules that survive `$badfilter`. -/
def liveRules (rules : List Rule) (badfilterKeys : Option (Finset PatternId)) : List Rule :=
  let keys := badfilterKeys.getD (badfilterIds rules)
  rules.filter fun r => !r.badfilter && !(decide (patternId r ∈ keys) && r.rewrite.isNone)

structure FilterEngine where
  blockPlain : Dict Text Text := Dict.empty
  blockTable : SharedBlockTable := SharedBlockTable.empty
  blockSuffix : Dict Text (List Rule) := Dict.empty
  allowSuffix : Dict Text (List Rule) := Dict.empty
  blockExact : Dict Text (List Rule) := Dict.empty
  allowExact : Dict Text (List Rule) := Dict.empty
  blockRegex : List Rule := []
  allowRegex : List Rule := []
  nRules : Nat := 0
  hasClientRules : Bool := false
  ips : IPMatcher := {}

/-- `table.setdefault(key, []).append(r)`. -/
def appendTo (table : Dict Text (List Rule)) (key : Text) (r : Rule) : Dict Text (List Rule) :=
  table.set key ((table.get? key).getD [] ++ [r])

namespace FilterEngine

/-- Files the rule with the suffix `suffix`; `imported` is absent when an engine is
made around a table. -/
def addSuffix (eng : FilterEngine) (imported : Option (List (Text × Text))) (r : Rule)
    (suffix : Text) : FilterEngine × Option (List (Text × Text)) :=
  if isPlain r then
    match imported with
    | some items =>
      if r.source ∈ operatorSources then
        ({ eng with blockPlain := eng.blockPlain.setDefault suffix r.source }, some items)
      else (eng, some (items ++ [(suffix, r.source)]))
    | none => ({ eng with blockPlain := eng.blockPlain.setDefault suffix r.source }, none)
  else if r.block then
    ({ eng with blockSuffix := appendTo eng.blockSuffix suffix r }, imported)
  else ({ eng with allowSuffix := appendTo eng.allowSuffix suffix r }, imported)

/-- `_add`. -/
def add (into : FilterEngine × Option (List (Text × Text))) (r : Rule) :
    FilterEngine × Option (List (Text × Text)) :=
  let eng := { into.1 with
    nRules := into.1.nRules + 1
    hasClientRules := into.1.hasClientRules || r.clients.isSome || r.clientsNot.isSome }
  match r.regex, r.exact, r.suffix with
  | some _, _, _ =>
    if r.block then ({ eng with blockRegex := eng.blockRegex ++ [r] }, into.2)
    else ({ eng with allowRegex := eng.allowRegex ++ [r] }, into.2)
  | none, some exact, _ =>
    if r.block then ({ eng with blockExact := appendTo eng.blockExact exact r }, into.2)
    else ({ eng with allowExact := appendTo eng.allowExact exact r }, into.2)
  | none, none, some suffix => addSuffix eng into.2 r suffix
  | none, none, none => (eng, into.2)

def compile (rules : List Rule) (badfilterKeys : Option (Finset PatternId)) :
    Except TableFault FilterEngine := do
  let filed := (liveRules rules badfilterKeys).foldl add ({}, some [])
  let table ← SharedBlockTable.build (filed.2.getD [])
  return { filed.1 with blockTable := table }

/-- `compile` with a table path, and the file it leaves there. -/
def compileAt (token : Nat) (rules : List Rule) (badfilterKeys : Option (Finset PatternId)) :
    Except TableFault (TableFile × FilterEngine) := do
  let filed := (liveRules rules badfilterKeys).foldl add ({}, some [])
  let (file, table) ← SharedBlockTable.buildAt token (filed.2.getD [])
  return (file, { filed.1 with blockTable := table })

/-- An engine around a table that is already built. -/
def fromTable (table : SharedBlockTable) (rules : List Rule) : FilterEngine :=
  { ((liveRules rules none).foldl add ({}, none)).1 with blockTable := table }

end FilterEngine

/-- The name without trailing dots, lowercased. -/
def normalName (qname : Text) : Text := Name.lowerText (qname.rdropWhile (· == '.'))

/-- What follows each dot. -/
def afterDots : Text → List Text
  | [] => []
  | c :: rest => if c = '.' then rest :: afterDots rest else afterDots rest

/-- The name and its parents, longest first. -/
def suffixes (qname : Text) : List Text :=
  if normalName qname = [] then [] else normalName qname :: afterDots (normalName qname)

structure Query where
  qname : Text
  qtype : Nat
  ctags : Finset Text
  client : Text
  clientNames : Finset Text

def clientIn (lib : Library) (spec : Finset Text) (q : Query) : Bool :=
  decide (q.client ≠ [] ∧ q.client ∈ spec) || decide (∃ name ∈ q.clientNames, name ∈ spec) ||
    decide (∃ entry ∈ spec, '/' ∈ entry ∧ q.client ≠ [] ∧ lib.inNetwork q.client entry = true)

def underAny (name : Text) (domains : List Text) : Bool :=
  domains.any fun d => name == d || ('.' :: d).isSuffixOf name

/-- The modifiers of a rule let it apply. -/
def isApplicable (lib : Library) (q : Query) (name : Text) (r : Rule) : Bool :=
  r.dnstypes.all (fun types => decide (q.qtype ∈ types)) &&
    r.dnstypesNot.all (fun types => decide (q.qtype ∉ types)) &&
    r.ctags.all (fun tags => !decide (Disjoint q.ctags tags)) &&
    r.ctagsNot.all (fun tags => decide (Disjoint q.ctags tags)) &&
    r.clientsNot.all (fun spec => !clientIn lib spec q) &&
    r.clients.all (fun spec => clientIn lib spec q) &&
    (r.denyallow.isEmpty || !underAny name r.denyallow)

/-- Important first, then the longest suffix or exact name. -/
def score (r : Rule) : Bool ×ₗ Nat :=
  toLex (r.important, (match r.suffix with
    | none | some [] => r.exact.getD []
    | some suffix => suffix).length)

/-- `max(rules, key=score)`, the first of the rules with the highest score. -/
def mostSpecific (rules : List Rule) : Option Rule := rules.argmax score

namespace FilterEngine

/-- The source of a plain rule for `cand`: an operator's shadows the table. -/
def plainSource (eng : FilterEngine) (cand : Text) : Except TableFault (Option Text) :=
  match eng.blockPlain.get? cand with
  | none | some [] => eng.blockTable.get cand
  | some source => .ok (some source)

/-- A plain rule, made again on a hit. -/
def madeRule (cand source : Text) : Rule := { raw := cand, suffix := some cand, source := source }

def plainRules (eng : FilterEngine) : List Text → Except TableFault (List Rule)
  | [] => .ok []
  | cand :: cands => do
    let source ← eng.plainSource cand
    let rules ← eng.plainRules cands
    return (source.map (madeRule cand)).toList ++ rules

def candidates (lib : Library) (eng : FilterEngine) (cands : List Text) (name : Text)
    (suffixTable exactTable : Dict Text (List Rule)) (regexes : List Rule) (plain : Bool) :
    Except TableFault (List Rule) := do
  let made ← if plain then eng.plainRules cands else pure []
  return (cands.flatMap fun cand => (suffixTable.get? cand).getD []) ++ made ++
    (exactTable.get? name).getD [] ++
    regexes.filter fun r => r.regex.any fun pattern => pattern.search lib name

def allowed (r : Rule) : Decision :=
  { action := .allow, rule := r.raw, source := r.source, reason := "allowed by ".toList ++ r.raw }

def blocked (r : Rule) : Decision :=
  match r.rewrite with
  | some rewrite =>
    { action := .rewrite, rdata := rewrite.rdata, rcode := rewrite.rcode, rule := r.raw
      source := r.source, reason := "rewritten by ".toList ++ r.raw }
  | none =>
    { action := .block, rule := r.raw, source := r.source, reason := "blocked by ".toList ++ r.raw }

/-- The decision on the rules that apply: an exception wins unless a block rule is
important and no exception is. -/
def decided (block allow : List Rule) : Decision :=
  let blockImp := block.any fun r => r.important
  let allowImp := allow.any fun r => r.important
  if !allow.isEmpty && !(blockImp && !allowImp) then ((mostSpecific allow).map allowed).getD {}
  else ((mostSpecific block).map blocked).getD {}

/-- `match`. -/
def matchQuery (lib : Library) (eng : FilterEngine) (q : Query) : Except TableFault Decision :=
  match suffixes q.qname with
  | [] => .ok {}
  | name :: parents => do
    let block ← eng.candidates lib (name :: parents) name eng.blockSuffix eng.blockExact
      eng.blockRegex true
    let allow ← eng.candidates lib (name :: parents) name eng.allowSuffix eng.allowExact
      eng.allowRegex false
    return decided (block.filter (isApplicable lib q name)) (allow.filter (isApplicable lib q name))

end FilterEngine

end Trench.Filter
