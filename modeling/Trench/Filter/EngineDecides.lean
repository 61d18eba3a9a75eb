import Mathlib
import Trench.Filter.Engine
import Trench.Filter.SharedExact

set_option autoImplicit false

/- The verdict of a rule list, and the compiled index against it. -/

namespace Trench.Filter

open Wire

/-- `d` is the name or a parent of it: it ends the name on a label boundary. -/
def OnBoundary (name d : Text) : Prop := name = d ∨ ∃ front, name = front ++ '.' :: d

def Pattern.Matches (lib : Library) (name : Text) : Pattern → Prop
  | .regex pattern => lib.search pattern name = true
  | .glob g => g.Matches name

/-- The pattern of a rule matches a name. -/
def Rule.Matches (lib : Library) (name : Text) (r : Rule) : Prop :=
  match r.regex, r.exact, r.suffix with
  | some pattern, _, _ => pattern.Matches lib name
  | none, some exact, _ => name = exact
  | none, none, some suffix => OnBoundary name suffix
  | none, none, none => False

/-- An entry of a `$client` modifier is the address, the name or a network of the client. -/
def ClientIn (lib : Library) (q : Query) (spec : Finset Text) : Prop :=
  (q.client ≠ [] ∧ q.client ∈ spec) ∨ (∃ name ∈ q.clientNames, name ∈ spec) ∨
    ∃ entry ∈ spec, '/' ∈ entry ∧ q.client ≠ [] ∧ lib.inNetwork q.client entry = true

/-- The `$dnstype`, `$ctag`, `$client` and `$denyallow` conditions of a rule hold. -/
structure Rule.AppliesTo (lib : Library) (q : Query) (name : Text) (r : Rule) : Prop where
  dnstypes : ∀ types, r.dnstypes = some types → q.qtype ∈ types
  dnstypesNot : ∀ types, r.dnstypesNot = some types → q.qtype ∉ types
  ctags : ∀ tags, r.ctags = some tags → ¬ Disjoint q.ctags tags
  ctagsNot : ∀ tags, r.ctagsNot = some tags → Disjoint q.ctags tags
  clients : ∀ spec, r.clients = some spec → ClientIn lib q spec
  clientsNot : ∀ spec, r.clientsNot = some spec → ¬ ClientIn lib q spec
  denyallow : ∀ d ∈ r.denyallow, ¬ OnBoundary name d

/-- An exception wins over the block rules. -/
def Wins (block allow : Rule → Prop) : Prop :=
  (∃ r, allow r) ∧
    ((∃ r, block r ∧ r.important = true) → ∃ r, allow r ∧ r.important = true)

/-- No block rule is more specific, important rules being so first. -/
def Foremost (block : Rule → Prop) (r : Rule) : Prop :=
  block r ∧ ∀ other, block other → score other ≤ score r

/-- What the block rules and the exceptions that apply to a query say. -/
inductive Verdict (block allow : Rule → Prop) : Action → Prop
  | allow (wins : Wins block allow) : Verdict block allow .allow
  | rewrite (r : Rule) (loses : ¬ Wins block allow) (foremost : Foremost block r)
      (rewrites : r.rewrite ≠ none) : Verdict block allow .rewrite
  | block (r : Rule) (loses : ¬ Wins block allow) (foremost : Foremost block r)
      (plainly : r.rewrite = none) : Verdict block allow .block
  | none (loses : ¬ Wins block allow) (empty : ∀ r, ¬ block r) : Verdict block allow .none

/-- A rule of the list that is not disabled, matches the name and applies. -/
def Applicable (lib : Library) (rules : List Rule) (q : Query) (r : Rule) : Prop :=
  r ∈ liveRules rules none ∧ r.Matches lib (normalName q.qname) ∧
    r.AppliesTo lib q (normalName q.qname)

/-- The reference evaluation of a rule list. -/
def Decides (lib : Library) (rules : List Rule) (q : Query) (action : Action) : Prop :=
  Verdict (fun r => Applicable lib rules q r ∧ r.block = true)
    (fun r => Applicable lib rules q r ∧ r.block = false) action

/-- The text of a name of plain labels: ASCII, no more than 255 octets, not the root. -/
structure PlainName (qname : Text) : Prop where
  ascii : ∀ c ∈ qname, c.toNat < 128
  labels : normalName qname ≠ []
  octets : (encode (normalName qname)).length ≤ 255

/-! ### Modifiers and suffixes -/

theorem isSuffixOf_dot {name d : Text} :
    ('.' :: d).isSuffixOf name = true ↔ ∃ front, name = front ++ '.' :: d := by
  rw [List.isSuffixOf_iff_suffix]
  constructor
  · intro ends
    obtain ⟨front, same⟩ := ends
    exact ⟨front, same.symm⟩
  · intro ends
    obtain ⟨front, same⟩ := ends
    exact ⟨front, same.symm⟩

theorem underAny_iff {name : Text} {domains : List Text} :
    underAny name domains = true ↔ ∃ d ∈ domains, OnBoundary name d := by
  unfold underAny OnBoundary
  rw [List.any_eq_true]
  constructor
  · intro found
    obtain ⟨d, listed, under⟩ := found
    rw [Bool.or_eq_true, beq_iff_eq, isSuffixOf_dot] at under
    exact ⟨d, listed, under⟩
  · intro found
    obtain ⟨d, listed, under⟩ := found
    refine ⟨d, listed, ?_⟩
    rw [Bool.or_eq_true, beq_iff_eq, isSuffixOf_dot]
    exact under

theorem clientIn_iff {lib : Library} {spec : Finset Text} {q : Query} :
    clientIn lib spec q = true ↔ ClientIn lib q spec := by
  unfold clientIn ClientIn
  rw [Bool.or_eq_true, Bool.or_eq_true, decide_eq_true_iff, decide_eq_true_iff,
    decide_eq_true_iff, or_assoc]

theorem option_all {α : Type} {o : Option α} {p : α → Bool} :
    o.all p = true ↔ ∀ a, o = some a → p a = true := by
  cases o <;> simp

theorem isApplicable_iff {lib : Library} {q : Query} {name : Text} {r : Rule} :
    isApplicable lib q name r = true ↔ r.AppliesTo lib q name := by
  unfold isApplicable
  simp only [Bool.and_eq_true, Bool.or_eq_true, option_all, decide_eq_true_iff,
    Bool.not_eq_true', List.isEmpty_iff, clientIn_iff,
    ← Bool.not_eq_true, underAny_iff]
  constructor
  · intro all
    obtain ⟨⟨⟨⟨⟨⟨types, typesNot⟩, tags⟩, tagsNot⟩, clientsNot⟩, clients⟩, deny⟩ := all
    refine ⟨types, typesNot, tags, tagsNot, clients, clientsNot, ?_⟩
    intro d listed under
    rcases deny with none | outside
    · rw [none] at listed
      cases listed
    · exact outside ⟨d, listed, under⟩
  · intro applies
    obtain ⟨types, typesNot, tags, tagsNot, clients, clientsNot, deny⟩ := applies
    refine ⟨⟨⟨⟨⟨⟨types, typesNot⟩, tags⟩, tagsNot⟩, clientsNot⟩, clients⟩, .inr ?_⟩
    intro found
    obtain ⟨d, listed, under⟩ := found
    exact deny d listed under

theorem mem_afterDots {name d : Text} : d ∈ afterDots name ↔ ∃ front, name = front ++ '.' :: d := by
  induction name with
  | nil =>
    constructor
    · intro listed
      cases listed
    · intro ends
      obtain ⟨front, same⟩ := ends
      cases front <;> cases same
  | cons c rest ih =>
    unfold afterDots
    split
    · next dot =>
        rw [List.mem_cons, ih]
        constructor
        · intro either
          rcases either with rfl | ⟨front, same⟩
          · exact ⟨[], by rw [dot]; rfl⟩
          · exact ⟨c :: front, by rw [same]; rfl⟩
        · intro ends
          obtain ⟨front, same⟩ := ends
          cases front with
          | nil =>
            simp only [List.nil_append, List.cons.injEq] at same
            exact .inl same.2.symm
          | cons first front =>
            simp only [List.cons_append, List.cons.injEq] at same
            exact .inr ⟨front, same.2⟩
    · next other =>
        rw [ih]
        constructor
        · intro ends
          obtain ⟨front, same⟩ := ends
          exact ⟨c :: front, by rw [same]; rfl⟩
        · intro ends
          obtain ⟨front, same⟩ := ends
          cases front with
          | nil =>
            simp only [List.nil_append, List.cons.injEq] at same
            exact absurd same.1 other
          | cons first front =>
            simp only [List.cons_append, List.cons.injEq] at same
            exact ⟨front, same.2⟩

/-- The keys looked up for a name are the names that end it on a label boundary. -/
theorem mem_suffixes {qname d : Text} (labels : normalName qname ≠ []) :
    d ∈ suffixes qname ↔ OnBoundary (normalName qname) d := by
  unfold suffixes OnBoundary
  rw [if_neg labels, List.mem_cons, mem_afterDots]
  constructor
  · intro either
    rcases either with same | ends
    · exact .inl same.symm
    · exact .inr ends
  · intro either
    rcases either with same | ends
    · exact .inl same.symm
    · exact .inr ends

theorem toLower_eq_dot {c : Char} (dot : c.toLower = '.') : c = '.' := by
  unfold Char.toLower at dot
  split at dot
  · next upper =>
      have value := congrArg (fun d => d.val.toNat) dot
      obtain ⟨low, high⟩ := upper
      rw [ge_iff_le, UInt32.le_iff_toNat_le] at low
      rw [UInt32.le_iff_toNat_le] at high
      simp at low high value
      omega
  · exact dot

/-- A name has no empty label at its end. -/
theorem not_onBoundary_nil {qname : Text} (labels : normalName qname ≠ []) :
    ¬ OnBoundary (normalName qname) [] := by
  intro boundary
  rcases boundary with bare | ⟨front, same⟩
  · exact labels bare
  · unfold normalName Name.lowerText at same labels
    have kept : qname.rdropWhile (· == '.') ≠ [] := by
      intro none
      rw [none] at labels
      exact labels rfl
    have last := List.rdropWhile_last_not (· == '.') qname kept
    apply last
    have final : ((qname.rdropWhile (· == '.')).map Char.toLower).getLast labels = '.' := by
      simp only [same]
      exact List.getLast_concat
    rw [List.getLast_map] at final
    rw [beq_iff_eq]
    exact toLower_eq_dot final

/-! ### Filing -/

/-- Where the index keeps a rule: under a key of its suffix or exact table, in its list
of patterns, or as a plain domain. -/
inductive Place where
  | suffix (block : Bool) (key : Text)
  | exact (block : Bool) (key : Text)
  | regex (block : Bool)
  | plain (key : Text)
  | nowhere
  deriving DecidableEq

def Rule.place (r : Rule) : Place :=
  match r.regex, r.exact, r.suffix with
  | some _, _, _ => .regex r.block
  | none, some key, _ => .exact r.block key
  | none, none, some key => if isPlain r then .plain key else .suffix r.block key
  | none, none, none => .nowhere

/-- The rules that an engine keeps at a place. -/
def FilterEngine.held (eng : FilterEngine) : Place → List Rule
  | .suffix true key => (eng.blockSuffix.get? key).getD []
  | .suffix false key => (eng.allowSuffix.get? key).getD []
  | .exact true key => (eng.blockExact.get? key).getD []
  | .exact false key => (eng.allowExact.get? key).getD []
  | .regex true => eng.blockRegex
  | .regex false => eng.allowRegex
  | .plain _ => []
  | .nowhere => []

def Place.keepsRules : Place → Bool
  | .plain _ => false
  | .nowhere => false
  | _ => true

theorem getD_appendTo (table : Dict Text (List Rule)) (key k : Text) (r : Rule) :
    ((appendTo table key r).get? k).getD [] =
      (table.get? k).getD [] ++ if key = k then [r] else [] := by
  unfold appendTo
  rw [Dict.get?_set]
  by_cases same : key = k
  · rw [if_pos (beq_iff_eq.mpr same), if_pos same, same]
    rfl
  · rw [if_neg (fun equal => same (beq_iff_eq.mp equal)), if_neg same, List.append_nil]

variable {eng : FilterEngine} {imported : Option (List (Text × Text))}

/-- Adding a rule appends it at its place. -/
theorem held_add (r : Rule) (p : Place) (keeps : p.keepsRules = true) :
    (FilterEngine.add (eng, imported) r).1.held p =
      eng.held p ++ if r.place = p then [r] else [] := by
  unfold FilterEngine.add Rule.place
  cases r.regex with
  | some pattern =>
    cases block : r.block <;> rcases p with (_ | _) | (_ | _) | (_ | _) | _ | _ <;>
      simp [FilterEngine.held]
  | none =>
    cases r.exact with
    | some key =>
      cases block : r.block <;> rcases p with (_ | _) | (_ | _) | (_ | _) | _ | _ <;>
        simp [FilterEngine.held, getD_appendTo]
    | none =>
      cases r.suffix with
      | none =>
        rcases p with (_ | _) | (_ | _) | (_ | _) | _ | _ <;>
          simp_all [FilterEngine.held, Place.keepsRules]
      | some key =>
        unfold FilterEngine.addSuffix
        cases plain : isPlain r with
        | true =>
          have other : (Place.plain key = p) = False := by
            cases p <;> simp_all [Place.keepsRules]
          simp only [↓reduceIte, other, List.append_nil]
          cases imported with
          | none => rcases p with (_ | _) | (_ | _) | (_ | _) | _ | _ <;> rfl
          | some items =>
            by_cases operator : r.source ∈ operatorSources <;>
              rcases p with (_ | _) | (_ | _) | (_ | _) | _ | _ <;>
              simp [FilterEngine.held, operator]
        | false =>
          cases block : r.block <;> rcases p with (_ | _) | (_ | _) | (_ | _) | _ | _ <;>
            simp [FilterEngine.held, getD_appendTo]

/-- A rule that `compile` sends to the shared table. -/
def Rule.isImported (r : Rule) : Bool :=
  isPlain r && r.regex.isNone && r.exact.isNone && !decide (r.source ∈ operatorSources)

/-- The domains and sources that `compile` builds the shared table from. -/
def importedItems (rules : List Rule) : List (Text × Text) :=
  (rules.filter Rule.isImported).map fun r => (r.suffix.getD [], r.source)

theorem importedItems_snoc (rules : List Rule) (r : Rule) :
    importedItems (rules ++ [r]) =
      importedItems rules ++ if r.isImported then [(r.suffix.getD [], r.source)] else [] := by
  unfold importedItems
  rw [List.filter_append, List.map_append]
  congr 1
  rw [List.filter_singleton]
  cases r.isImported <;> rfl

/-- The rules of an operator that go to the plain table, by domain. -/
def Rule.IsOperatorPlain (r : Rule) (key : Text) : Prop :=
  r.place = .plain key ∧ r.source ∈ operatorSources

theorem place_eq_plain {r : Rule} {key : Text} :
    r.place = .plain key ↔
      isPlain r = true ∧ r.regex = none ∧ r.exact = none ∧ r.suffix = some key := by
  unfold Rule.place
  cases r.regex with
  | some pattern => simp
  | none =>
    cases r.exact with
    | some name => simp
    | none =>
      cases r.suffix with
      | none => simp
      | some suffix => cases isPlain r <;> simp

/-- The plain tables after a rule is added. -/
theorem add_plain (eng : FilterEngine) (items : List (Text × Text)) (r : Rule) :
    (FilterEngine.add (eng, some items) r).2 =
        some (items ++ if r.isImported then [(r.suffix.getD [], r.source)] else []) ∧
      ((∃ key, r.IsOperatorPlain key ∧ (FilterEngine.add (eng, some items) r).1.blockPlain =
          eng.blockPlain.setDefault key r.source) ∨
        (∀ key, ¬ r.IsOperatorPlain key) ∧
          (FilterEngine.add (eng, some items) r).1.blockPlain = eng.blockPlain) := by
  unfold FilterEngine.add Rule.IsOperatorPlain Rule.place Rule.isImported
  cases r.regex with
  | some pattern => cases r.block <;> simp
  | none =>
    cases r.exact with
    | some key => cases r.block <;> simp
    | none =>
      cases suffix : r.suffix with
      | none => simp [isPlain, suffix]
      | some key =>
        unfold FilterEngine.addSuffix
        cases plain : isPlain r with
        | true => by_cases operator : r.source ∈ operatorSources <;> simp [operator]
        | false => cases r.block <;> simp

/-- Where each of the rules filed is found. -/
structure Filed (rules : List Rule) (eng : FilterEngine) (items : List (Text × Text)) : Prop where
  held : ∀ p : Place, p.keepsRules = true → ∀ r, r ∈ eng.held p ↔ r ∈ rules ∧ r.place = p
  plain : ∀ key, (eng.blockPlain.get? key).isSome = true ↔ ∃ r ∈ rules, r.IsOperatorPlain key
  named : ∀ key source, eng.blockPlain.get? key = some source → source ≠ []
  items : items = importedItems rules

theorem ne_nil_of_operator {source : Text} (operator : source ∈ operatorSources) : source ≠ [] := by
  intro empty
  subst empty
  revert operator
  decide

theorem Filed.add {rules : List Rule} {items : List (Text × Text)} (filed : Filed rules eng items)
    (r : Rule) :
    ∃ items', (FilterEngine.add (eng, some items) r).2 = some items' ∧
      Filed (rules ++ [r]) (FilterEngine.add (eng, some items) r).1 items' := by
  obtain ⟨sent, table⟩ := add_plain eng items r
  refine ⟨_, sent, ?_, ?_, ?_, ?_⟩
  · intro p keeps x
    rw [held_add r p keeps, List.mem_append, List.mem_append, filed.held p keeps]
    by_cases here : r.place = p
    · rw [if_pos here, List.mem_singleton]
      constructor
      · intro either
        rcases either with old | rfl
        · exact ⟨.inl old.1, old.2⟩
        · exact ⟨.inr rfl, here⟩
      · intro both
        obtain ⟨either, at_p⟩ := both
        rcases either with old | last
        · exact .inl ⟨old, at_p⟩
        · exact .inr last
    · rw [if_neg here, List.mem_singleton]
      constructor
      · intro either
        rcases either with old | none
        · exact ⟨.inl old.1, old.2⟩
        · cases none
      · intro both
        obtain ⟨either, at_p⟩ := both
        rcases either with old | rfl
        · exact .inl ⟨old, at_p⟩
        · exact absurd at_p here
  · intro key
    rcases table with ⟨new, operator, set⟩ | ⟨other, same⟩
    · rw [set, Dict.get?_setDefault]
      constructor
      · intro found
        split at found
        · next equal =>
            rw [beq_iff_eq] at equal
            subst equal
            exact ⟨r, List.mem_append_right _ (List.mem_singleton_self r), operator⟩
        · obtain ⟨x, listed, plain⟩ := (filed.plain key).mp found
          exact ⟨x, List.mem_append_left _ listed, plain⟩
      · intro found
        obtain ⟨x, listed, plain⟩ := found
        split
        · rfl
        · next apart =>
            rw [filed.plain]
            rcases List.mem_append.mp listed with old | last
            · exact ⟨x, old, plain⟩
            · rw [List.mem_singleton.mp last] at plain
              apply absurd _ apart
              rw [beq_iff_eq]
              have same := operator.1.symm.trans plain.1
              cases same
              rfl
    · rw [same, filed.plain]
      constructor
      · intro found
        obtain ⟨x, listed, plain⟩ := found
        exact ⟨x, List.mem_append_left _ listed, plain⟩
      · intro found
        obtain ⟨x, listed, plain⟩ := found
        rcases List.mem_append.mp listed with old | last
        · exact ⟨x, old, plain⟩
        · rw [List.mem_singleton.mp last] at plain
          exact absurd plain (other key)
  · intro key source found
    rcases table with ⟨new, operator, set⟩ | ⟨-, same⟩
    · rw [set, Dict.get?_setDefault] at found
      split at found
      · cases old : eng.blockPlain.get? key with
        | some kept =>
          rw [old, Option.getD_some, Option.some.injEq] at found
          rw [← found]
          exact filed.named key kept old
        | none =>
          rw [old, Option.getD_none, Option.some.injEq] at found
          rw [← found]
          exact ne_nil_of_operator operator.2
      · exact filed.named key source found
    · rw [same] at found
      exact filed.named key source found
  · rw [importedItems_snoc, filed.items]

theorem filed_empty : Filed [] {} [] := by
  constructor
  · intro p _ r
    constructor
    · intro held
      rcases p with (_ | _) | (_ | _) | (_ | _) | _ | _ <;> cases held
    · intro both
      cases both.1
  · intro key
    constructor
    · intro held
      cases held
    · intro found
      obtain ⟨r, none, -⟩ := found
      cases none
  · intro key source held
    cases held
  · rfl

/-- Filing a list of rules one after the other. -/
theorem filed_foldl (rules : List Rule) :
    ∃ eng items, rules.foldl FilterEngine.add ({}, some []) = (eng, some items) ∧
      Filed rules eng items := by
  induction rules using List.reverseRecOn with
  | nil => exact ⟨{}, [], rfl, filed_empty⟩
  | append_singleton rules r ih =>
    obtain ⟨eng, items, folded, filed⟩ := ih
    obtain ⟨items', sent, filed'⟩ := filed.add r
    refine ⟨_, items', ?_, filed'⟩
    rw [List.foldl_append, folded, ← sent]
    rfl

/-! ### Candidates -/

theorem search_iff {lib : Library} {name : Text} {pattern : Pattern} :
    pattern.search lib name = true ↔ pattern.Matches lib name := by
  cases pattern with
  | regex pattern => rfl
  | glob g => exact g.search_iff name

theorem plainRules_spec {f : Text → Option Text} (cands : List Text)
    (sources : ∀ cand ∈ cands, eng.plainSource cand = .ok (f cand)) :
    ∃ made, eng.plainRules cands = .ok made ∧ ∀ r, r ∈ made ↔
      ∃ cand ∈ cands, ∃ source, f cand = some source ∧ r = FilterEngine.madeRule cand source := by
  induction cands with
  | nil =>
    refine ⟨[], rfl, ?_⟩
    intro r
    simp
  | cons cand cands ih =>
    obtain ⟨made, rest, members⟩ := ih fun other listed => sources other (List.mem_cons_of_mem _ listed)
    refine ⟨((f cand).map (FilterEngine.madeRule cand)).toList ++ made, ?_, ?_⟩
    · unfold FilterEngine.plainRules
      rw [sources cand List.mem_cons_self, rest]
      rfl
    · intro r
      rw [List.mem_append, members, Option.mem_toList, Option.map_eq_some_iff]
      constructor
      · intro either
        rcases either with ⟨source, found, same⟩ | ⟨other, listed, more⟩
        · exact ⟨cand, List.mem_cons_self, source, found, same.symm⟩
        · exact ⟨other, List.mem_cons_of_mem _ listed, more⟩
      · intro found
        obtain ⟨other, listed, source, found, same⟩ := found
        rcases List.mem_cons.mp listed with rfl | later
        · exact .inl ⟨source, found, same.symm⟩
        · exact .inr ⟨other, later, source, found, same⟩

/-- The rules of one polarity that could apply to a name, table by table. -/
theorem candidates_eq (eng : FilterEngine) (lib : Library) {f : Text → Option Text} (cands : List Text) (name : Text)
    (block : Bool) (sources : ∀ cand ∈ cands, eng.plainSource cand = .ok (f cand))
    {suffixTable exactTable : Dict Text (List Rule)} {regexes : List Rule}
    (suffix : ∀ k, (suffixTable.get? k).getD [] = eng.held (.suffix block k))
    (exact : ∀ k, (exactTable.get? k).getD [] = eng.held (.exact block k))
    (regex : regexes = eng.held (.regex block)) :
    ∃ made, (∀ r, r ∈ made ↔ block = true ∧ ∃ cand ∈ cands, ∃ source,
        f cand = some source ∧ r = FilterEngine.madeRule cand source) ∧
      eng.candidates lib cands name suffixTable exactTable regexes block =
        .ok ((cands.flatMap fun cand => eng.held (.suffix block cand)) ++ made ++
          eng.held (.exact block name) ++
          (eng.held (.regex block)).filter fun r => r.regex.any fun pattern => pattern.search lib name) := by
  obtain ⟨made, rest, members⟩ := plainRules_spec cands sources
  refine ⟨if block then made else [], ?_, ?_⟩
  · intro r
    cases block with
    | false => simp
    | true => simp [members]
  · unfold FilterEngine.candidates
    simp only [suffix, exact, regex]
    cases block with
    | false => rfl
    | true =>
      simp only [↓reduceIte]
      rw [rest]
      rfl

theorem candidates_spec (eng : FilterEngine) (lib : Library) {f : Text → Option Text} (cands : List Text) (name : Text)
    (block : Bool) (sources : ∀ cand ∈ cands, eng.plainSource cand = .ok (f cand))
    {suffixTable exactTable : Dict Text (List Rule)} {regexes : List Rule}
    (suffix : ∀ k, (suffixTable.get? k).getD [] = eng.held (.suffix block k))
    (exact : ∀ k, (exactTable.get? k).getD [] = eng.held (.exact block k))
    (regex : regexes = eng.held (.regex block)) :
    ∃ found, eng.candidates lib cands name suffixTable exactTable regexes block = .ok found ∧
      ∀ r, r ∈ found ↔ (∃ cand ∈ cands, r ∈ eng.held (.suffix block cand)) ∨
        (block = true ∧ ∃ cand ∈ cands, ∃ source,
          f cand = some source ∧ r = FilterEngine.madeRule cand source) ∨
        r ∈ eng.held (.exact block name) ∨
        (r ∈ eng.held (.regex block) ∧
          ∃ pattern, r.regex = some pattern ∧ pattern.Matches lib name) := by
  obtain ⟨made, members, found⟩ := candidates_eq eng lib cands name block sources suffix exact regex
  refine ⟨_, found, fun r => ?_⟩
  simp only [List.mem_append, List.mem_flatMap, List.mem_filter, members, Option.any_eq_true, search_iff, or_assoc]

/-- What the place of a rule says of the names it matches. -/
theorem matches_iff {lib : Library} {name : Text} {r : Rule} :
    r.Matches lib name ↔
      match r.place with
      | .suffix _ key => OnBoundary name key
      | .plain key => OnBoundary name key
      | .exact _ key => name = key
      | .regex _ => ∃ pattern, r.regex = some pattern ∧ pattern.Matches lib name
      | .nowhere => False := by
  unfold Rule.Matches Rule.place
  cases r.regex with
  | some pattern => simp
  | none =>
    cases r.exact with
    | some key => simp
    | none =>
      cases r.suffix with
      | none => simp
      | some key => cases isPlain r <;> simp

theorem block_of_place {r : Rule} :
    match r.place with
    | .suffix block _ => r.block = block
    | .plain _ => r.block = true
    | .exact block _ => r.block = block
    | .regex block => r.block = block
    | .nowhere => True := by
  unfold Rule.place
  cases r.regex with
  | some pattern => rfl
  | none =>
    cases r.exact with
    | some key => rfl
    | none =>
      cases r.suffix with
      | none => trivial
      | some key =>
        cases plain : isPlain r with
        | false => rfl
        | true =>
          unfold isPlain at plain
          simp only [Bool.and_eq_true] at plain
          exact plain.1.1.1.1.1.1.1.1.1.1.1

/-- A plain rule has no modifier and weighs what the rule made again does. -/
theorem plain_spec (lib : Library) (q : Query) {r : Rule} (plain : isPlain r = true) :
    r.AppliesTo lib q (normalName q.qname) ∧ r.important = false ∧ r.rewrite = none := by
  unfold isPlain at plain
  simp only [Bool.and_eq_true, Bool.not_eq_true', Option.isNone_iff_eq_none,
    List.isEmpty_iff] at plain
  obtain ⟨⟨⟨⟨⟨⟨⟨⟨⟨⟨-, important⟩, -⟩, types⟩, tags⟩, clients⟩, typesNot⟩, tagsNot⟩, clientsNot⟩,
    deny⟩, rewrite⟩ := plain
  refine ⟨⟨?_, ?_, ?_, ?_, ?_, ?_, ?_⟩, important, rewrite⟩
  · simp [types]
  · simp [typesNot]
  · simp [tags]
  · simp [tagsNot]
  · simp [clients]
  · simp [clientsNot]
  · simp [deny]

/-! ### Decision -/

/-- Two rules that weigh the same in a decision. -/
structure Twin (r r' : Rule) : Prop where
  score : score r = score r'
  important : r.important = r'.important
  rewrite : r.rewrite = r'.rewrite

/-- Every rule of one set has its twin in the other. -/
def Mirrors (a b : Rule → Prop) : Prop := ∀ r, a r → ∃ r', b r' ∧ Twin r r'

theorem Wins.congr {block block' allow allow' : Rule → Prop} (blocks : Mirrors block' block)
    (allows : Mirrors allow allow') (wins : Wins block allow) : Wins block' allow' := by
  obtain ⟨⟨r, held⟩, important⟩ := wins
  obtain ⟨r', held', -⟩ := allows r held
  refine ⟨⟨r', held'⟩, ?_⟩
  intro against
  obtain ⟨b', blocked, heavy⟩ := against
  obtain ⟨b, blocked', twin⟩ := blocks b' blocked
  obtain ⟨a, allowed, heavy'⟩ := important ⟨b, blocked', by rw [← twin.important, heavy]⟩
  obtain ⟨a', allowed', twin'⟩ := allows a allowed
  exact ⟨a', allowed', by rw [← twin'.important, heavy']⟩

theorem Verdict.congr {block block' allow allow' : Rule → Prop} (blocks : Mirrors block block')
    (blocks' : Mirrors block' block) (allows : Mirrors allow allow')
    (allows' : Mirrors allow' allow) {action : Action} (verdict : Verdict block allow action) :
    Verdict block' allow' action := by
  have loses (other : ¬ Wins block allow) : ¬ Wins block' allow' :=
    fun wins => other (wins.congr blocks allows')
  have moves {r : Rule} (foremost : Foremost block r) :
      ∃ r', Foremost block' r' ∧ r.rewrite = r'.rewrite := by
    obtain ⟨held, best⟩ := foremost
    obtain ⟨r', held', twin⟩ := blocks r held
    refine ⟨r', ⟨held', ?_⟩, twin.rewrite⟩
    intro other' listed'
    obtain ⟨other, listed, twin'⟩ := blocks' other' listed'
    rw [twin'.score, ← twin.score]
    exact best other listed
  cases verdict with
  | allow wins => exact .allow (wins.congr blocks' allows)
  | rewrite r lost foremost rewrites =>
    obtain ⟨r', foremost', same⟩ := moves foremost
    exact .rewrite r' (loses lost) foremost' (by rw [← same]; exact rewrites)
  | block r lost foremost plainly =>
    obtain ⟨r', foremost', same⟩ := moves foremost
    exact .block r' (loses lost) foremost' (by rw [← same]; exact plainly)
  | none lost empty =>
    apply Verdict.none (loses lost)
    intro r' held'
    obtain ⟨r, held, -⟩ := blocks' r' held'
    exact empty r held

theorem mostSpecific_spec {rules : List Rule} {r : Rule} (best : mostSpecific rules = some r) :
    Foremost (· ∈ rules) r :=
  ⟨List.argmax_mem best, fun _ listed => List.le_of_mem_argmax listed best⟩

theorem blocked_action (r : Rule) :
    (FilterEngine.blocked r).action = if r.rewrite = none then .block else .rewrite := by
  unfold FilterEngine.blocked
  cases r.rewrite with
  | none => rfl
  | some rewrite => rfl

/-- The exceptions win as the flags of the two lists say. -/
theorem wins_iff (block allow : List Rule) :
    (!allow.isEmpty && !(block.any (fun r => r.important) && !allow.any fun r => r.important)) = true ↔
      Wins (· ∈ block) (· ∈ allow) := by
  unfold Wins
  have flag : ∀ l : List Rule, (∃ r, r ∈ l ∧ r.important = true) ↔
      (l.any fun r => r.important) = true := fun l => List.any_eq_true.symm
  rw [Bool.and_eq_true, Bool.not_eq_true', List.isEmpty_eq_false_iff_exists_mem, flag, flag]
  cases block.any fun r => r.important <;> cases allow.any fun r => r.important <;> simp

theorem decided_of_wins {block allow : List Rule} (won : Wins (· ∈ block) (· ∈ allow)) :
    (FilterEngine.decided block allow).action = .allow := by
  unfold FilterEngine.decided
  simp only [(wins_iff block allow).mpr won, ↓reduceIte]
  cases best : mostSpecific allow with
  | none =>
    obtain ⟨⟨r, listed⟩, -⟩ := won
    rw [List.argmax_eq_none.mp best] at listed
    cases listed
  | some r => rfl

theorem decided_of_loses {block allow : List Rule} (lost : ¬ Wins (· ∈ block) (· ∈ allow)) :
    FilterEngine.decided block allow = ((mostSpecific block).map FilterEngine.blocked).getD {} := by
  unfold FilterEngine.decided
  simp only [(wins_iff block allow).not.mpr lost, Bool.false_eq_true, ↓reduceIte]

/-- The decision on two lists of rules is the verdict on their members. -/
theorem decided_verdict (block allow : List Rule) :
    Verdict (· ∈ block) (· ∈ allow) (FilterEngine.decided block allow).action := by
  by_cases won : Wins (· ∈ block) (· ∈ allow)
  · rw [decided_of_wins won]
    exact .allow won
  · rw [decided_of_loses won]
    cases best : mostSpecific block with
    | none =>
      apply Verdict.none won
      intro r listed
      rw [List.argmax_eq_none.mp best] at listed
      cases listed
    | some r =>
      show Verdict _ _ (FilterEngine.blocked r).action
      rw [blocked_action]
      split
      · next plainly => exact .block r won (mostSpecific_spec best) plainly
      · next rewrites => exact .rewrite r won (mostSpecific_spec best) rewrites

/-! ### The index against the list -/

/-- The shared table holds the imported domains of a rule list: they fit it, and none
is left out for want of a source identifier. -/
structure TableHolds (rules : List Rule) : Prop where
  fitting : Fitting (blobCapacity (importedItems (liveRules rules none)))
    (stored (importedItems (liveRules rules none)))
  complete : ∀ item ∈ importedItems (liveRules rules none), (encode item.1).length ≠ 0 →
    (encode item.1).length ≤ maxLen →
      item.1 ∈ (stored (importedItems (liveRules rules none))).map Prod.fst

/-- A key looked up for a name of plain labels has 1 to 255 octets. -/
theorem octets_of_suffix {qname cand : Text} (plain : PlainName qname) (listed : cand ∈ suffixes qname) :
    cand ≠ [] ∧ (encode cand).length ≤ maxLen := by
  rw [mem_suffixes plain.labels] at listed
  constructor
  · intro empty
    rw [empty] at listed
    exact not_onBoundary_nil plain.labels listed
  · have short := plain.octets
    unfold maxLen
    rcases listed with same | ⟨front, same⟩
    · rwa [← same]
    · rw [same, ← List.singleton_append, encode_append, encode_append, List.length_append,
        List.length_append] at short
      omega

theorem encode_ne_nil {domain : Text} (some_character : domain ≠ []) : (encode domain).length ≠ 0 := by
  intro none
  apply some_character
  apply encode_injective
  rw [List.length_eq_zero_iff.mp none]
  rfl

theorem mem_importedItems {rules : List Rule} {domain source : Text} :
    (domain, source) ∈ importedItems rules ↔
      ∃ r ∈ rules, r.place = .plain domain ∧ r.source = source ∧ source ∉ operatorSources := by
  unfold importedItems Rule.isImported
  simp only [List.mem_map, List.mem_filter, Bool.and_eq_true, Option.isNone_iff_eq_none,
    Bool.not_eq_true', decide_eq_false_iff_not, place_eq_plain, Prod.mk.injEq]
  constructor
  · intro found
    obtain ⟨r, ⟨listed, ⟨⟨plain, regex⟩, exact⟩, outside⟩, key, named⟩ := found
    refine ⟨r, listed, ⟨plain, regex, exact, ?_⟩, named, by rw [← named]; exact outside⟩
    have keyed : r.suffix.isSome = true := by
      unfold isPlain at plain
      simp only [Bool.and_eq_true] at plain
      exact plain.1.1.1.1.1.1.1.1.1.1.2
    obtain ⟨suffix, here⟩ := Option.isSome_iff_exists.mp keyed
    rw [here, Option.getD_some] at key
    rw [here, key]
  · intro found
    obtain ⟨r, listed, ⟨plain, regex, exact, suffix⟩, named, outside⟩ := found
    refine ⟨r, ⟨listed, ⟨⟨plain, regex⟩, exact⟩, by rw [named]; exact outside⟩, ?_, named⟩
    rw [suffix]
    rfl

/-- What an engine needs of its tables to decide like the rules filed in it. -/
structure Serves (rules : List Rule) (eng : FilterEngine) (qname : Text) : Prop where
  held : ∀ p : Place, p.keepsRules = true → ∀ r, r ∈ eng.held p ↔ r ∈ rules ∧ r.place = p
  plain : ∀ cand ∈ suffixes qname, ∃ source, eng.plainSource cand = .ok source ∧
    (source.isSome = true ↔ ∃ r ∈ rules, r.place = .plain cand)

/-- The rule made for a plain domain weighs what any plain rule of the domain does. -/
theorem twin_madeRule {r : Rule} {domain : Text} (source : Text) (place : r.place = .plain domain)
    (some_character : domain ≠ []) : Twin (FilterEngine.madeRule domain source) r := by
  obtain ⟨plain, -, -, suffix⟩ := place_eq_plain.mp place
  have important : r.important = false ∧ r.rewrite = none := by
    unfold isPlain at plain
    simp only [Bool.and_eq_true, Bool.not_eq_true', Option.isNone_iff_eq_none] at plain
    exact ⟨plain.1.1.1.1.1.1.1.1.1.2, plain.2⟩
  constructor
  · unfold score
    rw [suffix, important.1]
    cases domain with
    | nil => exact absurd rfl some_character
    | cons c rest => rfl
  · exact important.1.symm
  · exact important.2.symm

theorem Twin.refl (r : Rule) : Twin r r := ⟨rfl, rfl, rfl⟩

theorem Twin.symm {r r' : Rule} (twin : Twin r r') : Twin r' r :=
  ⟨twin.score.symm, twin.important.symm, twin.rewrite.symm⟩

/-- The candidates that apply and the rules of the list that do, rule for rule. -/
theorem Serves.mirrors (lib : Library) {rules : List Rule} {q : Query}
    (serves : Serves (liveRules rules none) eng q.qname) (named : PlainName q.qname)
    {f : Text → Option Text} (sources : ∀ cand ∈ suffixes q.qname, eng.plainSource cand = .ok (f cand))
    (block : Bool) {found : List Rule}
    (members : ∀ r, r ∈ found ↔ (∃ cand ∈ suffixes q.qname, r ∈ eng.held (.suffix block cand)) ∨
      (block = true ∧ ∃ cand ∈ suffixes q.qname, ∃ source,
        f cand = some source ∧ r = FilterEngine.madeRule cand source) ∨
      r ∈ eng.held (.exact block (normalName q.qname)) ∨
      (r ∈ eng.held (.regex block) ∧
        ∃ pattern, r.regex = some pattern ∧ pattern.Matches lib (normalName q.qname))) :
    Mirrors (· ∈ found.filter (isApplicable lib q (normalName q.qname)))
        (fun r => Applicable lib rules q r ∧ r.block = block) ∧
      Mirrors (fun r => Applicable lib rules q r ∧ r.block = block)
        (· ∈ found.filter (isApplicable lib q (normalName q.qname))) := by
  have boundary : ∀ cand, cand ∈ suffixes q.qname ↔ OnBoundary (normalName q.qname) cand :=
    fun _ => mem_suffixes named.labels
  have given : ∀ cand ∈ suffixes q.qname,
      (f cand).isSome = true ↔ ∃ r ∈ liveRules rules none, r.place = .plain cand := by
    intro cand listed
    obtain ⟨source, here, present⟩ := serves.plain cand listed
    rw [sources cand listed] at here
    cases here
    exact present
  constructor
  · intro r kept
    obtain ⟨candidate, applies⟩ := List.mem_filter.mp kept
    rw [isApplicable_iff] at applies
    rcases (members r).mp candidate with
      ⟨cand, listed, held⟩ | ⟨rfl, cand, listed, source, here, rfl⟩ | held | ⟨held, pattern⟩
    · obtain ⟨live, place⟩ := (serves.held _ rfl r).mp held
      have polarity := block_of_place (r := r)
      rw [place] at polarity
      refine ⟨r, ⟨⟨live, ?_, applies⟩, polarity⟩, Twin.refl r⟩
      rw [matches_iff, place]
      exact (boundary cand).mp listed
    · obtain ⟨x, live, place⟩ := (given cand listed).mp (by rw [here]; rfl)
      have polarity := block_of_place (r := x)
      rw [place] at polarity
      refine ⟨x, ⟨⟨live, ?_, (plain_spec lib q (place_eq_plain.mp place).1).1⟩, polarity⟩,
        twin_madeRule source place (octets_of_suffix named listed).1⟩
      rw [matches_iff, place]
      exact (boundary cand).mp listed
    · obtain ⟨live, place⟩ := (serves.held _ rfl r).mp held
      have polarity := block_of_place (r := r)
      rw [place] at polarity
      refine ⟨r, ⟨⟨live, ?_, applies⟩, polarity⟩, Twin.refl r⟩
      rw [matches_iff, place]
    · obtain ⟨live, place⟩ := (serves.held _ rfl r).mp held
      have polarity := block_of_place (r := r)
      rw [place] at polarity
      refine ⟨r, ⟨⟨live, ?_, applies⟩, polarity⟩, Twin.refl r⟩
      rw [matches_iff, place]
      exact pattern
  · intro r both
    obtain ⟨⟨live, fits, applies⟩, polarity⟩ := both
    have sided := block_of_place (r := r)
    rw [matches_iff] at fits
    -- a rule filed as it is stands for itself; a plain one for the rule made from its domain
    have itself (candidate : r ∈ found) :
        ∃ r', r' ∈ found.filter (isApplicable lib q (normalName q.qname)) ∧ Twin r r' :=
      ⟨r, List.mem_filter.mpr ⟨candidate, isApplicable_iff.mpr applies⟩, Twin.refl r⟩
    cases place : r.place with
    | suffix side key =>
      rw [place] at fits sided
      have same : side = block := sided.symm.trans polarity
      subst same
      apply itself
      exact (members r).mpr (.inl ⟨key, (boundary key).mpr fits,
        (serves.held _ rfl r).mpr ⟨live, place⟩⟩)
    | exact side key =>
      rw [place] at fits sided
      have same : side = block := sided.symm.trans polarity
      subst same
      apply itself
      apply (members r).mpr
      refine .inr (.inr (.inl ?_))
      rw [show normalName q.qname = key from fits]
      exact (serves.held _ rfl r).mpr ⟨live, place⟩
    | regex side =>
      rw [place] at fits sided
      have same : side = block := sided.symm.trans polarity
      subst same
      apply itself
      exact (members r).mpr (.inr (.inr (.inr ⟨(serves.held _ rfl r).mpr ⟨live, place⟩, fits⟩)))
    | plain key =>
      rw [place] at fits sided
      have listed := (boundary key).mpr fits
      obtain ⟨source, here⟩ := Option.isSome_iff_exists.mp ((given key listed).mpr ⟨r, live, place⟩)
      have twin := twin_madeRule source place (octets_of_suffix named listed).1
      refine ⟨FilterEngine.madeRule key source, List.mem_filter.mpr ⟨?_, ?_⟩, twin.symm⟩
      · exact (members _).mpr (.inr (.inl
          ⟨polarity.symm.trans sided, key, listed, source, here, rfl⟩))
      · exact isApplicable_iff.mpr (plain_spec lib q rfl).1
    | nowhere =>
      rw [place] at fits
      cases fits

/-- An engine that serves the live rules decides as they do. -/
theorem Serves.decides (lib : Library) {rules : List Rule} (q : Query)
    (serves : Serves (liveRules rules none) eng q.qname) (named : PlainName q.qname) :
    ∃ d, eng.matchQuery lib q = .ok d ∧ Decides lib rules q d.action := by
  have shape : suffixes q.qname = normalName q.qname :: afterDots (normalName q.qname) := by
    unfold suffixes
    rw [if_neg named.labels]
  have sources : ∀ cand ∈ suffixes q.qname, eng.plainSource cand =
      .ok ((eng.plainSource cand).toOption.getD none) := by
    intro cand listed
    obtain ⟨source, found, -⟩ := serves.plain cand listed
    rw [found]
    rfl
  obtain ⟨block, blocked, inBlock⟩ := candidates_spec eng lib (suffixes q.qname)
    (normalName q.qname) true sources (fun _ => rfl) (fun _ => rfl)
    (show eng.blockRegex = eng.held (.regex true) from rfl)
  obtain ⟨allow, allowed, inAllow⟩ := candidates_spec eng lib (suffixes q.qname)
    (normalName q.qname) false sources (fun _ => rfl) (fun _ => rfl)
    (show eng.allowRegex = eng.held (.regex false) from rfl)
  refine ⟨FilterEngine.decided (block.filter (isApplicable lib q (normalName q.qname)))
    (allow.filter (isApplicable lib q (normalName q.qname))), ?_, ?_⟩
  · unfold FilterEngine.matchQuery
    rw [shape] at blocked allowed ⊢
    simp only [blocked, allowed]
    rfl
  · obtain ⟨blocks, blocks'⟩ := serves.mirrors lib named sources true inBlock
    obtain ⟨allows, allows'⟩ := serves.mirrors lib named sources false inAllow
    exact (decided_verdict _ _).congr blocks blocks' allows allows'

/-- A compiled engine keeps every live rule, the imported plain ones in its table. -/
theorem compile_spec (rules : List Rule) :
    (∃ eng, FilterEngine.compile rules none = .ok eng ∧
        (∀ p : Place, p.keepsRules = true → ∀ r, r ∈ eng.held p ↔
          r ∈ liveRules rules none ∧ r.place = p) ∧
        (∀ key, (eng.blockPlain.get? key).isSome = true ↔
          ∃ r ∈ liveRules rules none, r.IsOperatorPlain key) ∧
        (∀ key source, eng.blockPlain.get? key = some source → source ≠ []) ∧
        (∀ domain, eng.blockTable.get domain =
          .ok (lookup (stored (importedItems (liveRules rules none))) domain)) ∧
        Fitting (blobCapacity (importedItems (liveRules rules none)))
          (stored (importedItems (liveRules rules none)))) ∨
      (∃ fault, FilterEngine.compile rules none = .error fault) ∧
        ¬ Fitting (blobCapacity (importedItems (liveRules rules none)))
          (stored (importedItems (liveRules rules none))) := by
  obtain ⟨eng, items, folded, filed⟩ := filed_foldl (liveRules rules none)
  unfold FilterEngine.compile
  rw [folded]
  simp only [Option.getD_some]
  rw [filed.items]
  rcases SharedBlockTable.build_spec (importedItems (liveRules rules none)) with
    ⟨t, built, backs, whole, -, fitting⟩ | ⟨⟨fault, failed⟩, unfit⟩
  · left
    rw [built]
    refine ⟨{ eng with blockTable := t }, rfl, ?_, filed.plain, filed.named, ?_, fitting⟩
    · intro p keeps r
      rw [← filed.held p keeps]
      rcases p with (_ | _) | (_ | _) | (_ | _) | _ | _ <;> rfl
    · intro domain
      show t.get domain = _
      rw [SharedBlockTable.get_eq backs, whole, if_neg (Finset.notMem_empty domain)]
  · right
    rw [failed]
    exact ⟨⟨fault, rfl⟩, unfit⟩

theorem compile_serves {rules : List Rule} (table : TableHolds rules) :
    ∃ eng, FilterEngine.compile rules none = .ok eng ∧
      ∀ qname, PlainName qname → Serves (liveRules rules none) eng qname := by
  rcases compile_spec rules with ⟨eng, compiled, held, plain, named, found, -⟩ | ⟨-, unfit⟩
  · refine ⟨eng, compiled, ?_⟩
    intro qname plainName
    refine ⟨held, ?_⟩
    intro cand listed
    obtain ⟨some_character, short⟩ := octets_of_suffix plainName listed
    unfold FilterEngine.plainSource
    cases shadow : eng.blockPlain.get? cand with
    | some source =>
      have operator : ∃ r ∈ liveRules rules none, r.IsOperatorPlain cand := by
        rw [← plain, shadow]
        rfl
      obtain ⟨r, live, place, -⟩ := operator
      refine ⟨some source, ?_, ?_⟩
      · cases source with
        | nil => exact absurd rfl (named cand [] shadow)
        | cons c rest => rfl
      · exact ⟨fun _ => ⟨r, live, place⟩, fun _ => rfl⟩
    | none =>
      refine ⟨_, found cand, ?_⟩
      rw [Option.isSome_iff_ne_none, ne_eq, lookup_eq_none, not_not]
      constructor
      · intro kept
        obtain ⟨item, stored_item, same⟩ := List.mem_map.mp kept
        have imported := SharedBlockTable.stored_subset _ stored_item
        obtain ⟨r, live, place, -⟩ := mem_importedItems.mp imported
        exact ⟨r, live, by rw [place, same]⟩
      · intro held_plain
        obtain ⟨r, live, place⟩ := held_plain
        have outside : r.source ∉ operatorSources := by
          intro operator
          have shown := (plain cand).mpr ⟨r, live, place, operator⟩
          rw [shadow] at shown
          cases shown
        exact table.complete (cand, r.source)
          (mem_importedItems.mpr ⟨r, live, place, rfl, outside⟩) (encode_ne_nil some_character) short
  · exact absurd table.fitting unfit

/-- Compiling a rule list gives an engine that decides every query as the list does. -/
def Enforces (lib : Library) (rules : List Rule) : Prop :=
  ∃ eng, FilterEngine.compile rules none = .ok eng ∧
    ∀ q : Query, PlainName q.qname →
      ∃ d, eng.matchQuery lib q = .ok d ∧ Decides lib rules q d.action

/-- The compiled index decides like the rule list when the shared table holds the
imported domains; when they do not fit it there is no index. -/
theorem enforces_spec (lib : Library) (rules : List Rule) :
    (TableHolds rules → Enforces lib rules) ∧
      (Enforces lib rules → Fitting (blobCapacity (importedItems (liveRules rules none)))
        (stored (importedItems (liveRules rules none)))) := by
  constructor
  · intro table
    obtain ⟨eng, compiled, serves⟩ := compile_serves table
    exact ⟨eng, compiled, fun q named => (serves q.qname named).decides lib q named⟩
  · intro enforces
    obtain ⟨eng, compiled, -⟩ := enforces
    rcases compile_spec rules with ⟨-, -, -, -, -, -, fitting⟩ | ⟨⟨fault, failed⟩, -⟩
    · exact fitting
    · rw [failed] at compiled
      cases compiled

/-- No regular expression matches, and no address is in a network. -/
def Library.blank : Library where
  search _ _ := false
  inNetwork _ _ := false
  address _ := none
  lower s := Name.lowerText s

/-- One imported block rule and an exception below it. -/
def adsRules : List Rule :=
  [{ raw := "||ads.example^".toList, suffix := some "ads.example".toList
     source := "list".toList },
   { raw := "||ok.ads.example^".toList, block := false, suffix := some "ok.ads.example".toList
     source := "list".toList }]

theorem enforces_adsRules : Enforces Library.blank adsRules :=
  (enforces_spec Library.blank adsRules).1 (by
    constructor
    · constructor
      · decide
      · decide
    · decide)

/-- A single rule for a domain that has more octets than characters. -/
def accentedRule : List Rule :=
  [{ raw := "||é^".toList, suffix := some "é".toList, source := "list".toList }]

theorem not_enforces_accentedRule : ¬ Enforces Library.blank accentedRule := by
  intro enforces
  obtain ⟨eng, compiled, -⟩ := enforces
  rcases compile_spec accentedRule with ⟨-, -, -, -, -, -, fitting⟩ | ⟨⟨fault, failed⟩, -⟩
  · have capacity := fitting.capacity
    revert capacity
    decide
  · rw [failed] at compiled
    cases compiled

end Trench.Filter
