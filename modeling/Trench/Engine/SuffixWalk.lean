import Trench.Engine.Pipeline
import Trench.Filter.EngineDecides
import Trench.Wire.NameText

set_option autoImplicit false

/- What walks the suffixes of a name's text, and the ancestors of the name. -/
namespace Trench.Engine

open Wire Trench.Filter

/-! ### The walks -/

/-- Upstream groups by domain, and the group of every other name. -/
structure Router (υ : Type) where
  default : List υ
  routes : Dict Text (List υ)

/-- `group_for`: the first route with a group that is not empty. -/
def Router.groupFor {υ : Type} (router : Router υ) (qname : Text) : List υ :=
  ((suffixes qname).findSome? fun cand =>
    (router.routes.get? cand).filter fun group => !group.isEmpty).getD router.default

/-- The last part of `name.partition(".")`. -/
def afterDot (name : Text) : Text := (name.dropWhile (· ≠ '.')).drop 1

/-- `SPECIAL_USE` and the suffixes of the settings. -/
def localZones (localSuffixes : List Text) : List Text := specialUse.map String.toList ++ localSuffixes

/-! ### Names -/

/-- The text under which a domain is filed: in lower case, without the last dot. -/
def domainText (d : Name) : Text := Name.lowerText (d.toText true)

/-- Names that end in some labels, longest first and without the root. -/
def lineageOf : List Label → List Name
  | [] => []
  | label :: rest => ⟨label :: rest⟩ :: lineageOf rest

/-- A name and its ancestors, without the root. -/
def lineage (n : Name) : List Name := lineageOf n.labels

/-- What a rule that covers a query's name says of the query. -/
def saysOf (lib : Filter.Library) (q : Query) (r : Rule) : Action :=
  if isApplicable lib q (normalName q.qname) r = false then .none
  else if r.block = false then .allow
  else if r.rewrite.isSome = true then .rewrite
  else .block

/-- A live rule for a domain and what is below it, from a source that has a name. -/
structure CoversDomain (r : Rule) (d : Name) : Prop where
  below : d.isRoot = false
  suffix : r.suffix = some (domainText d)
  regex : r.regex = none
  exact : r.exact = none
  live : r.badfilter = false
  source : r.source ≠ []

/-- The suffixes of a name's text are the texts of its ancestors, and what walks them takes the name to be
under a domain where its labels are. -/
structure LabelWise (n : Name) : Prop where
  listed : suffixes n.toText = (lineage n).map domainText
  rules : ∀ (lib : Filter.Library) (q : Query) (r : Rule) (d : Name), q.qname = n.toText → CoversDomain r d →
    ∃ decision, (FilterEngine.fromTable .empty [r]).matchQuery lib q = .ok decision ∧
      decision.action = if n.isSubdomainOf d = true then saysOf lib q r else .none
  routes : ∀ (υ : Type) (default group : List υ) (d : Name), d.isRoot = false → group ≠ [] →
    (Router.mk default (Dict.empty.set (domainText d) group)).groupFor n.toText =
      if n.isSubdomainOf d = true then group else default
  zones : ∀ localSuffixes : List Text, isLocalOnly (normalName n.toText) localSuffixes = true ↔
    ∃ d : Name, d.isRoot = false ∧ domainText d ∈ localZones localSuffixes ∧ n.isSubdomainOf d = true

/-- No label holds the octet of a dot. -/
def Undotted (n : Name) : Prop := ∀ label ∈ n.labels, 0x2E ∉ label.octets

/-! ### Dots in texts -/

theorem afterDots_append {part : Text} (undotted : '.' ∉ part) (rest : Text) :
    afterDots (part ++ '.' :: rest) = rest :: afterDots rest := by
  induction part with
  | nil => rfl
  | cons c part ih =>
      obtain ⟨other, others⟩ := not_or.mp (List.mem_cons.not.mp undotted)
      rw [List.cons_append, afterDots, if_neg (Ne.symm other)]
      exact ih others

theorem afterDots_undotted {part : Text} (undotted : '.' ∉ part) : afterDots part = [] := by
  induction part with
  | nil => rfl
  | cons c part ih =>
      obtain ⟨other, others⟩ := not_or.mp (List.mem_cons.not.mp undotted)
      rw [afterDots, if_neg (Ne.symm other)]
      exact ih others

theorem length_afterDots (s : Text) : (afterDots s).length = s.count '.' := by
  induction s with
  | nil => rfl
  | cons c s ih =>
      rw [afterDots]
      split
      · next dot => rw [dot, List.length_cons, List.count_cons_self, ih]
      · next other => rw [List.count_cons_of_ne other, ih]

theorem count_joinDots (part : Text) (rest : List Text) : (Name.joinDots (part :: rest)).count '.' =
    rest.length + ((part :: rest).map fun p => p.count '.').sum := by
  induction rest generalizing part with
  | nil => simp [Name.joinDots]
  | cons second more ih =>
      rw [Name.joinDots_cons, List.count_append, List.count_cons_self, ih]
      simp only [List.length_cons, List.map_cons, List.sum_cons]
      omega

theorem joinDots_ne_nil {parts : List Text} (some : parts ≠ []) (each : ∀ p ∈ parts, p ≠ []) :
    Name.joinDots parts ≠ [] := by
  obtain ⟨part, rest, rfl⟩ := List.exists_cons_of_ne_nil some
  cases rest with
  | nil => exact each part List.mem_cons_self
  | cons second more =>
      rw [Name.joinDots_cons]
      exact List.append_ne_nil_of_left_ne_nil (each part List.mem_cons_self) _

theorem ends_joinDots {parts : List Text} (each : ∀ p ∈ parts, p ≠ [] ∧ '.' ∉ p) :
    ∀ ends : Name.joinDots parts ≠ [], (Name.joinDots parts).getLast ends ≠ '.' := by
  induction parts with
  | nil => exact fun ends => absurd rfl ends
  | cons part rest ih =>
      cases rest with
      | nil =>
          intro ends dot
          exact (each part List.mem_cons_self).2 (dot ▸ List.getLast_mem ends)
      | cons second more =>
          intro ends
          have inner : Name.joinDots (second :: more) ≠ [] :=
            joinDots_ne_nil (List.cons_ne_nil _ _) fun p held => (each p (List.mem_cons_of_mem _ held)).1
          simp only [Name.joinDots_cons]
          rw [List.getLast_append_of_ne_nil _ (List.cons_ne_nil _ _), List.getLast_cons inner]
          exact ih (fun p held => each p (List.mem_cons_of_mem _ held)) inner

/-! ### The text of a name -/

section

variable {n d : Name}

theorem domainText_eq (d : Name) : domainText d = d.canonicalize.toText true := by
  change Name.lowerText (Name.joinDots (d.labels.map fun l => Name.escape l.octets)) =
    Name.joinDots ((d.labels.map Label.lower).map fun l => Name.escape l.octets)
  rw [Name.lowerText_joinDots, List.map_map, List.map_map]
  congr 1
  exact List.map_congr_left fun label _ => Name.lowerText_escape label.octets

/-- Domains below the root with one text have one spelling but for letter case. -/
theorem domainText_inj {a b : Name} (left : a.isRoot = false) (right : b.isRoot = false)
    (same : domainText a = domainText b) : a.lower = b.lower := by
  have whole {m : Name} (below : m.isRoot = false) :
      m.canonicalize.toText = m.canonicalize.toText true ++ ['.'] := by
    obtain ⟨labels⟩ := m
    cases labels with
    | nil => cases below
    | cons label rest => rfl
  rw [domainText_eq, domainText_eq] at same
  have texts : a.canonicalize.toText = b.canonicalize.toText := by rw [whole left, whole right, same]
  exact congrArg Name.labels (Name.toText_inj texts)

theorem domainText_congr {a b : Name} (same : a.lower = b.lower) : domainText a = domainText b := by
  rw [domainText_eq, domainText_eq, Name.canonicalize, Name.canonicalize, same]

theorem mem_lineageOf {labels : List Label} {m : Name} :
    m ∈ lineageOf labels ↔ m.labels ≠ [] ∧ m.labels <:+ labels := by
  induction labels with
  | nil =>
      rw [List.suffix_nil]
      exact iff_of_false List.not_mem_nil fun both => both.1 both.2
  | cons label rest ih =>
      rw [lineageOf, List.mem_cons, ih, List.suffix_cons_iff]
      constructor
      · rintro (rfl | ⟨some, ends⟩)
        · exact ⟨List.cons_ne_nil _ _, .inl rfl⟩
        · exact ⟨some, .inr ends⟩
      · rintro ⟨some, whole | ends⟩
        · obtain ⟨labels⟩ := m
          exact .inl (congrArg Name.mk whole)
        · exact .inr ⟨some, ends⟩

theorem labels_ne_nil {m : Name} : m.labels ≠ [] ↔ m.isRoot = false := by
  obtain ⟨labels⟩ := m
  cases labels with
  | nil => exact iff_of_false (fun none => none rfl) Bool.noConfusion
  | cons label rest => exact iff_of_true (List.cons_ne_nil _ _) rfl

/-- The texts of a name's ancestors are those of the domains that it is under. -/
theorem mem_lineage_texts (below : d.isRoot = false) :
    domainText d ∈ (lineage n).map domainText ↔ n.isSubdomainOf d = true := by
  rw [Name.isSubdomainOf_iff, Name.lower, Name.lower, List.suffix_map_iff, List.mem_map]
  constructor
  · rintro ⟨m, listed, same⟩
    obtain ⟨some, ends⟩ := mem_lineageOf.mp listed
    exact ⟨m.labels, ends, (domainText_inj (labels_ne_nil.mp some) below same).symm⟩
  · rintro ⟨labels, ends, same⟩
    refine ⟨⟨labels⟩, mem_lineageOf.mpr ⟨?_, ends⟩, domainText_congr same.symm⟩
    rintro rfl
    exact labels_ne_nil.mpr below (List.map_eq_nil_iff.mp same)

theorem dot_mem_escape {octets : Octets} (dotted : 0x2E ∈ octets) :
    '.' ∈ Name.lowerText (Name.escape octets) := by
  refine List.mem_map.mpr ⟨'.', List.mem_flatMap.mpr ⟨0x2E, dotted, ?_⟩, rfl⟩
  decide

theorem dot_octet (c : UInt8) (dotted : '.' ∈ Name.escapeOctet c) : c = 0x2E := by
  revert c
  apply Name.forall_octet
  decide +kernel

theorem dot_not_mem_escape {octets : Octets} (undotted : 0x2E ∉ octets) :
    '.' ∉ Name.lowerText (Name.escape octets) := by
  intro dot
  obtain ⟨c, held, lowered⟩ := List.mem_map.mp dot
  rw [toLower_eq_dot lowered] at held
  obtain ⟨octet, listed, inside⟩ := List.mem_flatMap.mp held
  exact undotted (dot_octet octet inside ▸ listed)

/-- The lowered texts of labels. -/
def parts (labels : List Label) : List Text := labels.map fun l => Name.lowerText (Name.escape l.octets)

theorem domainText_parts (d : Name) : domainText d = Name.joinDots (parts d.labels) := by
  change Name.lowerText (Name.joinDots _) = _
  rw [Name.lowerText_joinDots, List.map_map]
  rfl

theorem parts_undotted (undotted : Undotted n) : ∀ p ∈ parts n.labels, p ≠ [] ∧ '.' ∉ p := by
  intro p listed
  obtain ⟨label, held, rfl⟩ := List.mem_map.mp listed
  refine ⟨?_, dot_not_mem_escape (undotted label held)⟩
  exact fun none => Name.escape_ne_nil label (List.map_eq_nil_iff.mp none)

/-- The keys that are looked up for labels without dots. -/
theorem walk_parts (label : Label) (rest : List Label) (undotted : Undotted ⟨label :: rest⟩) :
    Name.joinDots (parts (label :: rest)) :: afterDots (Name.joinDots (parts (label :: rest))) =
      (lineageOf (label :: rest)).map domainText := by
  rw [lineageOf, List.map_cons, domainText_parts]
  congr 1
  induction rest generalizing label with
  | nil => exact afterDots_undotted (dot_not_mem_escape (undotted label List.mem_cons_self))
  | cons second more ih =>
      have first := dot_not_mem_escape (undotted label List.mem_cons_self)
      change afterDots (Name.joinDots (_ :: _ :: parts more)) = _
      rw [Name.joinDots_cons, afterDots_append first, lineageOf, List.map_cons, domainText_parts]
      congr 1
      exact ih second fun l held => undotted l (List.mem_cons_of_mem _ held)

theorem normalName_below (below : n.isRoot = false) :
    normalName n.toText = Name.lowerText ((n.toText true).rdropWhile (· == '.')) := by
  have whole : n.toText = n.toText true ++ ['.'] := by
    obtain ⟨labels⟩ := n
    cases labels with
    | nil => cases below
    | cons label rest => rfl
  rw [normalName, whole, List.rdropWhile_concat_pos _ _ _ (by rfl)]

theorem normalName_undotted (undotted : Undotted n) (below : n.isRoot = false) :
    normalName n.toText = domainText n := by
  rw [normalName_below below, domainText]
  congr 1
  apply List.rdropWhile_eq_self_iff.mpr
  intro some
  have ends : ∀ ends : n.toText true ≠ [], (n.toText true).getLast ends ≠ '.' := by
    refine ends_joinDots fun p listed => ?_
    obtain ⟨label, held, rfl⟩ := List.mem_map.mp listed
    refine ⟨Name.escape_ne_nil label, fun dot => ?_⟩
    exact dot_not_mem_escape (undotted label held) (List.mem_map.mpr ⟨'.', dot, rfl⟩)
  exact fun dot => ends some (eq_of_beq dot)

theorem domainText_ne_nil (below : d.isRoot = false) : domainText d ≠ [] := by
  rw [domainText_parts]
  refine joinDots_ne_nil ?_ fun p listed => ?_
  · exact fun none => labels_ne_nil.mpr below (List.map_eq_nil_iff.mp none)
  · obtain ⟨label, -, rfl⟩ := List.mem_map.mp listed
    exact fun none => Name.escape_ne_nil label (List.map_eq_nil_iff.mp none)

theorem suffixes_undotted (undotted : Undotted n) : suffixes n.toText = (lineage n).map domainText := by
  cases root : n.isRoot with
  | true =>
      obtain ⟨labels⟩ := n
      have none : labels = [] := List.length_eq_zero_iff.mp (eq_of_beq root)
      subst none
      rfl
  | false =>
      rw [suffixes, normalName_undotted undotted root, if_neg (domainText_ne_nil root), domainText_parts]
      obtain ⟨labels⟩ := n
      cases labels with
      | nil => cases root
      | cons label rest => exact walk_parts label rest undotted

theorem length_lineageOf (labels : List Label) : (lineageOf labels).length = labels.length := by
  induction labels with
  | nil => rfl
  | cons label rest ih => rw [lineageOf, List.length_cons, List.length_cons, ih]

/-- Where the suffixes of the text are the ancestors there are no more dots than separate the labels. -/
theorem undotted_of_suffixes (listed : suffixes n.toText = (lineage n).map domainText) : Undotted n := by
  obtain ⟨labels⟩ := n
  cases labels with
  | nil => exact fun label held => absurd held List.not_mem_nil
  | cons label rest =>
      have number := congrArg List.length listed
      rw [suffixes] at listed number
      split at listed
      · cases listed
      · next some =>
          rw [if_neg some, List.length_cons, length_afterDots, List.length_map] at number
          change _ = (lineageOf (label :: rest)).length at number
          rw [length_lineageOf] at number
          have head : normalName (Name.toText ⟨label :: rest⟩) = domainText ⟨label :: rest⟩ :=
            (List.cons.inj listed).1
          rw [head, domainText_parts] at number
          change (Name.joinDots (_ :: parts rest)).count '.' + 1 = _ at number
          rw [count_joinDots] at number
          have sum : ((parts (label :: rest)).map fun p => p.count '.').sum = 0 := by
            have sizes : (parts rest).length = rest.length := List.length_map _
            change (parts rest).length + ((parts (label :: rest)).map fun p => p.count '.').sum + 1 = _ at number
            rw [List.length_cons] at number
            omega
          intro l held dotted
          have zero := List.sum_eq_zero_iff.mp sum ((Name.lowerText (Name.escape l.octets)).count '.')
            (List.mem_map.mpr ⟨_, List.mem_map.mpr ⟨l, held, rfl⟩, rfl⟩)
          exact List.count_eq_zero.mp zero (dot_mem_escape dotted)

end

/-! ### What the walks find -/

theorem findSome?_key {α : Type} (listed : List Text) (key : Text) (v : α) :
    (listed.findSome? fun cand => if key = cand then some v else none) =
      if key ∈ listed then some v else none := by
  induction listed with
  | nil => rfl
  | cons cand rest ih =>
      rw [List.findSome?_cons]
      by_cases here : key = cand
      · rw [if_pos here, if_pos (here ▸ List.mem_cons_self)]
      · rw [if_neg here, ih]
        simp only [List.mem_cons, here, false_or]

theorem groupFor_set {υ : Type} (default : List υ) {group : List υ} (some : group ≠ []) (key qname : Text) :
    (Router.mk default (Dict.empty.set key group)).groupFor qname =
      if key ∈ suffixes qname then group else default := by
  have filtered (cand : Text) : (((Dict.empty.set key group).get? cand).filter fun group => !group.isEmpty) =
      if key = cand then Option.some group else none := by
    rw [Dict.get?_set_eq]
    split
    · rw [Option.filter_some, if_pos (by simp [some])]
    · rfl
  simp only [Router.groupFor, filtered]
  rw [findSome?_key]
  split <;> rfl

theorem afterDots_eq (name : Text) : afterDots name =
    if '.' ∈ name then afterDot name :: afterDots (afterDot name) else [] := by
  induction name with
  | nil => rfl
  | cons c name ih =>
      rw [afterDots]
      by_cases dot : c = '.'
      · subst dot
        rw [if_pos rfl, if_pos List.mem_cons_self]
        rfl
      · have drops : afterDot (c :: name) = afterDot name := by
          rw [afterDot, List.dropWhile_cons, if_pos (decide_eq_true dot), afterDot]
        have same : '.' ∈ c :: name ↔ '.' ∈ name :=
          List.mem_cons.trans (or_iff_right fun here => dot here.symm)
        rw [if_neg dot, ih, drops]
        simp only [same]

theorem afterDot_undotted {name : Text} (undotted : '.' ∉ name) : afterDot name = [] := by
  rw [afterDot, List.dropWhile_eq_nil_iff.mpr]
  · rfl
  · intro c held
    exact decide_eq_true fun dot => undotted (dot ▸ held)

theorem length_afterDot_lt {c : Char} {name : Text} : (afterDot (c :: name)).length ≤ name.length := by
  have shorter := List.length_dropWhile_le (fun c => decide (c ≠ '.')) (c :: name)
  rw [List.length_cons] at shorter
  rw [afterDot, List.length_drop]
  omega

theorem specialUse_or_localSuffixes {localSuffixes : List Text} {name : Text} :
    (specialUse.any (fun s => s.toList == name) || localSuffixes.contains name) = true ↔
      name ∈ localZones localSuffixes := by
  rw [Bool.or_eq_true, List.any_eq_true, List.contains_iff_mem, localZones, List.mem_append, List.mem_map]
  simp only [beq_iff_eq]

/-- The loop meets the name and what follows each of its dots, up to an empty text. -/
theorem localOnlyLoop_iff (localSuffixes : List Text) {fuel : Nat} {name : Text} (enough : name.length ≤ fuel) :
    localOnlyLoop localSuffixes fuel name = true ↔
      ∃ s ∈ name :: afterDots name, s ≠ [] ∧ s ∈ localZones localSuffixes := by
  induction fuel generalizing name with
  | zero =>
      rw [List.length_eq_zero_iff.mp (Nat.le_zero.mp enough)]
      refine iff_of_false Bool.false_ne_true ?_
      rintro ⟨s, listed, some, -⟩
      exact some (List.mem_singleton.mp listed)
  | succ fuel ih =>
      cases name with
      | nil =>
          refine iff_of_false (by rw [localOnlyLoop, if_pos rfl]; exact Bool.false_ne_true) ?_
          rintro ⟨s, listed, some, -⟩
          exact some (List.mem_singleton.mp listed)
      | cons c name =>
          have less : (afterDot (c :: name)).length ≤ fuel :=
            length_afterDot_lt.trans (Nat.succ_le_succ_iff.mp enough)
          have round : localOnlyLoop localSuffixes (fuel + 1) (c :: name) = true ↔
              c :: name ∈ localZones localSuffixes ∨
                localOnlyLoop localSuffixes fuel (afterDot (c :: name)) = true := by
            rw [localOnlyLoop, if_neg (List.cons_ne_nil c name), Bool.if_true_left, Bool.or_eq_true, decide_eq_true_iff,
              specialUse_or_localSuffixes, afterDot]
          rw [round, ih less, afterDots_eq (c :: name)]
          split
          · next dotted =>
              rw [List.exists_mem_cons_iff _ (c :: name)]
              exact or_congr_left (and_iff_right (List.cons_ne_nil c name)).symm
          · next undotted =>
              rw [afterDot_undotted undotted]
              constructor
              · rintro (here | ⟨s, listed, some, -⟩)
                · exact ⟨_, List.mem_cons_self, List.cons_ne_nil _ _, here⟩
                · exact absurd (List.mem_singleton.mp listed) some
              · rintro ⟨s, listed, -, here⟩
                rw [List.mem_singleton.mp listed] at here
                exact .inl here

theorem isLocalOnly_iff {qname : Text} {localSuffixes : List Text} :
    isLocalOnly (normalName qname) localSuffixes = true ↔
      ∃ s ∈ suffixes qname, s ≠ [] ∧ s ∈ localZones localSuffixes := by
  rw [isLocalOnly, localOnlyLoop_iff _ le_rfl, suffixes]
  split
  · next none =>
      rw [none]
      refine iff_of_false ?_ ?_
      · rintro ⟨s, listed, some, -⟩
        exact some (List.mem_singleton.mp listed)
      · rintro ⟨s, listed, -⟩
        exact List.not_mem_nil listed
  · rfl

/-! ### A single rule -/

section

variable {lib : Filter.Library} {q : Query} {r : Rule}

theorem decided_blocks {block : List Rule} {rewrites : Bool} (some : block ≠ [])
    (alike : ∀ x ∈ block, x.rewrite.isSome = rewrites) :
    (FilterEngine.decided block []).action = if rewrites = true then .rewrite else .block := by
  have said := decided_verdict block []
  generalize (FilterEngine.decided block []).action = action at said
  cases said with
  | allow wins =>
      obtain ⟨r, listed⟩ := wins.1
      cases listed
  | rewrite r loses foremost rewritten =>
      rw [← alike r foremost.1, if_pos (Option.isSome_iff_ne_none.mpr rewritten)]
  | block r loses foremost plainly =>
      rw [← alike r foremost.1, plainly]
      rfl
  | none loses empty =>
      obtain ⟨r, rest, rfl⟩ := List.exists_cons_of_ne_nil some
      exact absurd List.mem_cons_self (empty r)

theorem decided_allows {allow : List Rule} (some : allow ≠ []) :
    (FilterEngine.decided [] allow).action = .allow := by
  have said := decided_verdict [] allow
  generalize (FilterEngine.decided [] allow).action = action at said
  obtain ⟨r, rest, rfl⟩ := List.exists_cons_of_ne_nil some
  have wins : Wins (· ∈ ([] : List Rule)) (· ∈ r :: rest) :=
    ⟨⟨r, List.mem_cons_self⟩, fun important => absurd important.choose_spec.1 List.not_mem_nil⟩
  cases said with
  | allow wins => rfl
  | rewrite r loses foremost rewritten => exact absurd foremost.1 List.not_mem_nil
  | block r loses foremost plainly => exact absurd foremost.1 List.not_mem_nil
  | none loses empty => exact absurd wins loses

theorem liveRules_single (live : r.badfilter = false) : liveRules [r] none = [r] := by
  have keys : badfilterIds [r] = ∅ := by
    rw [badfilterIds, List.filter_cons, live]
    rfl
  rw [liveRules, List.filter_cons, live, Option.getD_none, keys]
  simp

theorem filter_only {found : List Rule} (members : ∀ y, y ∈ found ↔ y = r) (p : Rule → Bool) :
    if p r = true then found.filter p ≠ [] ∧ ∀ y ∈ found.filter p, y = r else found.filter p = [] := by
  split
  · next passes =>
      refine ⟨List.ne_nil_of_mem (List.mem_filter.mpr ⟨(members r).mpr rfl, passes⟩), fun y listed => ?_⟩
      exact (members y).mp (List.mem_filter.mp listed).1
  · next fails =>
      refine List.filter_eq_nil_iff.mpr fun y listed => ?_
      rw [(members y).mp listed]
      exact fails

/-- What one rule says of a query, as it is decided: the candidates are the rule or nothing. -/
theorem decided_single {block allow : List Rule} (r : Rule)
    (blocks : ∀ y, y ∈ block ↔ y = r ∧ r.block = true)
    (allows : ∀ y, y ∈ allow ↔ y = r ∧ r.block = false) :
    (FilterEngine.decided (block.filter (isApplicable lib q (normalName q.qname)))
      (allow.filter (isApplicable lib q (normalName q.qname)))).action = saysOf lib q r := by
  rw [saysOf]
  cases polarity : r.block with
  | true =>
      have none : allow = [] := List.eq_nil_iff_forall_not_mem.mpr fun y listed => by
        have both := ((allows y).mp listed).2
        rw [polarity] at both
        cases both
      have only := filter_only (fun y => (blocks y).trans (and_iff_left polarity))
        (isApplicable lib q (normalName q.qname))
      rw [none, List.filter_nil, if_neg (c := true = false) Bool.noConfusion]
      split at only
      · next applies =>
          have idle : ¬isApplicable lib q (normalName q.qname) r = false := by
            rw [applies]
            exact Bool.noConfusion
          rw [decided_blocks only.1 fun x listed => by rw [only.2 x listed], if_neg idle]
      · next idle =>
          rw [only, if_pos (Bool.eq_false_iff.mpr idle)]
          rfl
  | false =>
      have none : block = [] := List.eq_nil_iff_forall_not_mem.mpr fun y listed => by
        have both := ((blocks y).mp listed).2
        rw [polarity] at both
        cases both
      have only := filter_only (fun y => (allows y).trans (and_iff_left polarity))
        (isApplicable lib q (normalName q.qname))
      rw [none, List.filter_nil, if_pos rfl]
      split at only
      · next applies =>
          have idle : ¬isApplicable lib q (normalName q.qname) r = false := by
            rw [applies]
            exact Bool.noConfusion
          rw [decided_allows only.1, if_neg idle]
      · next idle =>
          rw [only, if_pos (Bool.eq_false_iff.mpr idle)]
          rfl

/-- The engine of a single rule. -/
theorem held_single (live : r.badfilter = false) (p : Place) (keeps : p.keepsRules = true) :
    (FilterEngine.fromTable .empty [r]).held p = if r.place = p then [r] else [] := by
  have filed : (FilterEngine.add ({}, none) r).1.held p = _ := held_add r p keeps
  have empty : ({} : FilterEngine).held p = [] := by
    rcases p with (_ | _) | (_ | _) | (_ | _) | _ | _ <;> rfl
  rw [empty, List.nil_append] at filed
  rw [FilterEngine.fromTable, liveRules_single live, ← filed]
  rcases p with (_ | _) | (_ | _) | (_ | _) | _ | _ <;> rfl

theorem plainSource_single {d : Name} (covers : CoversDomain r d) (cand : Text) :
    (FilterEngine.fromTable .empty [r]).plainSource cand =
      .ok (if isPlain r = true ∧ domainText d = cand then some r.source else none) := by
  have table : (FilterEngine.fromTable .empty [r]).blockPlain =
      if isPlain r = true then Dict.empty.setDefault (domainText d) r.source else Dict.empty := by
    rw [FilterEngine.fromTable, liveRules_single covers.live]
    change (FilterEngine.add ({}, none) r).1.blockPlain = _
    rw [FilterEngine.add, covers.regex, covers.exact, covers.suffix]
    dsimp only
    rw [FilterEngine.addSuffix]
    split
    · rfl
    · split <;> rfl
  have missing : (FilterEngine.fromTable .empty [r]).blockTable.get cand = .ok none := rfl
  rw [FilterEngine.plainSource, table]
  cases isPlain r with
  | false =>
      rw [if_neg Bool.false_ne_true, if_neg fun both => Bool.false_ne_true both.1]
      exact missing
  | true =>
      rw [if_pos rfl, Dict.get?_setDefault]
      simp only [beq_iff_eq, true_and, Dict.get?_empty, Option.getD_none]
      by_cases here : domainText d = cand
      · simp only [here, ↓reduceIte]
        rcases source : r.source with _ | ⟨c, rest⟩
        · exact absurd source covers.source
        · rfl
      · simp only [here, ↓reduceIte]
        exact missing

theorem place_covers {d : Name} (covers : CoversDomain r d) :
    r.place = if isPlain r = true then .plain (domainText d) else .suffix r.block (domainText d) := by
  rw [Rule.place, covers.regex, covers.exact, covers.suffix]

theorem block_of_plain (plain : isPlain r = true) : r.block = true := by
  unfold isPlain at plain
  simp only [Bool.and_eq_true] at plain
  exact plain.1.1.1.1.1.1.1.1.1.1.1

/-- A rule that is plain says the same as the rule that is made for its domain. -/
theorem saysOf_madeRule (plain : isPlain r = true) (cand source : Text) :
    saysOf lib q (FilterEngine.madeRule cand source) = saysOf lib q r := by
  have applies : isApplicable lib q (normalName q.qname) r = true :=
    isApplicable_iff.mpr (plain_spec lib q plain).1
  have applies' : isApplicable lib q (normalName q.qname) (FilterEngine.madeRule cand source) = true :=
    isApplicable_iff.mpr (plain_spec lib q rfl).1
  rw [saysOf, saysOf, applies, applies', block_of_plain plain, (plain_spec lib q plain).2.2]
  rfl

theorem mem_held_suffix {d : Name} (covers : CoversDomain r d) {b : Bool} {key : Text} {y : Rule} :
    y ∈ (FilterEngine.fromTable .empty [r]).held (.suffix b key) ↔
      y = r ∧ isPlain r = false ∧ r.block = b ∧ domainText d = key := by
  rw [held_single covers.live _ rfl, place_covers covers]
  cases isPlain r with
  | true => simp
  | false =>
      simp only [Bool.false_eq_true, ↓reduceIte, Place.suffix.injEq, true_and]
      split
      · next here => rw [List.mem_singleton, and_iff_left here]
      · next apart => exact iff_of_false List.not_mem_nil fun both => apart both.2

theorem held_elsewhere {d : Name} (covers : CoversDomain r d) (p : Place) (keeps : p.keepsRules = true)
    (apart : ∀ b key, p ≠ .suffix b key) : (FilterEngine.fromTable .empty [r]).held p = [] := by
  rw [held_single covers.live p keeps, place_covers covers, if_neg]
  split
  · rintro rfl
    cases keeps
  · exact fun same => apart _ _ same.symm

/-- The candidates of one polarity in an engine with a single rule. -/
theorem candidates_single (lib : Filter.Library) {d : Name} (covers : CoversDomain r d) (cands : List Text) (name : Text) (b : Bool)
    {suffixTable exactTable : Dict Text (List Rule)} {regexes : List Rule}
    (suffix : ∀ k, (suffixTable.get? k).getD [] = (FilterEngine.fromTable .empty [r]).held (.suffix b k))
    (exact : ∀ k, (exactTable.get? k).getD [] = (FilterEngine.fromTable .empty [r]).held (.exact b k))
    (regex : regexes = (FilterEngine.fromTable .empty [r]).held (.regex b)) :
    ∃ found, (FilterEngine.fromTable .empty [r]).candidates lib cands name suffixTable exactTable regexes b =
        .ok found ∧ ∀ y, y ∈ found ↔ domainText d ∈ cands ∧ r.block = b ∧
          y = if isPlain r = true then FilterEngine.madeRule (domainText d) r.source else r := by
  obtain ⟨found, computed, members⟩ := candidates_spec (FilterEngine.fromTable .empty [r]) lib cands name b
    (fun cand _ => plainSource_single covers cand) suffix exact regex
  refine ⟨found, computed, fun y => ?_⟩
  rw [members, held_elsewhere covers (.exact b name) rfl nofun, held_elsewhere covers (.regex b) rfl nofun]
  simp only [mem_held_suffix covers, List.not_mem_nil, false_and, or_false]
  cases plain : isPlain r with
  | false =>
      simp only [Bool.false_eq_true, false_and, ↓reduceIte, reduceCtorEq, exists_false, and_false, or_false,
        true_and]
      constructor
      · rintro ⟨cand, listed, rfl, polarity, rfl⟩
        exact ⟨listed, polarity, rfl⟩
      · rintro ⟨listed, polarity, rfl⟩
        exact ⟨_, listed, rfl, polarity, rfl⟩
  | true =>
      rw [block_of_plain plain]
      simp only [Bool.true_eq_false, false_and, and_false, exists_false, false_or, true_and, ↓reduceIte]
      constructor
      · rintro ⟨rfl, cand, listed, source, found, rfl⟩
        split at found
        · next here =>
            cases found
            exact ⟨here ▸ listed, rfl, here ▸ rfl⟩
        · cases found
      · rintro ⟨listed, polarity, rfl⟩
        exact ⟨polarity.symm, _, listed, r.source, if_pos rfl, rfl⟩

/-- An engine with a single rule decides what the rule says where its domain is looked up, and nothing
elsewhere. -/
theorem matchQuery_single (lib : Filter.Library) (q : Query) {d : Name} (covers : CoversDomain r d) :
    ∃ decision, (FilterEngine.fromTable .empty [r]).matchQuery lib q = .ok decision ∧
      decision.action = if domainText d ∈ suffixes q.qname then saysOf lib q r else .none := by
  rw [FilterEngine.matchQuery]
  cases walk : suffixes q.qname with
  | nil => exact ⟨{}, rfl, rfl⟩
  | cons name parents =>
      have first : name = normalName q.qname := by
        rw [suffixes] at walk
        split at walk
        · cases walk
        · exact (List.cons.inj walk).1.symm
      subst first
      obtain ⟨block, blocked, inBlock⟩ := candidates_single lib covers (normalName q.qname :: parents)
        (normalName q.qname) true (fun _ => rfl) (fun _ => rfl)
        (show (FilterEngine.fromTable .empty [r]).blockRegex = _ from rfl)
      obtain ⟨allow, allowed, inAllow⟩ := candidates_single lib covers (normalName q.qname :: parents)
        (normalName q.qname) false (fun _ => rfl) (fun _ => rfl)
        (show (FilterEngine.fromTable .empty [r]).allowRegex = _ from rfl)
      refine ⟨FilterEngine.decided (block.filter (isApplicable lib q (normalName q.qname)))
        (allow.filter (isApplicable lib q (normalName q.qname))), ?_, ?_⟩
      · dsimp only
        rw [blocked, allowed]
        rfl
      · by_cases listed : domainText d ∈ normalName q.qname :: parents
        · rw [if_pos listed]
          cases plain : isPlain r with
          | true =>
              rw [← saysOf_madeRule plain (domainText d) r.source]
              rw [plain] at inBlock inAllow
              refine decided_single _ (fun y => ?_) fun y => ?_
              · rw [inBlock, block_of_plain plain]
                simp [listed, FilterEngine.madeRule]
              · rw [inAllow, block_of_plain plain]
                simp [FilterEngine.madeRule]
          | false =>
              rw [plain] at inBlock inAllow
              refine decided_single _ (fun y => ?_) fun y => ?_
              · rw [inBlock, and_iff_right listed, and_comm]
                rfl
              · rw [inAllow, and_iff_right listed, and_comm]
                rfl
        · rw [if_neg listed]
          have none : block = [] :=
            List.eq_nil_iff_forall_not_mem.mpr fun y held => listed ((inBlock y).mp held).1
          have none' : allow = [] :=
            List.eq_nil_iff_forall_not_mem.mpr fun y held => listed ((inAllow y).mp held).1
          rw [none, none']
          rfl

end

/-! ### Names and their texts -/

theorem labelWise_of_undotted {n : Name} (undotted : Undotted n) : LabelWise n := by
  have listed := suffixes_undotted undotted
  have under {d : Name} (below : d.isRoot = false) :
      domainText d ∈ suffixes n.toText ↔ n.isSubdomainOf d = true := by
    rw [listed]
    exact mem_lineage_texts below
  refine ⟨listed, ?_, ?_, ?_⟩
  · intro lib q r d asked covers
    obtain ⟨decision, matched, action⟩ := matchQuery_single lib q covers
    refine ⟨decision, matched, ?_⟩
    rw [asked] at action
    simp only [under covers.below] at action
    exact action
  · intro υ default group d below some
    rw [groupFor_set default some]
    simp only [under below]
  · intro localSuffixes
    rw [isLocalOnly_iff]
    constructor
    · rintro ⟨s, walked, -, zone⟩
      rw [listed] at walked
      obtain ⟨m, held, rfl⟩ := List.mem_map.mp walked
      have below := labels_ne_nil.mp (mem_lineageOf.mp held).1
      exact ⟨m, below, zone, (mem_lineage_texts below).mp walked⟩
    · rintro ⟨d, below, zone, inside⟩
      exact ⟨_, (under below).mpr inside, domainText_ne_nil below, zone⟩

/-- The walks go by labels exactly where no label of the name holds a dot. -/
theorem labelWise_iff (n : Name) : LabelWise n ↔ ∀ label ∈ n.labels, 0x2E ∉ label.octets :=
  ⟨fun wise => undotted_of_suffixes wise.listed, labelWise_of_undotted⟩

/-- Two labels, the first of which has a dot in it. -/
def dottedName : Name := ⟨[⟨[0x61, 0x2E, 0x62], by decide, by decide⟩, ⟨[0x63], by decide, by decide⟩]⟩

/-- A name with a dot in a label is taken to be under a domain of another one. -/
theorem not_labelWise_dottedName : ¬∀ n : Name, LabelWise n := by
  intro always
  have listed := (always dottedName).listed
  revert listed
  decide +kernel

end Trench.Engine
