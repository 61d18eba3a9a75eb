import Mathlib
import Trench.Filter.EngineDecides

set_option autoImplicit false

/- How a process comes by a block table that another one compiled, and what is left
of the rules when it does. -/

namespace Trench

open Wire Trench.Filter

/-- What the application of one process filters by: the engine, the operator's lists, and
whether blocklists are configured. -/
structure App where
  filter : FilterEngine
  allow : List Text
  deny : List Text
  gravity : Bool

namespace App

def configRules (lib : Library) (app : App) : List Rule := operatorRules lib app.allow app.deny

/-- Swaps in a table built elsewhere, with the operator's rules. -/
def adoptTable (lib : Library) (app : App) (table : SharedBlockTable) : App :=
  { app with filter := FilterEngine.fromTable table (app.configRules lib) }

/-- Maps what is at the path of the table; a file that is not a table changes nothing. -/
def mapTable (lib : Library) (app : App) (disk : SharedBlockTable.Disk) : App × Bool :=
  match disk with
  | none => (app, false)
  | some (token, file) =>
    match SharedBlockTable.openAt token file with
    | .error _ => (app, false)
    | .ok fresh => (app.adoptTable lib fresh, true)

/-- The table that a start finds in the cache. -/
def loadCached (lib : Library) (app : App) (disk : SharedBlockTable.Disk) : App :=
  (app.mapTable lib disk).1

/-- Maps the table again when another worker has replaced it. -/
def adoptRefreshedTable (lib : Library) (app : App) (disk : SharedBlockTable.Disk) : App × Bool :=
  match app.filter.blockTable.token with
  | none => if !app.gravity || disk.isNone then (app, false) else app.mapTable lib disk
  | some _ => if !app.filter.blockTable.stale disk then (app, false) else app.mapTable lib disk

/-- A round that adopts nothing leaves the process as it was. -/
theorem adoptRefreshedTable_kept {lib : Library} {app app' : App} {disk : SharedBlockTable.Disk}
    (kept : app.adoptRefreshedTable lib disk = (app', false)) : app' = app := by
  have maps {next : App} (none : app.mapTable lib disk = (next, false)) : next = app := by
    unfold mapTable at none
    split at none
    · cases none
      rfl
    · split at none
      · cases none
        rfl
      · cases none
  unfold adoptRefreshedTable at kept
  split at kept
  · split at kept
    · cases kept
      rfl
    · exact maps kept
  · split at kept
    · cases kept
      rfl
    · exact maps kept

/-- The operator's own lists on top of the table that is mapped already. -/
def adoptRules (lib : Library) (app : App) : App := app.adoptTable lib app.filter.blockTable

/-- The three ways in which a process gets an engine around the table of a file. -/
inductive Adopts (lib : Library) (token : Nat) (file : TableFile) : App → App → Prop
  | restart (app : App) : Adopts lib token file app (app.loadCached lib (some (token, file)))
  | sync (app app' : App) (adopted : app.adoptRefreshedTable lib (some (token, file)) = (app', true)) :
      Adopts lib token file app app'
  | rules (app : App) (mapped : SharedBlockTable.openAt token file = .ok app.filter.blockTable) :
      Adopts lib token file app (app.adoptRules lib)

/-- Whichever way it is, the engine is made from the table and the operator's rules. -/
theorem Adopts.filter_eq {lib : Library} {token : Nat} {file : TableFile} {app app' : App}
    (adopts : Adopts lib token file app app') {t : SharedBlockTable}
    (mapped : SharedBlockTable.openAt token file = .ok t) :
    app'.filter = FilterEngine.fromTable t (app.configRules lib) := by
  have maps : app.mapTable lib (some (token, file)) = (app.adoptTable lib t, true) := by
    unfold mapTable
    simp only [mapped]
  cases adopts with
  | restart =>
    unfold loadCached
    rw [maps]
    rfl
  | sync _ adopted =>
    unfold adoptRefreshedTable at adopted
    have same : app.adoptTable lib t = app' := by
      split at adopted
      · split at adopted
        · cases adopted
        · rw [maps] at adopted
          cases adopted
          rfl
      · split at adopted
        · cases adopted
        · rw [maps] at adopted
          cases adopted
          rfl
    rw [← same]
    rfl
  | rules mapped' =>
    rw [mapped] at mapped'
    cases mapped'
    rfl

end App

namespace Filter

/-! ### Engines that keep the same rules -/

/-- Two engines with the same rules outside the shared table. -/
structure SameIndex (a b : FilterEngine) : Prop where
  blockPlain : a.blockPlain = b.blockPlain
  blockSuffix : a.blockSuffix = b.blockSuffix
  allowSuffix : a.allowSuffix = b.allowSuffix
  blockExact : a.blockExact = b.blockExact
  allowExact : a.allowExact = b.allowExact
  blockRegex : a.blockRegex = b.blockRegex
  allowRegex : a.allowRegex = b.allowRegex

theorem SameIndex.refl (a : FilterEngine) : SameIndex a a := ⟨rfl, rfl, rfl, rfl, rfl, rfl, rfl⟩

theorem SameIndex.plainRules {a b : FilterEngine} (same : SameIndex a b)
    (table : ∀ domain, a.blockTable.get domain = b.blockTable.get domain) (cands : List Text) :
    a.plainRules cands = b.plainRules cands := by
  have source (cand : Text) : a.plainSource cand = b.plainSource cand := by
    unfold FilterEngine.plainSource
    rw [same.blockPlain, table]
  induction cands with
  | nil => rfl
  | cons cand cands ih =>
    unfold FilterEngine.plainRules
    rw [source, ih]

theorem SameIndex.matchQuery {a b : FilterEngine} (same : SameIndex a b)
    (table : ∀ domain, a.blockTable.get domain = b.blockTable.get domain) (lib : Library) (q : Query) :
    a.matchQuery lib q = b.matchQuery lib q := by
  unfold FilterEngine.matchQuery FilterEngine.candidates
  simp only [same.plainRules table, same.blockSuffix, same.allowSuffix, same.blockExact,
    same.allowExact, same.blockRegex, same.allowRegex]

/-- A rule of the operator is filed alike with and without a table to build. -/
theorem SameIndex.add {a b : FilterEngine} (same : SameIndex a b) (items : List (Text × Text))
    {r : Rule} (operator : r.source ∈ operatorSources) :
    (FilterEngine.add (a, some items) r).2 = some items ∧
      (FilterEngine.add (b, none) r).2 = none ∧
      SameIndex (FilterEngine.add (a, some items) r).1 (FilterEngine.add (b, none) r).1 := by
  obtain ⟨plain, suffix, suffix', exact, exact', regex, regex'⟩ := same
  unfold FilterEngine.add
  cases r.regex with
  | some pattern =>
    cases r.block with
    | true => exact ⟨rfl, rfl, ⟨plain, suffix, suffix', exact, exact', by simp [regex], regex'⟩⟩
    | false => exact ⟨rfl, rfl, ⟨plain, suffix, suffix', exact, exact', regex, by simp [regex']⟩⟩
  | none =>
    cases r.exact with
    | some key =>
      cases r.block with
      | true => exact ⟨rfl, rfl, ⟨plain, suffix, suffix', by simp [exact], exact', regex, regex'⟩⟩
      | false => exact ⟨rfl, rfl, ⟨plain, suffix, suffix', exact, by simp [exact'], regex, regex'⟩⟩
    | none =>
      cases r.suffix with
      | none => exact ⟨rfl, rfl, ⟨plain, suffix, suffix', exact, exact', regex, regex'⟩⟩
      | some key =>
        unfold FilterEngine.addSuffix
        cases isPlain r with
        | true =>
          simp only [↓reduceIte, operator, true_and]
          exact ⟨by simp [plain], suffix, suffix', exact, exact', regex, regex'⟩
        | false =>
          cases r.block with
          | true => exact ⟨rfl, rfl, ⟨plain, by simp [suffix], suffix', exact, exact', regex, regex'⟩⟩
          | false => exact ⟨rfl, rfl, ⟨plain, suffix, by simp [suffix'], exact, exact', regex, regex'⟩⟩

theorem SameIndex.foldl_add (rules : List Rule) (operator : ∀ r ∈ rules, r.source ∈ operatorSources) :
    ∀ (a b : FilterEngine) (items : List (Text × Text)), SameIndex a b →
      (rules.foldl FilterEngine.add (a, some items)).2 = some items ∧
        SameIndex (rules.foldl FilterEngine.add (a, some items)).1
          (rules.foldl FilterEngine.add (b, none)).1 := by
  induction rules with
  | nil =>
    intro a b items same
    exact ⟨rfl, same⟩
  | cons r rules ih =>
    intro a b items same
    obtain ⟨sent, sent', same'⟩ := same.add items (operator r List.mem_cons_self)
    have first : FilterEngine.add (a, some items) r =
        ((FilterEngine.add (a, some items) r).1, some items) := Prod.ext rfl sent
    have second : FilterEngine.add (b, none) r = ((FilterEngine.add (b, none) r).1, none) :=
      Prod.ext rfl sent'
    rw [List.foldl_cons, List.foldl_cons, first, second]
    exact ih (fun x listed => operator x (List.mem_cons_of_mem _ listed)) _ _ items same'

/-- The index of an engine is not changed by a rule that goes to the table. -/
theorem add_imported (eng : FilterEngine) (items : List (Text × Text)) {r : Rule}
    (imported : r.isImported = true) :
    SameIndex (FilterEngine.add (eng, some items) r).1 eng := by
  unfold Rule.isImported at imported
  simp only [Bool.and_eq_true, Option.isNone_iff_eq_none, Bool.not_eq_true',
    decide_eq_false_iff_not] at imported
  obtain ⟨⟨⟨plain, regex⟩, exact⟩, outside⟩ := imported
  unfold FilterEngine.add
  rw [regex, exact]
  cases r.suffix with
  | none => exact ⟨rfl, rfl, rfl, rfl, rfl, rfl, rfl⟩
  | some key =>
    unfold FilterEngine.addSuffix
    simp only [plain, ↓reduceIte, outside]
    exact ⟨rfl, rfl, rfl, rfl, rfl, rfl, rfl⟩

theorem SameIndex.trans {a b c : FilterEngine} (first : SameIndex a b) (second : SameIndex b c) :
    SameIndex a c :=
  ⟨first.1.trans second.1, first.2.trans second.2, first.3.trans second.3, first.4.trans second.4,
    first.5.trans second.5, first.6.trans second.6, first.7.trans second.7⟩

theorem foldl_imported (rules : List Rule) (imported : ∀ r ∈ rules, r.isImported = true) :
    ∀ (eng : FilterEngine) (items : List (Text × Text)),
      ∃ eng' items', rules.foldl FilterEngine.add (eng, some items) = (eng', some items') ∧
        SameIndex eng' eng := by
  induction rules with
  | nil =>
    intro eng items
    exact ⟨eng, items, rfl, SameIndex.refl eng⟩
  | cons r rules ih =>
    intro eng items
    obtain ⟨sent, -⟩ := add_plain eng items r
    have first : FilterEngine.add (eng, some items) r =
        ((FilterEngine.add (eng, some items) r).1,
          some (items ++ if r.isImported then [(r.suffix.getD [], r.source)] else [])) :=
      Prod.ext rfl sent
    obtain ⟨eng', items', folded, same⟩ :=
      ih (fun x listed => imported x (List.mem_cons_of_mem _ listed))
        (FilterEngine.add (eng, some items) r).1
        (items ++ if r.isImported then [(r.suffix.getD [], r.source)] else [])
    refine ⟨eng', items', ?_, same.trans (add_imported eng items (imported r List.mem_cons_self))⟩
    rw [List.foldl_cons, first]
    exact folded

/-! ### What the operator's rules are -/

theorem operatorRules_spec {lib : Library} {allow deny : List Text} {r : Rule}
    (listed : r ∈ operatorRules lib allow deny) :
    r.source ∈ operatorSources ∧ r.badfilter = false ∧ r.rewrite = none := by
  unfold operatorRules at listed
  rcases List.mem_append.mp listed with either | either
  · obtain ⟨d, -, rfl⟩ := List.mem_map.mp either
    exact ⟨show allowlist ∈ operatorSources by decide, rfl, rfl⟩
  · obtain ⟨d, -, rfl⟩ := List.mem_map.mp either
    exact ⟨show denylist ∈ operatorSources by decide, rfl, rfl⟩

theorem badfilterIds_append_operator (lib : Library) (corpus : List Rule) (allow deny : List Text) :
    badfilterIds (corpus ++ operatorRules lib allow deny) = badfilterIds corpus := by
  unfold badfilterIds
  have none : (operatorRules lib allow deny).filter (fun r => r.badfilter) = [] := by
    rw [List.filter_eq_nil_iff]
    intro r listed
    rw [(operatorRules_spec listed).2.1]
    exact Bool.false_ne_true
  rw [List.filter_append, none, List.append_nil]

/-- The keys of a whole list are those of its corpus when it is compiled in one go. -/
theorem liveRules_none (lib : Library) (corpus : List Rule) (allow deny : List Text) :
    liveRules (corpus ++ operatorRules lib allow deny) none =
      liveRules (corpus ++ operatorRules lib allow deny) (some (badfilterIds corpus)) := by
  unfold liveRules
  rw [Option.getD_none, Option.getD_some, badfilterIds_append_operator]

/-- The list's rules and the operator's that survive, one after the other. -/
theorem liveRules_append (first second : List Rule) (keys : Finset PatternId) :
    liveRules (first ++ second) (some keys) =
      liveRules first (some keys) ++ liveRules second (some keys) := by
  unfold liveRules
  simp only [Option.getD_some]
  rw [List.filter_append]

/-- What the table is built from does not depend on the operator's lists. -/
theorem importedItems_append_operator (lib : Library) (corpus : List Rule) (allow deny : List Text)
    (keys : Finset PatternId) :
    importedItems (liveRules (corpus ++ operatorRules lib allow deny) (some keys)) =
      importedItems (liveRules corpus (some keys)) := by
  rw [liveRules_append]
  unfold importedItems
  have none : (liveRules (operatorRules lib allow deny) (some keys)).filter Rule.isImported = [] := by
    rw [List.filter_eq_nil_iff]
    intro r live imported
    have operator := (operatorRules_spec (List.mem_filter.mp live).1).1
    unfold Rule.isImported at imported
    simp [operator] at imported
  rw [List.filter_append, none, List.append_nil]

/-- All that a corpus has for an engine is in the table: each of its rules that `keys`
does not disable is a bare block rule of an imported list, and no rule of the operator
is disabled. -/
structure TableOnly (lib : Library) (keys : Finset PatternId) (corpus : List Rule)
    (allow deny : List Text) : Prop where
  imported : ∀ r ∈ liveRules corpus (some keys), r.isImported = true
  operator : ∀ r ∈ operatorRules lib allow deny, patternId r ∉ keys

theorem TableOnly.live {lib : Library} {keys : Finset PatternId} {corpus : List Rule}
    {allow deny : List Text} (table : TableOnly lib keys corpus allow deny) :
    liveRules (operatorRules lib allow deny) (some keys) = operatorRules lib allow deny ∧
      liveRules (operatorRules lib allow deny) none = operatorRules lib allow deny := by
  unfold liveRules
  constructor
  · rw [List.filter_eq_self]
    intro r listed
    simp [(operatorRules_spec listed).2.1, table.operator r listed]
  · rw [List.filter_eq_self]
    intro r listed
    have empty : badfilterIds (operatorRules lib allow deny) = ∅ := by
      have bare := badfilterIds_append_operator lib [] allow deny
      rw [List.nil_append] at bare
      rw [bare]
      rfl
    simp [(operatorRules_spec listed).2.1, empty]

/-- The file that `compile` leaves is the image of the imported domains. -/
theorem compileAt_spec {token : Nat} {rules : List Rule} {keys : Finset PatternId}
    {file : TableFile} {eng : FilterEngine}
    (compiled : FilterEngine.compileAt token rules (some keys) = .ok (file, eng)) :
    ∃ t, SharedBlockTable.openAt token file = .ok t ∧
      SharedBlockTable.image (importedItems (liveRules rules (some keys))) = .ok file ∧
      eng = { (((liveRules rules (some keys)).foldl FilterEngine.add ({}, some [])).1) with
        blockTable := t } := by
  obtain ⟨eng', items, folded, filed⟩ := filed_foldl (liveRules rules (some keys))
  unfold FilterEngine.compileAt SharedBlockTable.buildAt at compiled
  rw [folded] at compiled ⊢
  simp only [Option.getD_some] at compiled
  rw [filed.items] at compiled
  cases written : SharedBlockTable.image (importedItems (liveRules rules (some keys))) with
  | error fault =>
    rw [written] at compiled
    cases compiled
  | ok image =>
    rw [written] at compiled
    cases opened : SharedBlockTable.openAt token image with
    | error fault =>
      simp only [bind, Except.bind, opened] at compiled
      cases compiled
    | ok t =>
      simp only [bind, Except.bind, opened, pure, Except.pure, Except.ok.injEq,
        Prod.mk.injEq] at compiled
      obtain ⟨same, made⟩ := compiled
      rw [same] at opened
      exact ⟨t, opened, by rw [same], made.symm⟩

theorem exists_openAt {token : Nat} {rules : List Rule} {keys : Option (Finset PatternId)}
    {file : TableFile} {eng : FilterEngine}
    (compiled : FilterEngine.compileAt token rules keys = .ok (file, eng)) :
    ∃ t, SharedBlockTable.openAt token file = .ok t := by
  cases keys with
  | none =>
    obtain ⟨t, mapped, -⟩ := compileAt_spec
      (show FilterEngine.compileAt token rules (some (badfilterIds rules)) = _ from compiled)
    exact ⟨t, mapped⟩
  | some keys =>
    obtain ⟨t, mapped, -⟩ := compileAt_spec compiled
    exact ⟨t, mapped⟩

/-- The index of an engine compiled from a corpus that is in the table is that of the
operator's rules alone. -/
theorem TableOnly.sameIndex {lib : Library} {keys : Finset PatternId} {corpus : List Rule}
    {allow deny : List Text} (table : TableOnly lib keys corpus allow deny)
    (t t' : SharedBlockTable) :
    SameIndex (FilterEngine.fromTable t (operatorRules lib allow deny))
      { (((liveRules (corpus ++ operatorRules lib allow deny) (some keys)).foldl FilterEngine.add
        ({}, some [])).1) with blockTable := t' } := by
  rw [liveRules_append, table.live.1, List.foldl_append]
  obtain ⟨eng, items, first, same⟩ :=
    foldl_imported (liveRules corpus (some keys)) table.imported {} []
  rw [first]
  obtain ⟨-, later⟩ := same.foldl_add (operatorRules lib allow deny)
    (fun r listed => (operatorRules_spec listed).1) eng {} items
  unfold FilterEngine.fromTable
  rw [table.live.2]
  exact ⟨later.1.symm, later.2.symm, later.3.symm, later.4.symm, later.5.symm, later.6.symm,
    later.7.symm⟩

/-- With all of the corpus in the table, an engine around it decides as the engine
compiled with the table. -/
theorem TableOnly.matchQuery_compileAt {lib : Library} {keys : Finset PatternId}
    {corpus : List Rule} {allow deny : List Text} (table : TableOnly lib keys corpus allow deny)
    {token : Nat} {file : TableFile} {eng : FilterEngine} {t : SharedBlockTable}
    (persisted : FilterEngine.compileAt token (corpus ++ operatorRules lib allow deny) (some keys) =
      .ok (file, eng))
    (mapped : SharedBlockTable.openAt token file = .ok t) (q : Query) :
    (FilterEngine.fromTable t (operatorRules lib allow deny)).matchQuery lib q =
      eng.matchQuery lib q := by
  obtain ⟨t', opened, -, made⟩ := compileAt_spec persisted
  rw [mapped] at opened
  cases opened
  rw [made]
  exact (table.sameIndex t t).matchQuery (fun _ => rfl) lib q

/-- The same of the engine that is compiled without leaving a file. -/
theorem TableOnly.matchQuery {lib : Library} {corpus : List Rule} {allow deny : List Text}
    (table : TableOnly lib (badfilterIds corpus) corpus allow deny) {token : Nat}
    {allow' deny' : List Text} {file : TableFile} {eng base : FilterEngine} {t : SharedBlockTable}
    (persisted : FilterEngine.compileAt token (corpus ++ operatorRules lib allow' deny') none =
      .ok (file, eng))
    (mapped : SharedBlockTable.openAt token file = .ok t)
    (compiled : FilterEngine.compile (corpus ++ operatorRules lib allow deny) none = .ok base)
    (q : Query) :
    (FilterEngine.fromTable t (operatorRules lib allow deny)).matchQuery lib q =
      base.matchQuery lib q := by
  unfold FilterEngine.compileAt at persisted
  unfold FilterEngine.compile at compiled
  rw [liveRules_none] at persisted compiled
  obtain ⟨-, -, written, -⟩ := compileAt_spec persisted
  rw [importedItems_append_operator] at written
  obtain ⟨eng', items, folded, filed⟩ :=
    filed_foldl (liveRules (corpus ++ operatorRules lib allow deny) (some (badfilterIds corpus)))
  have sent := filed.items
  rw [importedItems_append_operator] at sent
  have index := table.sameIndex t t
  rw [folded] at compiled index
  simp only [Option.getD_some] at compiled
  rw [sent] at compiled
  unfold SharedBlockTable.build at compiled
  rw [written] at compiled
  unfold SharedBlockTable.openAt at mapped
  cases attached : SharedBlockTable.attach file with
  | error fault =>
    rw [attached] at mapped
    cases mapped
  | ok built =>
    rw [attached] at mapped
    cases mapped
    have whole : { eng' with blockTable := built } = base := by
      simp only [bind, Except.bind, attached, pure, Except.pure, Except.ok.injEq] at compiled
      exact compiled
    rw [← whole]
    have same : SameIndex
        (FilterEngine.fromTable { built with token := some token } (operatorRules lib allow deny))
        { eng' with blockTable := built } :=
      ⟨index.1, index.2, index.3, index.4, index.5, index.6, index.7⟩
    exact same.matchQuery (fun _ => rfl) lib q

end Filter

/-- What an adopted engine is held against: the actions of the engine compiled from the
corpus, and the answer addresses that the engine it replaces rejects. -/
structure SameRules (lib : Library) (base replaced adopted : FilterEngine) : Prop where
  actions : ∀ q, (adopted.matchQuery lib q).map Decision.action =
    (base.matchQuery lib q).map Decision.action
  addresses : ∀ ip, adopted.ips.find lib ip = replaced.ips.find lib ip

theorem fold_add_ips (rules : List Rule) :
    ∀ into : FilterEngine × Option (List (Text × Text)),
      (rules.foldl FilterEngine.add into).1.ips = into.1.ips := by
  induction rules with
  | nil =>
    intro into
    rfl
  | cons r rules ih =>
    intro into
    rw [List.foldl_cons, ih]
    unfold FilterEngine.add
    cases r.regex with
    | some pattern => cases r.block <;> rfl
    | none =>
      cases r.exact with
      | some key => cases r.block <;> rfl
      | none =>
        cases r.suffix with
        | none => rfl
        | some key =>
          unfold FilterEngine.addSuffix
          cases isPlain r with
          | true =>
            cases into.2 with
            | none => rfl
            | some items => by_cases operator : r.source ∈ operatorSources <;> simp [operator]
          | false => cases r.block <;> rfl

theorem longest_empty (bits value : Nat) : IPMatcher.longest Dict.empty bits value = none := by
  unfold IPMatcher.longest Dict.empty
  rw [List.map_nil, List.mergeSort_nil]
  rfl

theorem find_empty (lib : Library) (ip : Text) : IPMatcher.find lib {} ip = none := by
  unfold IPMatcher.find
  split
  · rfl
  · exact longest_empty _ _
  · exact longest_empty _ _

/-- An engine around a table rejects no address. -/
theorem fromTable_ips (lib : Library) (table : SharedBlockTable) (rules : List Rule) (ip : Text) :
    (FilterEngine.fromTable table rules).ips.find lib ip = none := by
  have bare : (FilterEngine.fromTable table rules).ips = {} :=
    fold_add_ips (liveRules rules none) ({}, none)
  rw [bare]
  exact find_empty lib ip

/-- An adopted engine enforces what was compiled when all of the corpus is in the table
and the engine it replaces rejects no address; the latter it needs. -/
theorem adopts_spec {lib : Library} (corpus : List Rule) {token : Nat} {allow' deny' : List Text}
    {file : TableFile} {eng base : FilterEngine} {app app' : App}
    (persisted : FilterEngine.compileAt token (corpus ++ operatorRules lib allow' deny') none =
      .ok (file, eng))
    (compiled : FilterEngine.compile (corpus ++ operatorRules lib app.allow app.deny) none = .ok base)
    (adopts : App.Adopts lib token file app app') :
    ((TableOnly lib (badfilterIds corpus) corpus app.allow app.deny ∧ ∀ ip, app.filter.ips.find lib ip = none) →
        SameRules lib base app.filter app'.filter) ∧
      (SameRules lib base app.filter app'.filter → ∀ ip, app.filter.ips.find lib ip = none) := by
  obtain ⟨t, mapped⟩ := exists_openAt persisted
  have engine := adopts.filter_eq mapped
  unfold App.configRules at engine
  rw [engine]
  constructor
  · intro both
    obtain ⟨table, bare⟩ := both
    constructor
    · intro q
      rw [table.matchQuery persisted mapped compiled q]
    · intro ip
      rw [fromTable_ips, bare ip]
  · intro same ip
    rw [← same.addresses ip, fromTable_ips]

/-- A process with no operator rules that has no table yet. -/
def blankApp : App where
  filter := {}
  allow := []
  deny := []
  gravity := true

/-- The one rule of these that the table holds. -/
def blockAds : List Rule := adsRules.take 1

theorem adopts_blockAds : ∃ file eng base,
    FilterEngine.compileAt 1 blockAds none = .ok (file, eng) ∧
      FilterEngine.compile blockAds none = .ok base ∧
      SameRules Library.blank base blankApp.filter
        (blankApp.loadCached Library.blank (some (1, file))).filter := by
  cases persisted : FilterEngine.compileAt 1 blockAds none with
  | error fault =>
    have ends : (FilterEngine.compileAt 1 blockAds none).isOk = true := by decide +kernel
    rw [persisted] at ends
    cases ends
  | ok made =>
    cases compiled : FilterEngine.compile blockAds none with
    | error fault =>
      have ends : (FilterEngine.compile blockAds none).isOk = true := by decide +kernel
      rw [compiled] at ends
      cases ends
    | ok base =>
      obtain ⟨file, eng⟩ := made
      refine ⟨file, eng, base, rfl, rfl, ?_⟩
      have table : TableOnly Library.blank (badfilterIds blockAds) blockAds [] [] := by
        constructor
        · decide +kernel
        · intro r listed
          cases listed
      have bare : ∀ ip, blankApp.filter.ips.find Library.blank ip = none := find_empty Library.blank
      have alone : blockAds ++ operatorRules Library.blank blankApp.allow blankApp.deny = blockAds :=
        List.append_nil blockAds
      rw [← alone] at persisted compiled
      exact (adopts_spec blockAds persisted compiled (.restart blankApp)).1 ⟨table, bare⟩

/-- A query for a name that a list's exception lets through. -/
def okQuery : Query := ⟨"ok.ads.example".toList, 1, ∅, [], ∅⟩

/-- The exception is not in the table: the compiled engine allows the name, and a process
that maps the table blocks it. -/
theorem adopted_blocks_exception : ∃ file eng base,
    FilterEngine.compileAt 1 adsRules none = .ok (file, eng) ∧
      FilterEngine.compile adsRules none = .ok base ∧
      ¬ SameRules Library.blank base blankApp.filter
        (blankApp.loadCached Library.blank (some (1, file))).filter := by
  have run : (do
      let (file, _) ← FilterEngine.compileAt 1 adsRules none
      let base ← FilterEngine.compile adsRules none
      let adopted := (blankApp.loadCached Library.blank (some (1, file))).filter
      return ((adopted.matchQuery Library.blank okQuery).map Decision.action,
        (base.matchQuery Library.blank okQuery).map Decision.action)) =
        .ok (.ok .block, .ok .allow) := by
    decide +kernel
  cases persisted : FilterEngine.compileAt 1 adsRules none with
  | error fault =>
    rw [persisted] at run
    cases run
  | ok made =>
    cases compiled : FilterEngine.compile adsRules none with
    | error fault =>
      rw [persisted, compiled] at run
      cases run
    | ok base =>
      obtain ⟨file, eng⟩ := made
      refine ⟨file, eng, base, rfl, rfl, ?_⟩
      intro same
      rw [persisted, compiled] at run
      simp only [bind, Except.bind, pure, Except.pure, Except.ok.injEq, Prod.mk.injEq] at run
      have agree := same.actions okQuery
      rw [run.1, run.2] at agree
      cases agree

end Trench
