import Mathlib
import Trench.App.Adopt

set_option autoImplicit false

/- The refresh of the blocklists: the primary worker builds a candidate, checks it and
puts it into service, and the other workers follow the file that the build leaves. -/

namespace Trench

open Wire Trench.Filter

/-! ### The operator's assertions -/

inductive Expect where
  | block
  | resolve
  deriving DecidableEq, Repr

structure Assertion where
  name : Text
  expect : Expect
  qtype : Nat := 1
  source : Text := []
  deriving DecidableEq

structure Failure where
  assertion : Assertion
  verdict : Text
  rule : Text := []
  listSource : Text := []
  deriving DecidableEq

/-- The name that an assertion is checked on; a wildcard stands for one name under it. -/
def Assertion.probe (a : Assertion) : Text :=
  match a.name with
  | '*' :: '.' :: rest => "assert-probe.".toList ++ rest
  | name => name

/-- What is asked of an engine: no client, no tags. -/
def Assertion.query (a : Assertion) : Query := ⟨a.probe, a.qtype, ∅, [], ∅⟩

/-- What one assertion makes of a decision; a match that raises is passed by. -/
def Assertion.failure (a : Assertion) : Except TableFault Decision → Option Failure
  | .error _ => none
  | .ok d =>
    match decide (d.action = .block), a.expect with
    | true, .resolve => some ⟨a, "be blocked".toList, d.rule, d.source⟩
    | false, .block => some ⟨a, "resolve".toList, [], []⟩
    | _, _ => none

/-- Every assertion that `engine` violates, in the order they were written. -/
def check (lib : Library) (engine : FilterEngine) (assertions : List Assertion) : List Failure :=
  assertions.filterMap fun a => a.failure (engine.matchQuery lib a.query)

theorem check_congr {lib : Library} {a b : FilterEngine}
    (same : ∀ q, a.matchQuery lib q = b.matchQuery lib q) (assertions : List Assertion) :
    check lib a assertions = check lib b assertions := by
  unfold check
  apply List.filterMap_congr
  intro x listed
  rw [same]

/-! ### Builds and workers -/

/-- The part of the configuration that every worker reads. -/
structure Policy where
  allow : List Text
  deny : List Text
  assertions : List Assertion

/-- One build: what was fetched, what failed, and what came of it. -/
structure Build where
  corpus : List Rule
  keys : Finset PatternId
  errors : List Text
  token : Nat
  file : TableFile
  engine : FilterEngine

/-- How far the primary is between two of its awaits. -/
inductive Phase where
  | idle
  | fetched (corpus : List Rule) (keys : Finset PatternId) (errors : List Text)
  | compiled (b : Build)
  | grouped (b : Build)
  | reviewing (b : Build)

/-- The primary, the other workers and the file between them. -/
structure System (W : Type) where
  disk : SharedBlockTable.Disk
  phase : Phase
  primary : App
  workers : W → App
  failures : List Failure
  accepted : List Build

/-- What can happen next; the parameters are what the outside decides. -/
inductive Event (W : Type) where
  | fetch (corpus : List Rule) (keys : Finset PatternId) (errors : List Text)
  | compile (token : Nat) (ips : IPMatcher)
  | groups (errors : List Text)
  | judge
  | swap
  | abort
  | sync (w : W)

variable {W : Type}

/-- The gate of a refresh: a failed source, then a violated assertion, keeps what is running. -/
def System.judge (lib : Library) (policy : Policy) (s : System W) (b : Build) : System W :=
  if b.errors ≠ [] then { s with phase := .idle }
  else
    let failures := check lib b.engine policy.assertions
    if failures ≠ [] then { s with phase := .idle, failures := failures }
    else { s with phase := .reviewing b, failures := [], accepted := b :: s.accepted }

/-- The compile writes the table and renames it into place before anything is judged. -/
def System.compile (lib : Library) (policy : Policy) (s : System W) (corpus : List Rule)
    (keys : Finset PatternId) (errors : List Text) (token : Nat) (ips : IPMatcher) : System W :=
  match FilterEngine.compileAt token (corpus ++ operatorRules lib policy.allow policy.deny)
      (some keys) with
  | .error _ => { s with phase := .idle }
  | .ok (file, engine) =>
    { s with
      disk := some (token, file)
      phase := .compiled ⟨corpus, keys, errors, token, file, { engine with ips := ips }⟩ }

/-- One step of the system, when it is possible. -/
def System.step [DecidableEq W] (lib : Library) (policy : Policy) (s : System W) : Event W → Option (System W)
  | .fetch corpus keys errors =>
    match s.phase with
    | .idle => some { s with phase := .fetched corpus keys errors }
    | _ => none
  | .compile token ips =>
    match s.phase with
    | .fetched corpus keys errors => some (s.compile lib policy corpus keys errors token ips)
    | _ => none
  | .groups errors =>
    match s.phase with
    | .compiled b => some { s with phase := .grouped { b with errors := b.errors ++ errors } }
    | _ => none
  | .judge =>
    match s.phase with
    | .grouped b => some (s.judge lib policy b)
    | _ => none
  | .swap =>
    match s.phase with
    | .reviewing b => some { s with phase := .idle, primary := { s.primary with filter := b.engine } }
    | _ => none
  | .abort => some { s with phase := .idle }
  | .sync w =>
    some { s with
      workers := Function.update s.workers w ((s.workers w).adoptRefreshedTable lib s.disk).1 }

/-- The states that a run from `start` can reach when each step is one of `permitted`. -/
inductive Reaches [DecidableEq W] (lib : Library) (policy : Policy) (permitted : System W → Event W → Prop)
    (start : System W) : System W → Prop
  | start : Reaches lib policy permitted start start
  | step {s s' : System W} (event : Event W) (before : Reaches lib policy permitted start s)
      (possible : s.step lib policy event = some s') (meets : permitted s event) :
      Reaches lib policy permitted start s'

/-- A worker has the rules it started with or decides like an accepted build, and breaks
no assertion that its first rules kept. -/
structure Serves (lib : Library) (policy : Policy) (accepted : List Build)
    (origin now : FilterEngine) : Prop where
  rules : now = origin ∨
    ∃ b ∈ accepted, b.errors = [] ∧ check lib b.engine policy.assertions = [] ∧
      ∀ q, now.matchQuery lib q = b.engine.matchQuery lib q
  asserted : ∀ a ∈ policy.assertions,
    a.failure (origin.matchQuery lib a.query) = none → a.failure (now.matchQuery lib a.query) = none

/-- No refused build is enforced by any worker. -/
structure Safe (lib : Library) (policy : Policy) (start s : System W) : Prop where
  primary : Serves lib policy s.accepted start.primary.filter s.primary.filter
  workers : ∀ w, Serves lib policy s.accepted (start.workers w).filter (s.workers w).filter

/-- A worker that finds the table replaced finds that of an accepted build, whose corpus is
all in the table. -/
def Settled (lib : Library) (policy : Policy) (s : System W) : Event W → Prop
  | .sync w =>
    (s.workers w).filter.blockTable.token = s.disk.map Prod.fst ∨
      ∃ b ∈ s.accepted, s.disk = some (b.token, b.file) ∧
        TableOnly lib b.keys b.corpus policy.allow policy.deny
  | _ => True

/-! ### What a run keeps -/

theorem Serves.origin {lib : Library} {policy : Policy} {accepted : List Build}
    (engine : FilterEngine) : Serves lib policy accepted engine engine :=
  ⟨.inl rfl, fun _ _ kept => kept⟩

/-- An engine that decides like an accepted build serves. -/
theorem Serves.build {lib : Library} {policy : Policy} {accepted : List Build}
    {origin now : FilterEngine} {b : Build} (listed : b ∈ accepted) (fetched : b.errors = [])
    (passed : check lib b.engine policy.assertions = [])
    (same : ∀ q, now.matchQuery lib q = b.engine.matchQuery lib q) :
    Serves lib policy accepted origin now := by
  constructor
  · exact .inr ⟨b, listed, fetched, passed, same⟩
  · intro a asserted _
    rw [same]
    exact List.filterMap_eq_nil_iff.mp passed a asserted

/-- Builds that are accepted later do not matter. -/
theorem Serves.mono {lib : Library} {policy : Policy} {accepted later : List Build}
    {origin now : FilterEngine} (serves : Serves lib policy accepted origin now)
    (more : ∀ b ∈ accepted, b ∈ later) : Serves lib policy later origin now := by
  refine ⟨?_, serves.asserted⟩
  rcases serves.rules with same | ⟨b, listed, rest⟩
  · exact .inl same
  · exact .inr ⟨b, more b listed, rest⟩

/-- The engine and the file of a build are what the compiler makes of its corpus. -/
def Build.Compiled (lib : Library) (policy : Policy) (b : Build) : Prop :=
  ∃ engine, FilterEngine.compileAt b.token
      (b.corpus ++ operatorRules lib policy.allow policy.deny) (some b.keys) = .ok (b.file, engine) ∧
    b.engine = { engine with ips := b.engine.ips }

/-- A worker that maps the table of a build decides like its engine. -/
theorem Build.Compiled.adopted {lib : Library} {policy : Policy} {b : Build}
    (compiled : b.Compiled lib policy)
    (table : TableOnly lib b.keys b.corpus policy.allow policy.deny) {app : App}
    (lists : app.allow = policy.allow ∧ app.deny = policy.deny) :
    (∀ q, (app.adoptRefreshedTable lib (some (b.token, b.file))).1.filter.matchQuery lib q =
        b.engine.matchQuery lib q) ∨
      (app.adoptRefreshedTable lib (some (b.token, b.file))).1 = app := by
  obtain ⟨engine, made, same⟩ := compiled
  obtain ⟨t, mapped⟩ := exists_openAt made
  cases adopted : app.adoptRefreshedTable lib (some (b.token, b.file)) with
  | mk app' replaced =>
    cases replaced with
    | true =>
      left
      intro q
      have filter := (App.Adopts.sync app app' adopted).filter_eq mapped
      unfold App.configRules at filter
      have index : SameIndex engine b.engine := by
        rw [same]
        exact ⟨rfl, rfl, rfl, rfl, rfl, rfl, rfl⟩
      have tables : ∀ domain, engine.blockTable.get domain = b.engine.blockTable.get domain := by
        rw [same]
        intro domain
        rfl
      rw [filter, lists.1, lists.2, table.matchQuery_compileAt made mapped q]
      exact index.matchQuery tables lib q
    | false =>
      right
      exact App.adoptRefreshedTable_kept adopted

/-- What every step keeps: the shared lists, what each worker enforces, and that the build
in progress and the accepted ones are compiled and checked. -/
structure Kept (lib : Library) (policy : Policy) (start s : System W) : Prop where
  lists : ∀ w, (s.workers w).allow = policy.allow ∧ (s.workers w).deny = policy.deny
  safe : Safe lib policy start s
  accepted : ∀ b ∈ s.accepted,
    b.Compiled lib policy ∧ b.errors = [] ∧ check lib b.engine policy.assertions = []
  phase : match s.phase with
    | .compiled b => b.Compiled lib policy
    | .grouped b => b.Compiled lib policy
    | .reviewing b => b ∈ s.accepted
    | _ => True

/-- The lists of a worker are not what a sync changes. -/
theorem adoptRefreshedTable_lists (lib : Library) (app : App) (disk : SharedBlockTable.Disk) :
    (app.adoptRefreshedTable lib disk).1.allow = app.allow ∧
      (app.adoptRefreshedTable lib disk).1.deny = app.deny := by
  have maps : (app.mapTable lib disk).1.allow = app.allow ∧
      (app.mapTable lib disk).1.deny = app.deny := by
    unfold App.mapTable
    split
    · exact ⟨rfl, rfl⟩
    · split <;> exact ⟨rfl, rfl⟩
  unfold App.adoptRefreshedTable
  split <;> split <;> first | exact ⟨rfl, rfl⟩ | exact maps

/-- A worker whose table is the one on disk adopts nothing. -/
theorem adoptRefreshedTable_same {lib : Library} {app : App} {disk : SharedBlockTable.Disk}
    (same : app.filter.blockTable.token = disk.map Prod.fst) :
    (app.adoptRefreshedTable lib disk).1 = app := by
  unfold App.adoptRefreshedTable SharedBlockTable.stale
  cases disk with
  | none =>
    rw [Option.map_none] at same
    simp [same]
  | some there =>
    rw [Option.map_some] at same
    simp [same]

theorem Kept.compile {lib : Library} {policy : Policy} {start s : System W}
    (kept : Kept lib policy start s) (corpus : List Rule) (keys : Finset PatternId)
    (errors : List Text) (token : Nat) (ips : IPMatcher) :
    Kept lib policy start (s.compile lib policy corpus keys errors token ips) := by
  unfold System.compile
  split
  · exact ⟨kept.lists, ⟨kept.safe.primary, kept.safe.workers⟩, kept.accepted, trivial⟩
  · next file engine made =>
    have compiled : Build.Compiled lib policy
        ⟨corpus, keys, errors, token, file, { engine with ips := ips }⟩ := ⟨engine, made, rfl⟩
    exact ⟨kept.lists, ⟨kept.safe.primary, kept.safe.workers⟩, kept.accepted, compiled⟩

/-- The gate lets only a build through that has no error and violates nothing. -/
theorem Kept.judge {lib : Library} {policy : Policy} {start s : System W}
    (kept : Kept lib policy start s) {b : Build} (compiled : b.Compiled lib policy) :
    Kept lib policy start (s.judge lib policy b) := by
  unfold System.judge
  split
  · exact ⟨kept.lists, ⟨kept.safe.primary, kept.safe.workers⟩, kept.accepted, trivial⟩
  · next fetched =>
    rw [not_not] at fetched
    dsimp only
    split
    · exact ⟨kept.lists, ⟨kept.safe.primary, kept.safe.workers⟩, kept.accepted, trivial⟩
    · next passed =>
      rw [not_not] at passed
      have more : ∀ other ∈ s.accepted, other ∈ b :: s.accepted :=
        fun _ listed => List.mem_cons_of_mem b listed
      refine ⟨kept.lists, ⟨kept.safe.primary.mono more, fun w => (kept.safe.workers w).mono more⟩,
        ?_, List.mem_cons_self⟩
      intro other listed
      rcases List.mem_cons.mp listed with same | listed
      · rw [same]
        exact ⟨compiled, fetched, passed⟩
      · exact kept.accepted other listed

theorem Kept.sync [DecidableEq W] {lib : Library} {policy : Policy} {start s : System W}
    (kept : Kept lib policy start s) (w : W) (settled : Settled lib policy s (.sync w)) :
    Kept lib policy start { s with
      workers := Function.update s.workers w ((s.workers w).adoptRefreshedTable lib s.disk).1 } := by
  have serves : Serves lib policy s.accepted (start.workers w).filter
      ((s.workers w).adoptRefreshedTable lib s.disk).1.filter := by
    rcases settled with same | ⟨b, listed, onDisk, table⟩
    · rw [adoptRefreshedTable_same same]
      exact kept.safe.workers w
    · obtain ⟨compiled, fetched, passed⟩ := kept.accepted b listed
      rw [onDisk]
      rcases compiled.adopted table (kept.lists w) with same | same
      · exact Serves.build listed fetched passed same
      · rw [same]
        exact kept.safe.workers w
  refine ⟨?_, ⟨kept.safe.primary, ?_⟩, kept.accepted, kept.phase⟩
  · intro other
    by_cases same : other = w
    · rw [same]
      simp only [Function.update_self]
      obtain ⟨allow, deny⟩ := adoptRefreshedTable_lists lib (s.workers w) s.disk
      rw [allow, deny]
      exact kept.lists w
    · simp only [Function.update_of_ne same]
      exact kept.lists other
  · intro other
    by_cases same : other = w
    · rw [same]
      simp only [Function.update_self]
      exact serves
    · simp only [Function.update_of_ne same]
      exact kept.safe.workers other

/-- Every step keeps the invariant, a sync when it meets its condition. -/
theorem Kept.step [DecidableEq W] {lib : Library} {policy : Policy} {start s s' : System W}
    (kept : Kept lib policy start s) {event : Event W}
    (possible : s.step lib policy event = some s') (settled : Settled lib policy s event) :
    Kept lib policy start s' := by
  have phase := kept.phase
  cases event with
  | fetch corpus keys errors =>
    simp only [System.step] at possible
    split at possible <;> cases possible
    exact ⟨kept.lists, ⟨kept.safe.primary, kept.safe.workers⟩, kept.accepted, trivial⟩
  | compile token ips =>
    simp only [System.step] at possible
    split at possible <;> cases possible
    exact kept.compile _ _ _ token ips
  | groups errors =>
    simp only [System.step] at possible
    split at possible <;> cases possible
    next b reached =>
      rw [reached] at phase
      exact ⟨kept.lists, ⟨kept.safe.primary, kept.safe.workers⟩, kept.accepted, phase⟩
  | judge =>
    simp only [System.step] at possible
    split at possible <;> cases possible
    next b reached =>
      rw [reached] at phase
      exact kept.judge phase
  | swap =>
    simp only [System.step] at possible
    split at possible <;> cases possible
    next b reached =>
      rw [reached] at phase
      obtain ⟨-, fetched, passed⟩ := kept.accepted b phase
      exact ⟨kept.lists, ⟨Serves.build phase fetched passed fun _ => rfl, kept.safe.workers⟩,
        kept.accepted, trivial⟩
  | abort =>
    cases possible
    exact ⟨kept.lists, ⟨kept.safe.primary, kept.safe.workers⟩, kept.accepted, trivial⟩
  | sync w =>
    cases possible
    exact kept.sync w settled

/-- In every run whose syncs find only settled tables, no refused build is enforced. -/
theorem safe_of_settled [DecidableEq W] {lib : Library} {policy : Policy} {start s : System W}
    (idle : start.phase = .idle) (fresh : start.accepted = [])
    (lists : ∀ w, (start.workers w).allow = policy.allow ∧ (start.workers w).deny = policy.deny)
    (run : Reaches lib policy (Settled lib policy) start s) : Safe lib policy start s := by
  have kept : Kept lib policy start s := by
    induction run with
    | start =>
      refine ⟨lists, ⟨Serves.origin _, fun w => Serves.origin _⟩, ?_, ?_⟩
      · rw [fresh]
        intro b listed
        cases listed
      · rw [idle]
        trivial
    | step event before possible meets ih => exact ih.step possible meets
  exact kept.safe

/-! ### One refresh from a table that is served -/

/-- The operator wants one name to resolve. -/
def bankPolicy : Policy where
  allow := []
  deny := []
  assertions := [{ name := "bank.example".toList, expect := .resolve }]

/-- A primary and one other worker, each with the table of `made` in service. -/
def serving (made : TableFile × FilterEngine) : System Unit where
  disk := some (1, made.1)
  phase := .idle
  primary := { blankApp with filter := made.2 }
  workers := fun _ => blankApp.loadCached Library.blank (some (1, made.1))
  failures := []
  accepted := []

/-- A list that takes the operator's name. -/
def blockBank : List Rule :=
  [{ raw := "||bank.example^".toList, suffix := some "bank.example".toList, source := "list".toList }]

theorem serving_lists (made : TableFile × FilterEngine) (w : Unit) :
    ((serving made).workers w).allow = bankPolicy.allow ∧
      ((serving made).workers w).deny = bankPolicy.deny := by
  have same : blankApp.loadCached Library.blank (some (1, made.1)) =
      (blankApp.mapTable Library.blank (some (1, made.1))).1 := rfl
  unfold serving
  dsimp only
  rw [same]
  unfold App.mapTable
  dsimp only
  split <;> exact ⟨rfl, rfl⟩

/-- The candidate of a refresh that failed no source. -/
def candidate (corpus : List Rule) (made : TableFile × FilterEngine) : Build :=
  ⟨corpus, ∅, [], 2, made.1, { made.2 with ips := {} }⟩

/-- The start of a refresh, up to the table that it renames into place. -/
theorem reaches_grouped (permitted : System Unit → Event Unit → Prop)
    (meets : ∀ s event, (∀ w, event ≠ .sync w) → permitted s event) (corpus : List Rule)
    (made : TableFile × FilterEngine) {next : TableFile × FilterEngine}
    (compiled : FilterEngine.compileAt 2 (corpus ++ operatorRules Library.blank [] []) (some ∅) =
      .ok next) :
    Reaches Library.blank bankPolicy permitted (serving made)
      { serving made with disk := some (2, next.1), phase := .grouped (candidate corpus next) } := by
  have fetched : Reaches Library.blank bankPolicy permitted (serving made)
      { serving made with phase := .fetched corpus ∅ [] } :=
    .step (.fetch corpus ∅ []) .start rfl (meets _ _ (fun _ same => by cases same))
  have written : Reaches Library.blank bankPolicy permitted (serving made)
      { serving made with disk := some (2, next.1), phase := .compiled (candidate corpus next) } := by
    refine .step (.compile 2 {}) fetched ?_ (meets _ _ (fun _ same => by cases same))
    show some (System.compile _ _ _ _ _ _ _ _) = _
    unfold System.compile bankPolicy
    dsimp only
    rw [compiled]
    rfl
  exact .step (.groups []) written rfl (meets _ _ (fun _ same => by cases same))

/-- What an evaluated run says of the engine that a compile made. -/
theorem exists_compiled {token : Nat} {rules : List Rule} {keys : Option (Finset PatternId)}
    {α : Type} {f : TableFile × FilterEngine → α} {x : α}
    (run : f <$> FilterEngine.compileAt token rules keys = .ok x) :
    ∃ made, FilterEngine.compileAt token rules keys = .ok made ∧ f made = x := by
  cases compiled : FilterEngine.compileAt token rules keys with
  | error fault =>
    rw [compiled] at run
    cases run
  | ok made =>
    rw [compiled] at run
    cases run
    exact ⟨made, rfl, rfl⟩

/-- A refresh that is accepted before the other worker looks. -/
theorem safe_blockAds : ∃ start s : System Unit,
    s.accepted.length = 1 ∧ s.failures = [] ∧ Safe Library.blank bankPolicy start s := by
  have first : (fun _ => ()) <$> FilterEngine.compileAt 1 blockAds none = .ok () := by decide +kernel
  have second : (fun made => check Library.blank { made.2 with ips := {} } bankPolicy.assertions) <$>
      FilterEngine.compileAt 2 (blockAds ++ operatorRules Library.blank [] []) (some ∅) = .ok [] := by
    decide +kernel
  obtain ⟨made, -, -⟩ := exists_compiled first
  obtain ⟨next, compiled, passed⟩ := exists_compiled second
  have table : TableOnly Library.blank ∅ blockAds [] [] := by
    constructor
    · decide +kernel
    · intro r listed
      cases listed
  have meets : ∀ (s : System Unit) event, (∀ w, event ≠ .sync w) →
      Settled Library.blank bankPolicy s event := by
    intro s event other
    cases event with
    | sync w => exact absurd rfl (other w)
    | _ => trivial
  have grouped := reaches_grouped (Settled Library.blank bankPolicy) meets blockAds made compiled
  let b := candidate blockAds next
  have judged : Reaches Library.blank bankPolicy (Settled Library.blank bankPolicy) (serving made)
      { serving made with disk := some (2, next.1), phase := .reviewing b, accepted := [b] } := by
    refine .step .judge grouped ?_ trivial
    show some (System.judge _ _ _ b) = _
    unfold System.judge
    have fetched : ¬ b.errors ≠ [] := not_not.mpr rfl
    have passed' : ¬ check Library.blank b.engine bankPolicy.assertions ≠ [] := not_not.mpr passed
    simp only [if_neg fetched, if_neg passed']
    rfl
  have swapped := Reaches.step .swap judged rfl trivial
  have synced := Reaches.step (.sync ()) swapped rfl (.inr ⟨b, List.mem_cons_self, rfl, table⟩)
  exact ⟨_, _, rfl, rfl, safe_of_settled rfl rfl (serving_lists made) synced⟩

/-- The other worker looks between the rename and the verdict: it blocks the name that the
operator wants to resolve, and the build is refused. -/
theorem unsafe_blockBank : ∃ start s : System Unit,
    start.phase = .idle ∧ start.accepted = [] ∧
      (∀ w, (start.workers w).filter.blockTable.token = start.disk.map Prod.fst) ∧
      Reaches Library.blank bankPolicy (fun _ _ => True) start s ∧
      s.accepted = [] ∧ s.failures ≠ [] ∧ ¬ Safe Library.blank bankPolicy start s := by
  let bank : Assertion := { name := "bank.example".toList, expect := .resolve }
  have run : (fun made : TableFile × FilterEngine =>
      ((blankApp.loadCached Library.blank (some (1, made.1))).filter.blockTable.token,
        bank.failure ((blankApp.loadCached Library.blank (some (1, made.1))).filter.matchQuery
          Library.blank bank.query),
        (fun next : TableFile × FilterEngine =>
          ((check Library.blank { next.2 with ips := {} } bankPolicy.assertions).isEmpty,
            (bank.failure (((blankApp.loadCached Library.blank (some (1, made.1))).adoptRefreshedTable
              Library.blank (some (2, next.1))).1.filter.matchQuery Library.blank bank.query)).isSome)) <$>
          FilterEngine.compileAt 2 (blockBank ++ operatorRules Library.blank [] []) (some ∅))) <$>
      FilterEngine.compileAt 1 blockAds none = .ok (some 1, none, .ok (false, true)) := by
    decide +kernel
  obtain ⟨made, -, first⟩ := exists_compiled run
  simp only [Prod.mk.injEq] at first
  obtain ⟨token, kept, rest⟩ := first
  obtain ⟨next, compiled, second⟩ := exists_compiled rest
  simp only [Prod.mk.injEq] at second
  obtain ⟨failed, broken⟩ := second
  let b := candidate blockBank next
  have failures : check Library.blank b.engine bankPolicy.assertions ≠ [] := by
    intro passed
    have same : check Library.blank { next.2 with ips := {} } bankPolicy.assertions = [] := passed
    rw [same] at failed
    cases failed
  have grouped := reaches_grouped (fun _ _ => True) (fun _ _ _ => trivial) blockBank made compiled
  have synced := Reaches.step (.sync ()) grouped rfl trivial
  have judged := Reaches.step .judge synced rfl trivial
  have verdict : ∀ s : System Unit, System.judge Library.blank bankPolicy s b =
      { s with phase := .idle, failures := check Library.blank b.engine bankPolicy.assertions } := by
    intro s
    have fetched : ¬ b.errors ≠ [] := not_not.mpr rfl
    unfold System.judge
    simp only [if_neg fetched, if_pos failures]
  rw [verdict] at judged
  refine ⟨_, _, rfl, rfl, fun _ => token, judged, rfl, failures, ?_⟩
  intro safe
  have asserted := (safe.workers ()).asserted bank List.mem_cons_self kept
  simp only [Function.update_self] at asserted
  have same : (bank.failure (((blankApp.loadCached Library.blank (some (1, made.1))).adoptRefreshedTable
      Library.blank (some (2, next.1))).1.filter.matchQuery Library.blank bank.query)) = none := asserted
  rw [same] at broken
  cases broken

end Trench
