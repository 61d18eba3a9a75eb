import Mathlib
import Trench.Resolver.InfraCache

set_option autoImplicit false

/- What each resolution keeps to on every turn: whom it asks and what, how often and by when. -/
namespace Trench.Resolver

open Wire
open Engine.Rcode (noerror nxdomain servfail)
open Coroutine (Task Rules Meets Runs Keeps Steady keeps_modify)

/-- Something was sent. -/
def Reply.left : Reply → Bool
  | .noRoute => false
  | _ => true

/-- How many packets a resolution has sent. -/
def packets (past : List Exchange) : Nat := past.countP fun e => e.2.left

def Asks (q : Request) (qn : Name) : Prop := q.query.questions.map Question.name = [qn]

/-- More of a name than one label below the zone is told only after a reply about less of it: one
label less, unless the reply was no NOERROR. -/
def Discreet (past : List Exchange) (zone qn : Name) : Prop :=
  qn.labels.length ≤ zone.labels.length + 1 ∨
    ∃ q msg less, (q, .message msg) ∈ past ∧ Asks q less ∧ zone.isSubdomainOf q.zone = true ∧
      qn.isSubdomainOf less = true ∧ less.labels.length < qn.labels.length ∧
        (msg.rcode = noerror → qn.labels.length = less.labels.length + 1)

variable (r : Recursive)

/-- A packet goes to a server of the zone, about a name of the zone, within the budget of its question. -/
structure Proper (heard past : List Exchange) (q : Request) : Prop where
  serves : Serves r.rootHints heard q.zone q.ip
  question : ∃ qn, Asks q qn ∧ qn.isSubdomainOf q.zone = true ∧ q.name.isSubdomainOf qn = true ∧
    (r.qmin = true → Discreet past q.zone qn)
  paid : (packets past : Int) < r.maxQueries
  waits : 0 < q.wait ∧ q.wait ≤ r.budget
  timely : ∀ e ∈ past, q.sent + q.wait ≤ e.1.sent + r.budget

def rules : Rules Shared Request Reply where
  inv := Kept r
  ok := Proper r
  inv_mono := Kept.mono
  ok_mono grown proper := ⟨proper.serves.mono grown, proper.question, proper.paid, proper.waits, proper.timely⟩

/-- The job of a question that began by some time, with packets that are counted off but not sent. -/
structure Going (D : ℚ) (c : Nat) (past : List Exchange) (low : Shared) (job : Job) : Prop where
  early : D ≤ r.clock low.readings + r.budget
  deadline : job.deadline = D
  paid : job.queries + c + packets past ≤ r.maxQueries
  since : ∀ e ∈ past, D ≤ e.1.sent + r.budget

/-- The steps keep to the rules, on a job that goes on. -/
abbrev Runs {α : Type} (D : ℚ) (c c' : Nat) (act : Act α) (heard past : List Exchange) (low : Shared)
    (post : List Exchange → List Exchange → α → Prop) : Prop :=
  Coroutine.Runs (rules r) (Going r D c) (Going r D c') act heard past low fun heard past _ a => post heard past a

section

variable {r} {α β : Type} {D : ℚ} {c c' c'' : Nat} {heard past : List Exchange} {low : Shared}
  {post : List Exchange → List Exchange → α → Prop}

theorem steady_going : Steady (Going r D c) := fun _ _ _ _ goes going =>
  ⟨going.early.trans (add_le_add_left (r.steady goes) r.budget), going.deadline, going.paid, going.since⟩

/-- Packets that are counted off and not sent may be left out of the count. -/
theorem Going.fewer {job : Job} (going : Going r D c past low job) (fewer : c' ≤ c) : Going r D c' past low job := by
  refine ⟨going.early, going.deadline, ?_, going.since⟩
  have paid := going.paid
  omega

theorem Runs.bind {post' : List Exchange → List Exchange → β → Prop} {act : Act α} {next : α → Act β}
    (runs : Runs r D c c' act heard past low post)
    (others : ∀ more later s a, heard ⊆ more → past <+: later → low ≤ s → post more later a →
      Runs r D c' c'' (next a) more later s post')
    (raised : c'' ≤ c') : Runs r D c c'' (act >>= next) heard past low post' :=
  Coroutine.Runs.bind runs others fun _ _ _ going => going.fewer raised

theorem Runs.imp {post' : List Exchange → List Exchange → α → Prop} {act : Act α}
    (runs : Runs r D c c' act heard past low post)
    (weaker : ∀ more later a, heard ⊆ more → past <+: later → post more later a → post' more later a) :
    Runs r D c c' act heard past low post' :=
  Coroutine.Runs.imp runs fun more later _ a grown longer _ => weaker more later a grown longer

/-- An operation on what is shared, that keeps what is kept. -/
theorem Runs.atomic {op : StateM Shared α} {found : List Exchange → α → Prop}
    (keeps : ∀ more s, heard ⊆ more → low ≤ s → Kept r more s →
      Keeps (Kept r more) op s fun a _ => found more a) :
    Runs r D c c (.atomic op) heard past low fun heard later a => later = past ∧ found heard a :=
  Coroutine.Runs.atomic steady_going keeps

theorem Runs.given {act : Act α} (runs : D ≤ r.clock low.readings + r.budget →
    Runs r D c c' act heard past low post) : Runs r D c c' act heard past low post :=
  fun job going => runs going.early job going

/-- A packet that is counted off, and counted back where it could not be sent. -/
theorem Runs.send {next : Reply → Act α} {q : Request} (proper : Proper r heard past q)
    (begun : D ≤ q.sent + r.budget)
    (others : ∀ more t, heard ⊆ more → Runs r D (if t.left = true then c else c + 1) c' (next t)
      (more ++ [(q, t)]) (past ++ [(q, t)]) low post) :
    Runs r D (c + 1) c' (.send q >>= next) heard past low post := by
  refine Coroutine.Runs.send (fun _ _ => proper) (fun job t going => ⟨going.early, going.deadline, ?_, ?_⟩) others
  · have paid := going.paid
    rw [packets, List.countP_append, List.countP_singleton, ← packets]
    by_cases left : t.left = true
    · rw [if_pos left, if_pos left]
      push_cast at paid ⊢
      omega
    · rw [if_neg left, if_neg left]
      push_cast at paid ⊢
      omega
  · exact List.forall_mem_append.mpr ⟨going.since, List.forall_mem_singleton.mpr begun⟩

/-! ### Asking -/

/-- What is left of the reply of a server of the zone. -/
def Reliable (r : Recursive) (heard past : List Exchange) (zone qn : Name) (msg : Message) : Prop :=
  ∃ q raw, (q, .message raw) ∈ past ∧ (q, .message raw) ∈ heard ∧ q.zone = zone ∧ Asks q qn ∧
    Serves r.rootHints heard zone q.ip ∧ Scrubbed raw msg zone qn

theorem Discreet.mono {zone qn : Name} {later : List Exchange} (longer : past <+: later)
    (discreet : Discreet past zone qn) : Discreet later zone qn := by
  rcases discreet with short | ⟨q, msg, less, said, rest⟩
  · exact .inl short
  · exact .inr ⟨q, msg, less, longer.subset said, rest⟩

theorem runs_now : Runs r D c c (.atomic r.now) heard past low fun _ later now =>
    later = past ∧ r.clock low.readings ≤ now :=
  .atomic fun _ _ _ goes kept => (keeps_now kept).imp fun _ _ timed => (r.steady goes).trans timed.1

theorem runs_learn (ip : Text) (f : Peer → Peer) :
    Runs r D c c (.atomic (Recursive.learn ip f)) heard past low fun _ later _ => later = past ∧ True :=
  .atomic fun _ _ _ _ kept => keeps_learn ip f kept

theorem runs_peers (f : Dict Text Peer → Dict Text Peer) :
    Runs r D c c (.atomic (modify fun s => { s with peers := f s.peers })) heard past low
      fun _ later _ => later = past ∧ True :=
  .atomic fun _ _ _ _ kept => (keeps_modify (kept.fewer (List.Sublist.refl _) (List.Sublist.refl _) (same_time rfl)) (same_time rfl)).imp
    fun _ _ _ => trivial

theorem runs_spend : Runs r D 0 1 (.modifyJob fun job => { job with queries := job.queries - 1 }) heard past low
    fun _ later _ => later = past := by
  refine .modifyJob fun job going => ⟨going.early, going.deadline, ?_, going.since⟩
  have paid := going.paid
  push_cast at paid ⊢
  omega

theorem runs_refund : Runs r D 1 0 (.modifyJob fun job => { job with queries := job.queries + 1 }) heard past low
    fun _ later _ => later = past := by
  refine .modifyJob fun job going => ⟨going.early, going.deadline, ?_, going.since⟩
  have paid := going.paid
  push_cast at paid ⊢
  omega

theorem runs_askServers {qn zone name : Name} {qtype : RRType} {ips : List Text}
    (serves : ∀ ip ∈ ips, Serves r.rootHints heard zone ip) (inside : qn.isSubdomainOf zone = true)
    (toward : name.isSubdomainOf qn = true) (discreet : r.qmin = true → Discreet past zone qn) :
    Runs r D 0 0 (r.askServers qn qtype zone name ips) heard past low
      fun heard past found => ∀ msg ∈ found, Reliable r heard past zone qn msg := by
  induction ips generalizing heard past low with
  | nil => exact .pure (by rintro _ ⟨⟩)
  | cons ip ips ih =>
      obtain ⟨mine, others⟩ := List.forall_mem_cons.mp serves
      -- the servers that are left, whatever was heard meanwhile
      have next {more later : List Exchange} {s : Shared} (grown : heard ⊆ more) (longer : past <+: later) :
          Runs r D 0 0 (r.askServers qn qtype zone name ips) more later s
            fun heard past found => ∀ msg ∈ found, Reliable r heard past zone qn msg :=
        ih (fun ip held => (others ip held).mono grown) fun on => (discreet on).mono longer
      refine Runs.given fun early => ?_
      rw [Recursive.askServers]
      refine Runs.bind runs_now ?_ le_rfl
      rintro heard₁ _ low₁ now grown₁ - - ⟨rfl, timed⟩
      refine Runs.bind .job ?_ le_rfl
      rintro heard₂ _ low₂ job grown₂ - - ⟨rfl, going⟩
      split
      · exact .pure (by rintro _ ⟨⟩)
      next unspent =>
        rw [Job.spent, decide_eq_true_eq, not_or, not_le, not_le] at unspent
        obtain ⟨some, open_⟩ := unspent
        have paid := going.paid
        refine Runs.bind runs_spend ?_ (Nat.zero_le _)
        rintro heard₃ _ low₃ - grown₃ - - rfl
        refine Runs.bind (runs_peers fun peers => peers.setDefault ip {}) ?_ (Nat.zero_le _)
        rintro heard₄ _ low₄ - grown₄ - - ⟨rfl, -⟩
        dsimp only
        have grown := List.Subset.trans grown₁ (List.Subset.trans grown₂ (List.Subset.trans grown₃ grown₄))
        split
        · exact Runs.weaken (Runs.pure (by rintro _ ⟨⟩)) fun _ going => going.fewer (Nat.zero_le _)
        next waits =>
          have begun : D ≤ now + r.budget := early.trans (add_le_add_left timed r.budget)
          have deadline := going.deadline
          have short : min r.queryTimeout (max 0 (job.deadline - now)) ≤ job.deadline - now :=
            (min_le_right _ _).trans (max_le (by linarith) le_rfl)
          refine Runs.send (c := 0) ⟨mine.mono grown, ⟨qn, rfl, inside, toward, discreet⟩, by omega,
            ⟨not_le.mp waits, by linarith⟩, fun e held => ?_⟩ begun fun more t wider => ?_
          · have since := going.since e held
            change now + min r.queryTimeout (max 0 (job.deadline - now)) ≤ _
            linarith
          have wide := Coroutine.subset_snoc (List.Subset.trans grown wider)
          cases t with
          | noRoute =>
              change Runs r D 1 0 _ _ _ _ _
              refine Runs.bind runs_refund ?_ le_rfl
              rintro heard₅ _ low₅ - grown₅ - - rfl
              refine Runs.bind (runs_learn ip _) ?_ le_rfl
              rintro heard₆ _ low₆ - grown₆ - - ⟨rfl, -⟩
              exact next (List.Subset.trans (wide _) (List.Subset.trans grown₅ grown₆)) (List.prefix_append _ _)
          | failed =>
              change Runs r D 0 0 _ _ _ _ _
              refine Runs.bind (runs_learn ip _) ?_ le_rfl
              rintro heard₅ _ low₅ - grown₅ - - ⟨rfl, -⟩
              exact next (List.Subset.trans (wide _) grown₅) (List.prefix_append _ _)
          | message msg =>
              change Runs r D 0 0 _ _ _ _ _
              refine Runs.bind runs_now ?_ le_rfl
              rintro heard₅ _ low₅ after grown₅ - - ⟨rfl, -⟩
              refine Runs.bind (runs_learn ip _) ?_ le_rfl
              rintro heard₆ _ low₆ - grown₆ - - ⟨rfl, -⟩
              have on := List.Subset.trans (wide _) (List.Subset.trans grown₅ grown₆)
              split
              · refine Runs.bind (runs_learn ip _) ?_ le_rfl
                rintro heard₇ _ low₇ - grown₇ - - ⟨rfl, -⟩
                exact next (List.Subset.trans on grown₇) (List.prefix_append _ _)
              refine Runs.bind .ofExcept ?_ le_rfl
              rintro heard₇ _ low₇ kept grown₇ - - ⟨rfl, scrubbed⟩
              refine Runs.bind .ofExcept ?_ le_rfl
              rintro heard₈ _ low₈ deleg grown₈ - - ⟨rfl, -⟩
              have on := List.Subset.trans on (List.Subset.trans grown₇ grown₈)
              have said : more ++ [_] ⊆ heard₈ :=
                List.Subset.trans grown₅ (List.Subset.trans grown₆ (List.Subset.trans grown₇ grown₈))
              split
              · refine Runs.bind (runs_learn ip _) ?_ le_rfl
                rintro heard₉ _ low₉ - grown₉ - - ⟨rfl, -⟩
                refine .pure ?_
                rintro _ ⟨⟩
                exact ⟨_, msg, List.mem_append_right _ List.mem_cons_self,
                  grown₉ (said (List.mem_append_right _ List.mem_cons_self)), rfl, rfl,
                  mine.mono (List.Subset.trans on grown₉), scrub_spec scrubbed⟩
              · refine Runs.bind (runs_learn ip _) ?_ le_rfl
                rintro heard₉ _ low₉ - grown₉ - - ⟨rfl, -⟩
                exact next (List.Subset.trans on grown₉) (List.prefix_append _ _)

theorem runs_ask {servers : List Text} {qn zone name : Name} {qtype : RRType}
    (serves : ∀ ip ∈ servers, Serves r.rootHints heard zone ip) (inside : qn.isSubdomainOf zone = true)
    (toward : name.isSubdomainOf qn = true) (discreet : r.qmin = true → Discreet past zone qn) :
    Runs r D 0 0 (r.ask servers qn qtype zone name) heard past low
      fun heard past found => ∀ msg ∈ found, Reliable r heard past zone qn msg := by
  have ordered : Runs r D 0 0 (.atomic (r.order servers)) heard past low
      fun _ later ips => later = past ∧ ips ⊆ servers :=
    .atomic fun _ _ _ _ kept => keeps_order servers kept
  rw [Recursive.ask]
  refine Runs.bind ordered ?_ le_rfl
  rintro heard₁ _ low₁ ips grown₁ - - ⟨rfl, some⟩
  exact runs_askServers (fun ip held => (serves ip (some held)).mono grown₁) inside toward discreet

end

end Trench.Resolver
