import Mathlib
import Trench.Lib.Coroutine

set_option autoImplicit false

/- The steps of a task as a monad: operations on the shared state, questions, and a value of its own;
an exception ends them. Each has a rule by which the task keeps the rules of all. -/
namespace Coroutine

/-! ### Operations on what is shared -/

section

variable {σ α β : Type} [Preorder σ] {inv : σ → Prop}

/-- What an operation keeps, and what it comes to. -/
structure Keeps (inv : σ → Prop) (op : StateM σ α) (s : σ) (post : α → σ → Prop) : Prop where
  kept : inv (op s).2
  later : s ≤ (op s).2
  post : post (op s).1 (op s).2

variable {op : StateM σ α} {s : σ} {post : α → σ → Prop}

theorem Keeps.bind {next : α → StateM σ β} {post' : β → σ → Prop} (keeps : Keeps inv op s post)
    (others : ∀ a s', s ≤ s' → inv s' → post a s' → Keeps inv (next a) s' post') :
    Keeps inv (op >>= next) s post' := by
  have rest := others (op s).1 (op s).2 keeps.later keeps.kept keeps.post
  exact ⟨rest.kept, keeps.later.trans rest.later, rest.post⟩

theorem Keeps.imp {post' : α → σ → Prop} (keeps : Keeps inv op s post) (weaker : ∀ a s', post a s' → post' a s') :
    Keeps inv op s post' := ⟨keeps.kept, keeps.later, weaker _ _ keeps.post⟩

theorem keeps_pure {a : α} (kept : inv s) (fine : post a s) : Keeps inv (pure a) s post := ⟨kept, le_rfl, fine⟩

theorem keeps_get (kept : inv s) : Keeps inv get s fun a s' => a = s' := ⟨kept, le_rfl, rfl⟩

theorem keeps_modify {f : σ → σ} (kept : inv (f s)) (later : s ≤ f s) :
    Keeps inv (modify f) s fun _ s' => s' = f s := ⟨kept, later, rfl⟩

end

/-! ### Acts -/

/-- Steps with a value of their own, that may end in an exception. -/
def Act (σ ρ τ ω ε α : Type) : Type := ω → Task σ ρ τ (ω × Except ε α)

namespace Act

variable {σ ρ τ ω ε α β : Type}

instance : Monad (Act σ ρ τ ω ε) where
  pure a := fun job => .done (job, .ok a)
  bind act next := fun job => (act job).bind fun out =>
    match out.2 with
    | .ok a => next a out.1
    | .error fault => .done (out.1, .error fault)

/-- All at once: no other task comes between. -/
def atomic (op : StateM σ α) : Act σ ρ τ ω ε α :=
  fun job => .touch (fun s => (op s).2) fun s => .done (job, .ok (op s).1)

def ofExcept (result : Except ε α) : Act σ ρ τ ω ε α := fun job => .done (job, result)

/-- `try`: what was raised is a result. -/
def attempt (act : Act σ ρ τ ω ε α) : Act σ ρ τ ω ε (Except ε α) :=
  fun job => (act job).bind fun out => .done (out.1, .ok out.2)

def send (r : ρ) : Act σ ρ τ ω ε τ := fun job => .ask r fun t => .done (job, .ok t)

def job : Act σ ρ τ ω ε ω := fun job => .done (job, .ok job)

def modifyJob (f : ω → ω) : Act σ ρ τ ω ε Unit := fun job => .done (f job, .ok ())

/-- What is made of the value, and whether it may go on with it. -/
def charge (f : ω → ω × Except ε Unit) : Act σ ρ τ ω ε Unit := fun job => .done (f job)

end Act

section

variable {σ ρ τ ω ε α β : Type} [Preorder σ] (rules : Rules σ ρ τ)

/-- The steps keep the rules. What holds of the task's own value before and after them, also when an
exception ends them, goes along with what it has heard; what they come to is as `post` has it. -/
def Runs (before after : List (ρ × τ) → σ → ω → Prop) (act : Act σ ρ τ ω ε α) (heard past : List (ρ × τ)) (low : σ)
    (post : List (ρ × τ) → List (ρ × τ) → σ → α → Prop) : Prop :=
  ∀ job, before past low job →
    Meets rules (fun heard past low out => after past low out.1 ∧ ∀ a, out.2 = .ok a → post heard past low a) (act job)
      heard past low

/-- What goes along is not lost when the shared state goes on. -/
def Steady (before : List (ρ × τ) → σ → ω → Prop) : Prop :=
  ∀ past low later job, low ≤ later → before past low job → before past later job

variable {rules} {before mid after : List (ρ × τ) → σ → ω → Prop} {heard past : List (ρ × τ)} {low : σ}
  {post : List (ρ × τ) → List (ρ × τ) → σ → α → Prop}

theorem Runs.pure {a : α} (fine : post heard past low a) :
    Runs rules before before (Pure.pure a : Act σ ρ τ ω ε α) heard past low post :=
  fun _ going => ⟨going, by rintro _ ⟨⟩; exact fine⟩

theorem Runs.bind {post' : List (ρ × τ) → List (ρ × τ) → σ → β → Prop} {act : Act σ ρ τ ω ε α}
    {next : α → Act σ ρ τ ω ε β} (runs : Runs rules before mid act heard past low post)
    (others : ∀ more later s a, heard ⊆ more → past <+: later → low ≤ s → post more later s a →
      Runs rules mid after (next a) more later s post')
    (raised : ∀ past low job, mid past low job → after past low job) :
    Runs rules before after (act >>= next) heard past low post' := by
  intro job going
  refine (runs job going).bind fun more later s out grown longer goes ends => ?_
  obtain ⟨job', result⟩ := out
  cases result with
  | error fault => exact ⟨raised _ _ _ ends.1, by rintro _ ⟨⟩⟩
  | ok a => exact others more later s a grown longer goes (ends.2 a rfl) job' ends.1

theorem Runs.imp {post' : List (ρ × τ) → List (ρ × τ) → σ → α → Prop} {act : Act σ ρ τ ω ε α}
    (runs : Runs rules before after act heard past low post)
    (weaker : ∀ more later s a, heard ⊆ more → past <+: later → low ≤ s → post more later s a →
      post' more later s a) :
    Runs rules before after act heard past low post' := by
  refine fun job going => (runs job going).imp fun more later s out grown longer goes ends => ?_
  exact ⟨ends.1, fun a ok => weaker more later s a grown longer goes (ends.2 a ok)⟩

theorem Runs.weaken {act : Act σ ρ τ ω ε α} (runs : Runs rules mid after act heard past low post)
    (weaker : ∀ job, before past low job → mid past low job) : Runs rules before after act heard past low post :=
  fun job going => runs job (weaker job going)

theorem Runs.ofExcept {result : Except ε α} :
    Runs rules before before (.ofExcept result) heard past low fun _ later _ a => later = past ∧ result = .ok a :=
  fun _ going => ⟨going, fun _ ok => ⟨rfl, ok⟩⟩

theorem Runs.attempt {act : Act σ ρ τ ω ε α} (runs : Runs rules before after act heard past low post) :
    Runs rules before after act.attempt heard past low
      fun heard past low result => ∀ a, result = .ok a → post heard past low a := by
  refine fun job going => (runs job going).bind fun more later s out _ _ _ ends => ?_
  exact ⟨ends.1, by rintro _ ⟨⟩; exact ends.2⟩

theorem Runs.job : Runs rules before before (.job : Act σ ρ τ ω ε ω) heard past low
    fun _ later _ job => later = past ∧ before past low job :=
  fun _ going => ⟨going, by rintro _ ⟨⟩; exact ⟨rfl, going⟩⟩

theorem Runs.modifyJob {f : ω → ω} (keeps : ∀ job, before past low job → after past low (f job)) :
    Runs rules before after (.modifyJob f : Act σ ρ τ ω ε Unit) heard past low fun _ later _ _ => later = past :=
  fun job going => ⟨keeps job going, fun _ _ => rfl⟩

theorem Runs.charge {f : ω → ω × Except ε Unit} (keeps : ∀ job, before past low job → after past low (f job).1) :
    Runs rules before after (.charge f : Act σ ρ τ ω ε Unit) heard past low fun _ later _ _ => later = past :=
  fun job going => ⟨keeps job going, fun _ _ => rfl⟩

/-- An operation on what is shared, that keeps what is kept. -/
theorem Runs.atomic (steady : Steady before) {op : StateM σ α} {found : List (ρ × τ) → σ → α → Prop}
    (keeps : ∀ more s, heard ⊆ more → low ≤ s → rules.inv more s →
      Keeps (rules.inv more) op s fun a s' => found more s' a) :
    Runs rules before before (.atomic op : Act σ ρ τ ω ε α) heard past low
      fun heard later low a => later = past ∧ found heard low a := by
  intro job going more s grown goes kept
  have done := keeps more s grown goes kept
  exact ⟨done.kept, done.later, steady _ _ _ _ (goes.trans done.later) going, by rintro _ ⟨⟩; exact ⟨rfl, done.post⟩⟩

/-- A question, by the rules and by what goes along. -/
theorem Runs.send {next : τ → Act σ ρ τ ω ε α} {q : ρ} {answered : τ → List (ρ × τ) → σ → ω → Prop}
    (ok : ∀ job, before past low job → rules.ok heard past q)
    (goes : ∀ job t, before past low job → answered t (past ++ [(q, t)]) low job)
    (others : ∀ more t, heard ⊆ more →
      Runs rules (answered t) after (next t) (more ++ [(q, t)]) (past ++ [(q, t)]) low post) :
    Runs rules before after (.send q >>= next) heard past low post :=
  fun job going => ⟨ok job going, fun more t grown => others more t grown job (goes job t going)⟩

end

end Coroutine
