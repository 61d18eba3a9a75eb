import Mathlib

set_option autoImplicit false

/- Tasks that share a state and wait for the replies to what they ask. Between a question and its
reply the other tasks take their turns. A task is checked by itself, against a shared state that
may change in any way that keeps an invariant; what is checked so holds in every order of turns. -/
namespace Coroutine

inductive Task (σ ρ τ α : Type) where
  | done (a : α)
  /-- Changes the shared state, and goes on with what it was. -/
  | touch (f : σ → σ) (k : σ → Task σ ρ τ α)
  | ask (r : ρ) (k : τ → Task σ ρ τ α)

def Task.bind {σ ρ τ α β : Type} : Task σ ρ τ α → (α → Task σ ρ τ β) → Task σ ρ τ β
  | .done a, f => f a
  | .touch g k, f => .touch g fun s => (k s).bind f
  | .ask r k, f => .ask r fun t => (k t).bind f

/-! ### Rules -/

/-- What the shared state keeps, and what may be asked, by all that has been
heard and by what the task has heard itself. Nothing of this is lost when more is heard. -/
structure Rules (σ ρ τ : Type) where
  inv : List (ρ × τ) → σ → Prop
  ok : List (ρ × τ) → List (ρ × τ) → ρ → Prop
  inv_mono : ∀ {heard more s}, heard ⊆ more → inv heard s → inv more s
  ok_mono : ∀ {heard more past r}, heard ⊆ more → ok heard past r → ok more past r

section

variable {σ ρ τ α β : Type} [Preorder σ] (rules : Rules σ ρ τ)

/-- The task keeps the rules and ends as `post` has it, whatever the others do by the rules. What it
has heard, and the shared state as it was seen last, go along. -/
def Meets (post : List (ρ × τ) → List (ρ × τ) → σ → α → Prop) :
    Task σ ρ τ α → List (ρ × τ) → List (ρ × τ) → σ → Prop
  | .done a, heard, past, low => post heard past low a
  | .touch f k, heard, past, low => ∀ more s, heard ⊆ more → low ≤ s → rules.inv more s →
      rules.inv more (f s) ∧ s ≤ f s ∧ Meets post (k s) more past (f s)
  | .ask r k, heard, past, low => rules.ok heard past r ∧ ∀ more t, heard ⊆ more →
      Meets post (k t) (more ++ [(r, t)]) (past ++ [(r, t)]) low

/-- What holds at the end is not lost when more is heard and the shared state goes on. -/
def Stable (post : List (ρ × τ) → List (ρ × τ) → σ → α → Prop) : Prop :=
  ∀ heard more past low later a, heard ⊆ more → low ≤ later → post heard past low a →
    post more past later a

variable {rules} {post : List (ρ × τ) → List (ρ × τ) → σ → α → Prop} {task : Task σ ρ τ α}
  {heard past : List (ρ × τ)} {low : σ}

theorem subset_snoc {more : List (ρ × τ)} (grown : heard ⊆ more) (e : ρ × τ) : heard ⊆ more ++ [e] :=
  List.Subset.trans grown (List.subset_append_left _ _)

theorem Meets.mono (stable : Stable post) {more : List (ρ × τ)} {later : σ}
    (meets : Meets rules post task heard past low) (grown : heard ⊆ more) (goes : low ≤ later) :
    Meets rules post task more past later := by
  induction task generalizing heard more past low later with
  | done a => exact stable _ _ _ _ _ _ grown goes meets
  | touch f k ih =>
      exact fun wide s wider further => meets wide s (List.Subset.trans grown wider) (goes.trans further)
  | ask r k ih =>
      refine ⟨rules.ok_mono grown meets.1, fun wide t wider => ?_⟩
      exact ih t (meets.2 wide t (List.Subset.trans grown wider)) (List.Subset.refl _) goes

/-- One task after the other. -/
theorem Meets.bind {post' : List (ρ × τ) → List (ρ × τ) → σ → β → Prop} {next : α → Task σ ρ τ β}
    (meets : Meets rules post task heard past low)
    (others : ∀ more later s a, heard ⊆ more → past <+: later → low ≤ s → post more later s a →
      Meets rules post' (next a) more later s) :
    Meets rules post' (task.bind next) heard past low := by
  induction task generalizing heard past low with
  | done a => exact others heard past low a (List.Subset.refl _) List.prefix_rfl le_rfl meets
  | touch f k ih =>
      intro more s grown goes kept
      obtain ⟨here, moved, rest⟩ := meets more s grown goes kept
      refine ⟨here, moved, ih s rest fun wide later t a wider longer further => ?_⟩
      exact others wide later t a (List.Subset.trans grown wider) longer
        (goes.trans (moved.trans further))
  | ask r k ih =>
      refine ⟨meets.1, fun more t grown => ih t (meets.2 more t grown) fun wide later s a wider longer further => ?_⟩
      exact others wide later s a (List.Subset.trans (subset_snoc grown _) wider)
        ((List.prefix_append past _).trans longer) further

/-- What holds at the end may be weakened. -/
theorem Meets.imp {post' : List (ρ × τ) → List (ρ × τ) → σ → α → Prop} (meets : Meets rules post task heard past low)
    (weaker : ∀ more later s a, heard ⊆ more → past <+: later → low ≤ s → post more later s a →
      post' more later s a) : Meets rules post' task heard past low := by
  have same : task.bind .done = task := by
    clear meets weaker
    induction task with
    | done a => rfl
    | touch f k ih => exact congrArg (Task.touch f) (funext ih)
    | ask r k ih => exact congrArg (Task.ask r) (funext ih)
  rw [← same]
  exact meets.bind weaker

end

/-! ### Turns -/

/-- A task with what it has heard so far; one that is cancelled goes on with nothing. -/
structure Slot (σ ρ τ α : Type) where
  past : List (ρ × τ) := []
  now : Option (Task σ ρ τ α)

/-- The tasks with the state they share, and all that they have heard. -/
structure Pool (σ ρ τ α : Type) where
  shared : σ
  heard : List (ρ × τ) := []
  slots : List (Slot σ ρ τ α) := []

inductive Event (κ τ : Type) where
  | starts (q : κ)
  | replies (i : Nat) (t : τ)
  | cancels (i : Nat)

section

variable {σ ρ τ α κ : Type}

/-- A turn: the task runs up to its next question, or to its end. -/
def settle : Task σ ρ τ α → σ → Task σ ρ τ α × σ
  | .done a, s => (.done a, s)
  | .touch f k, s => settle (k s) (f s)
  | .ask r k, s => (.ask r k, s)

variable (spawn : κ → Task σ ρ τ α)

def step (p : Pool σ ρ τ α) : Event κ τ → Option (Pool σ ρ τ α)
  | .starts q =>
      let (now, shared) := settle (spawn q) p.shared
      some { p with shared, slots := p.slots ++ [{ now := some now }] }
  | .replies i t =>
      match p.slots[i]? with
      | some ⟨past, some (.ask r k)⟩ =>
          let (now, shared) := settle (k t) p.shared
          some {
            shared
            heard := p.heard ++ [(r, t)]
            slots := p.slots.set i ⟨past ++ [(r, t)], some now⟩ }
      | _ => none
  | .cancels i => p.slots[i]?.map fun slot => { p with slots := p.slots.set i { slot with now := none } }

/-- The pool after the events; one that cannot happen changes nothing. -/
def run (p : Pool σ ρ τ α) (events : List (Event κ τ)) : Pool σ ρ τ α :=
  events.foldl (fun p e => (step spawn p e).getD p) p

end

/-! ### Every order of turns -/

section

variable {σ ρ τ α κ : Type} [Preorder σ] (rules : Rules σ ρ τ) (post : List (ρ × τ) → List (ρ × τ) → σ → α → Prop)

/-- What the task asked, with all that it had heard itself by then. -/
def Slot.Asked (slot : Slot σ ρ τ α) (before : List (ρ × τ)) (r : ρ) : Prop :=
  (∃ t after, slot.past = before ++ (r, t) :: after) ∨ (before = slot.past ∧ ∃ k, slot.now = some (.ask r k))

/-- What any of the tasks asked, with all that was heard before it was answered. -/
def Pool.Asked (p : Pool σ ρ τ α) (before : List (ρ × τ)) (r : ρ) : Prop :=
  (∃ t after, p.heard = before ++ (r, t) :: after) ∨
    (before = p.heard ∧ ∃ slot ∈ p.slots, ∃ k, slot.now = some (.ask r k))

/-- All that the task asked was asked by the rules, and it goes on by them. -/
structure Slot.Sound (heard : List (ρ × τ)) (s : σ) (slot : Slot σ ρ τ α) : Prop where
  past : ∀ before r t after, slot.past = before ++ (r, t) :: after → rules.ok heard before r
  now : ∀ task ∈ slot.now, Meets rules post task heard slot.past s

structure Pool.Sound (p : Pool σ ρ τ α) : Prop where
  inv : rules.inv p.heard p.shared
  slots : ∀ slot ∈ p.slots, slot.Sound rules post p.heard p.shared
  heard : ∀ before r t after, p.heard = before ++ (r, t) :: after → ∃ past, rules.ok before past r

variable {rules} {post}

theorem settle_sound {task : Task σ ρ τ α} {s : σ} {heard past : List (ρ × τ)}
    (meets : Meets rules post task heard past s) (kept : rules.inv heard s) :
    rules.inv heard (settle task s).2 ∧ s ≤ (settle task s).2 ∧
      Meets rules post (settle task s).1 heard past (settle task s).2 := by
  induction task generalizing s with
  | done a => exact ⟨kept, le_rfl, meets⟩
  | touch f k ih =>
      obtain ⟨here, moved, rest⟩ := meets heard s (List.Subset.refl _) le_rfl kept
      obtain ⟨there, further, ends⟩ := ih s rest here
      exact ⟨there, moved.trans further, ends⟩
  | ask r k _ => exact ⟨kept, le_rfl, meets⟩

theorem Slot.Sound.mono (stable : Stable post) {slot : Slot σ ρ τ α} {heard more : List (ρ × τ)} {s s' : σ}
    (sound : slot.Sound rules post heard s) (grown : heard ⊆ more) (goes : s ≤ s') :
    slot.Sound rules post more s' where
  past before r t after same := rules.ok_mono grown (sound.past before r t after same)
  now task there := (sound.now task there).mono stable grown goes

/-- What holds of each exchange with those before it, where one more has just ended. -/
theorem each_snoc {p : List (ρ × τ) → ρ → Prop} {past : List (ρ × τ)} {r : ρ} {t : τ}
    (each : ∀ before r t after, past = before ++ (r, t) :: after → p before r) (last : p past r)
    (before : List (ρ × τ)) (r' : ρ) (t' : τ) (after : List (ρ × τ))
    (same : past ++ [(r, t)] = before ++ (r', t') :: after) : p before r' := by
  rcases List.eq_nil_or_concat after with rfl | ⟨front, last', rfl⟩
  · obtain ⟨rfl, pair⟩ := List.append_singleton_inj.mp same
    obtain ⟨rfl, -⟩ := Prod.mk.inj pair
    exact last
  · rw [List.concat_eq_append, ← List.cons_append, ← List.append_assoc] at same
    exact each before r' t' front (List.append_singleton_inj.mp same).1

theorem Slot.Sound.asked {slot : Slot σ ρ τ α} {heard before : List (ρ × τ)} {s : σ} {r : ρ}
    (sound : slot.Sound rules post heard s) (asked : slot.Asked before r) : rules.ok heard before r := by
  rcases asked with ⟨t, after, same⟩ | ⟨rfl, k, now⟩
  · exact sound.past before r t after same
  · exact (sound.now _ now).1

theorem Pool.Sound.asked {p : Pool σ ρ τ α} {before : List (ρ × τ)} {r : ρ} (sound : p.Sound rules post)
    (asked : p.Asked before r) : ∃ past, rules.ok before past r := by
  rcases asked with ⟨t, after, same⟩ | ⟨rfl, slot, held, k, now⟩
  · exact sound.heard before r t after same
  · exact ⟨slot.past, ((sound.slots slot held).now _ now).1⟩

theorem Pool.Sound.done {p : Pool σ ρ τ α} {slot : Slot σ ρ τ α} {a : α} (sound : p.Sound rules post)
    (held : slot ∈ p.slots) (done : slot.now = some (.done a)) : post p.heard slot.past p.shared a :=
  (sound.slots slot held).now _ done

variable {spawn : κ → Task σ ρ τ α}

/-- One turn keeps the rules. -/
theorem Pool.Sound.step (stable : Stable post) (begins : ∀ q heard s, Meets rules post (spawn q) heard [] s)
    {p p' : Pool σ ρ τ α} {e : Event κ τ} (sound : p.Sound rules post) (taken : step spawn p e = some p') :
    p'.Sound rules post := by
  cases e with
  | starts q =>
      obtain rfl := Option.some.inj taken
      obtain ⟨kept, goes, rest⟩ := settle_sound (begins q p.heard p.shared) sound.inv
      refine ⟨kept, fun slot held => ?_, sound.heard⟩
      rcases List.mem_append.mp held with held | held
      · exact (sound.slots slot held).mono stable (List.Subset.refl _) goes
      · obtain rfl := List.mem_singleton.mp held
        exact ⟨fun before r t after same => by simp at same, by rintro _ ⟨⟩; exact rest⟩
  | replies i t =>
      rw [Coroutine.step] at taken
      split at taken
      · next past r k there =>
          obtain rfl := Option.some.inj taken
          have mine := sound.slots _ (List.mem_of_getElem? there)
          obtain ⟨ok, goes⟩ := mine.now _ rfl
          have grown : p.heard ⊆ p.heard ++ [(r, t)] := List.subset_append_left _ _
          obtain ⟨kept, moved, rest⟩ :=
            settle_sound (goes p.heard t (List.Subset.refl _)) (rules.inv_mono grown sound.inv)
          refine ⟨kept, fun slot held => ?_, each_snoc sound.heard ⟨past, ok⟩⟩
          rcases List.mem_or_eq_of_mem_set held with held | rfl
          · exact (sound.slots slot held).mono stable grown moved
          · refine ⟨each_snoc (fun before r t after same => ?_) (rules.ok_mono grown ok), by rintro _ ⟨⟩; exact rest⟩
            exact rules.ok_mono grown (mine.past before r t after same)
      · cases taken
  | cancels i =>
      obtain ⟨slot, there, rfl⟩ := Option.map_eq_some_iff.mp taken
      refine ⟨sound.inv, fun other held => ?_, sound.heard⟩
      rcases List.mem_or_eq_of_mem_set held with held | rfl
      · exact sound.slots other held
      · exact ⟨(sound.slots slot (List.mem_of_getElem? there)).past, by rintro _ ⟨⟩⟩

/-- Tasks that keep the rules by themselves keep them together, in every order of their turns. -/
theorem Pool.Sound.run (stable : Stable post) (begins : ∀ q heard s, Meets rules post (spawn q) heard [] s)
    {p : Pool σ ρ τ α} (sound : p.Sound rules post) (events : List (Event κ τ)) :
    (Coroutine.run spawn p events).Sound rules post := by
  induction events generalizing p with
  | nil => exact sound
  | cons e events ih =>
      have next : ((Coroutine.step spawn p e).getD p).Sound rules post := by
        cases taken : Coroutine.step spawn p e with
        | none => exact sound
        | some p' => exact sound.step stable begins taken
      exact ih next

end

end Coroutine
