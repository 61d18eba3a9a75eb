import Mathlib

set_option autoImplicit false

/- Machines that take a step on an event, or none where the event cannot happen, and what
holds along their runs. -/
namespace Machine

/-- An event, with the states on both sides of it. -/
structure Step (σ ε : Type) where
  before : σ
  event : ε
  after : σ

section

variable {σ ε : Type} (step : σ → ε → Option σ)

inductive Run : σ → List (Step σ ε) → Prop where
  | nil (w : σ) : Run w []
  | cons {w w' : σ} {e : ε} {rest : List (Step σ ε)} (taken : step w e = some w') (more : Run w' rest) :
      Run w (⟨w, e, w'⟩ :: rest)

/-- The run of events, up to the first that cannot happen. -/
def follow : σ → List ε → List (Step σ ε)
  | _, [] => []
  | w, e :: events =>
      match step w e with
      | none => []
      | some w' => ⟨w, e, w'⟩ :: follow w' events

theorem run_follow (w : σ) (events : List ε) : Run step w (follow step w events) := by
  induction events generalizing w with
  | nil => exact .nil w
  | cons e events ih =>
      rw [follow]
      split
      · exact .nil w
      · next w' taken => exact .cons taken (ih w')

theorem event_mem_of_follow {w : σ} {events : List ε} {t : Step σ ε} (taken : t ∈ follow step w events) :
    t.event ∈ events := by
  induction events generalizing w with
  | nil => exact absurd taken List.not_mem_nil
  | cons e events ih =>
      rw [follow] at taken
      split at taken
      · exact absurd taken List.not_mem_nil
      · rcases List.mem_cons.mp taken with rfl | later
        · exact List.mem_cons_self
        · exact List.mem_cons_of_mem _ (ih later)

end

/-- An invariant that every fitting step keeps holds along a run of such steps, and with it what
each of them does. -/
theorem Run.invariant {σ ε : Type} {step : σ → ε → Option σ} {inv : σ → Prop} (fits : σ → ε → Prop)
    (does : σ → ε → σ → Prop)
    (keeps : ∀ {w e w'}, inv w → fits w e → step w e = some w' → inv w' ∧ does w e w')
    {w : σ} {steps : List (Step σ ε)} (run : Run step w steps) (start : inv w)
    (fit : ∀ t ∈ steps, fits t.before t.event) :
    ∀ t ∈ steps, inv t.after ∧ does t.before t.event t.after := by
  induction run with
  | nil w => exact fun t taken => absurd taken List.not_mem_nil
  | cons taken more ih =>
      obtain ⟨first, later⟩ := List.forall_mem_cons.mp fit
      obtain ⟨kept, done⟩ := keeps start first taken
      exact List.forall_mem_cons.mpr ⟨⟨kept, done⟩, ih kept later⟩

/-- Where a run goes on, an invariant that every step keeps still holds. -/
theorem Run.rest {σ ε : Type} {step : σ → ε → Option σ} {inv : σ → Prop}
    (keeps : ∀ {w e w'}, inv w → step w e = some w' → inv w') {w : σ} {first more : List (Step σ ε)}
    (run : Run step w (first ++ more)) (start : inv w) : ∃ w', inv w' ∧ Run step w' more := by
  induction first generalizing w with
  | nil => exact ⟨w, start, run⟩
  | cons t first ih =>
      cases run with
      | cons taken rest => exact ih rest (keeps start taken)

theorem Run.first {σ ε : Type} {step : σ → ε → Option σ} {w : σ} {first more : List (Step σ ε)}
    (run : Run step w (first ++ more)) : Run step w first := by
  induction first generalizing w with
  | nil => exact .nil w
  | cons t first ih =>
      cases run with
      | cons taken rest => exact .cons taken (ih rest)

/-- What every step does, each step of a run does. -/
theorem Run.each {σ ε : Type} {step : σ → ε → Option σ} {does : σ → ε → σ → Prop}
    (always : ∀ {w e w'}, step w e = some w' → does w e w') {w : σ} {steps : List (Step σ ε)}
    (run : Run step w steps) : ∀ t ∈ steps, does t.before t.event t.after := by
  induction run with
  | nil w => exact fun t taken => absurd taken List.not_mem_nil
  | cons taken more ih => exact List.forall_mem_cons.mpr ⟨always taken, ih⟩

/-- Where a step leads to a good state exactly when it fits, all steps of a run do exactly when all fit. -/
theorem Run.good_iff {σ ε : Type} {step : σ → ε → Option σ} {inv good : σ → Prop} {fits : σ → ε → Prop}
    (exactly : ∀ {w e w'}, inv w → step w e = some w' → (good w' ↔ fits w e) ∧ (fits w e → inv w'))
    {w : σ} {steps : List (Step σ ε)} (run : Run step w steps) (start : inv w) :
    (∀ t ∈ steps, good t.after) ↔ ∀ t ∈ steps, fits t.before t.event := by
  induction run with
  | nil w => exact iff_of_true (fun t taken => absurd taken List.not_mem_nil) fun t taken => absurd taken List.not_mem_nil
  | cons taken more ih =>
      obtain ⟨here, keeps⟩ := exactly start taken
      rw [List.forall_mem_cons, List.forall_mem_cons, ← here]
      refine and_congr_right fun first => ?_
      exact ih (keeps (here.mp first))

end Machine
