import Mathlib
import Trench.Engine.Coalesce
import Trench.Lib.Machine

set_option autoImplicit false

/- At most one upstream query for a question, an answer for everyone who waits for it, and no
message that two of them could edit. -/
namespace Trench.Engine.Coalesce

open Wire
open Cache (CacheKey Kind build buildEdns detach view reach build_spec view_build grows_build
  grows_buildEdns view_of_grows view_congr)

variable {ε : Type}

/-! ### What is read -/

def Handed.read (memory : Cache.Memory) : Handed → Answer
  | .resp r => .resp (view memory r)
  | .block b => .block b

/-- What a client that was not cancelled can get. -/
inductive Shared (ε : Type) where
  | answer (a : Answer)
  | raised (e : Fault ε)

def Future.reads (memory : Cache.Memory) : Future ε → Option (Shared ε)
  | .waiting => none
  | .result a => some (.answer (a.read memory))
  | .failed e => some (.raised e)

def Outcome.reads (memory : Cache.Memory) : Outcome ε → Option (Shared ε)
  | .answer a => some (.answer (a.read memory))
  | .raised e => some (.raised e)
  | .cancelled => none

/-- What those who wait for a fetch are to get. -/
def Ended.shared : Ended ε → Shared ε
  | .answer a => .answer a
  | .raised e => .raised (.raised e)
  | .cancelled => .raised (.upstreamError "upstream query cancelled".toList)

/-- Nobody reaches what another holds. -/
structure Apart {ι : Type} (memory : Cache.Memory) (holds : ι → Option Nat) : Prop where
  old : ∀ i r, holds i = some r → ∀ c ∈ reach memory r, c < memory.next
  apart : ∀ i j r r', i ≠ j → holds i = some r → holds j = some r' →
    ∀ c ∈ reach memory r, c ∉ reach memory r'

/-- Memory with a message more, all of whose cells are new, or with none. -/
structure Fresh (memory memory' : Cache.Memory) (object : Option Nat) : Prop where
  grows : memory.Grows memory'
  new : ∀ r, object = some r → ∀ c ∈ reach memory' r, memory.next ≤ c ∧ c < memory'.next

/-! ### Messages that nobody shares -/

section

variable {ι : Type} {memory memory' : Cache.Memory} {holds holds' : ι → Option Nat}

theorem Apart.put (apart : Apart memory holds) {i : ι} {object : Option Nat}
    (fresh : Fresh memory memory' object) (here : holds' i = object)
    (others : ∀ j, j ≠ i → holds' j = holds j) : Apart memory' holds' := by
  have kept {j : ι} {r : Nat} (held : holds j = some r) : reach memory' r = reach memory r :=
    (view_of_grows fresh.grows (apart.old j r held)).2
  constructor
  · intro j r held c reached
    by_cases same : j = i
    · rw [same, here] at held
      exact (fresh.new r held c reached).2
    · rw [others j same] at held
      rw [kept held] at reached
      exact (apart.old j r held c reached).trans_le fresh.grows.next
  · intro j k r r' differ held held' c reached reached'
    by_cases first : j = i
    · have second : k ≠ i := fun same => differ (first.trans same.symm)
      rw [first, here] at held
      rw [others k second] at held'
      rw [kept held'] at reached'
      have new := (fresh.new r held c reached).1
      have old := apart.old k r' held' c reached'
      omega
    · rw [others j first] at held
      rw [kept held] at reached
      by_cases second : k = i
      · rw [second, here] at held'
        have new := (fresh.new r' held' c reached').1
        have old := apart.old j r held c reached
        omega
      · rw [others k second] at held'
        rw [kept held'] at reached'
        exact apart.apart j k r r' differ held held' c reached reached'

theorem Apart.mono (apart : Apart memory holds) (fewer : ∀ i r, holds' i = some r → holds i = some r) :
    Apart memory holds' :=
  ⟨fun i r held => apart.old i r (fewer i r held), fun i j r r' differ held held' =>
    apart.apart i j r r' differ (fewer i r held) (fewer j r' held')⟩

/-- Who edits what it holds leaves the others what they have. -/
theorem Apart.edit (apart : Apart memory holds) {i : ι} {r : Nat} (held : holds i = some r)
    (next : memory.next ≤ memory'.next)
    (same : ∀ c, c < memory.next → c ∉ reach memory r → ∀ k, memory'.cell k c = memory.cell k c)
    (inside : ∀ c ∈ reach memory' r, c ∈ reach memory r ∨ memory.next ≤ c ∧ c < memory'.next) :
    Apart memory' holds ∧ ∀ j r', j ≠ i → holds j = some r' → view memory' r' = view memory r' := by
  have kept {j : ι} {r' : Nat} (other : j ≠ i) (held' : holds j = some r') :
      view memory' r' = view memory r' ∧ reach memory' r' = reach memory r' :=
    view_congr fun c reached k => same c (apart.old j r' held' c reached)
      (apart.apart j i r' r other held' held c reached) k
  have away {j : ι} {r' : Nat} (other : j ≠ i) (held' : holds j = some r') {c : Nat}
      (mine : c ∈ reach memory' r) : c ∉ reach memory r' := by
    intro reached
    rcases inside c mine with before | new
    · exact apart.apart j i r' r other held' held c reached before
    · have old := apart.old j r' held' c reached
      omega
  refine ⟨⟨?_, ?_⟩, fun j r' other held' => (kept other held').1⟩
  · intro j r' held' c reached
    by_cases mine : j = i
    · rw [mine, held] at held'
      cases held'
      rcases inside c reached with before | new
      · exact (apart.old i r held c before).trans_le next
      · exact new.2
    · rw [(kept mine held').2] at reached
      exact (apart.old j r' held' c reached).trans_le next
  · intro j k r₁ r₂ differ held₁ held₂ c reached₁ reached₂
    by_cases first : j = i
    · have second : k ≠ i := fun same => differ (first.trans same.symm)
      rw [first, held] at held₁
      cases held₁
      rw [(kept second held₂).2] at reached₂
      exact away second held₂ reached₁ reached₂
    · rw [(kept first held₁).2] at reached₁
      by_cases second : k = i
      · rw [second, held] at held₂
        cases held₂
        exact away first held₁ reached₂ reached₁
      · rw [(kept second held₂).2] at reached₂
        exact apart.apart j k r₁ r₂ differ held₁ held₂ c reached₁ reached₂

end

section

variable {memory memory' : Cache.Memory}

theorem fresh_none (memory : Cache.Memory) : Fresh memory memory none := ⟨.refl memory, nofun⟩

theorem fresh_build (memory : Cache.Memory) (m : Message) :
    Fresh memory (build memory m).1 (some (build memory m).2) := by
  refine ⟨grows_build memory m, ?_⟩
  rintro r ⟨⟩
  exact (build_spec memory m).2

theorem detached_spec (memory : Cache.Memory) (a : Handed) :
    Fresh memory (detached memory a).1 (detached memory a).2.object ∧
      (detached memory a).2.read (detached memory a).1 = a.read memory := by
  cases a with
  | resp r => exact ⟨fresh_build memory (view memory r), congrArg Answer.resp (view_build _ _)⟩
  | block b => exact ⟨fresh_none memory, rfl⟩

/-- What a fetch returns is new, and reads as it was made. -/
theorem handed_spec (memory : Cache.Memory) (how : Ended ε) :
    Fresh memory (handed memory how).1 (handed memory how).2.object ∧
      ((handed memory how).2.reads (handed memory how).1 = some how.shared ∨
        how = .cancelled ∧ (handed memory how).2 = .cancelled) := by
  cases how with
  | answer a =>
      cases a with
      | resp m =>
          exact ⟨fresh_build memory m, .inl (congrArg (fun m => some (Shared.answer (.resp m))) (view_build _ _))⟩
      | block b => exact ⟨fresh_none memory, .inl rfl⟩
  | raised e => exact ⟨fresh_none memory, .inl rfl⟩
  | cancelled => exact ⟨fresh_none memory, .inr ⟨rfl, rfl⟩⟩

/-- The followers are told the same, of a copy. -/
theorem told_spec (memory : Cache.Memory) (outcome : Outcome ε) :
    Fresh memory (told memory outcome).1 (told memory outcome).2.object ∧
      (told memory outcome).2.done = true ∧
      (told memory outcome).2.reads (told memory outcome).1 =
        some ((outcome.reads memory).getD (Ended.shared .cancelled)) := by
  cases outcome with
  | answer a =>
      obtain ⟨fresh, read⟩ := detached_spec memory a
      exact ⟨fresh, rfl, congrArg (fun a => some (Shared.answer a)) read⟩
  | raised e => exact ⟨fresh_none memory, rfl, rfl⟩
  | cancelled => exact ⟨fresh_none memory, rfl, rfl⟩

end

/-- What was handed out reads the same while memory grows. -/
theorem outcome_reads_grows {memory memory' memory'' : Cache.Memory} {outcome : Outcome ε}
    (fresh : Fresh memory memory' outcome.object) (grows : memory'.Grows memory'') :
    outcome.reads memory'' = outcome.reads memory' := by
  cases outcome with
  | raised e => rfl
  | cancelled => rfl
  | answer a =>
      cases a with
      | block b => rfl
      | resp r =>
          have same := (view_of_grows grows fun c reached => (fresh.new r rfl c reached).2).1
          exact congrArg (fun m => some (Shared.answer (.resp m))) same

/-! ### Edits -/

theorem pointers_set {memory : Cache.Memory} {k : Kind} {cell : Nat} {v : k.Value}
    (same : pointers k v = pointers k (memory.cell k cell)) (k' : Kind) (c : Nat) :
    pointers k' ((memory.set k cell v).cell k' c) = pointers k' (memory.cell k' c) := by
  by_cases here : k = k' ∧ c = cell
  · obtain ⟨rfl, rfl⟩ := here
    rw [Heap.cell_set_self, same]
  · rw [Heap.set]
    dsimp only
    rw [dif_neg here]

/-- What a message reaches depends on the references alone. -/
theorem reach_congr {memory memory' : Cache.Memory}
    (same : ∀ k c, pointers k (memory'.cell k c) = pointers k (memory.cell k c)) (r : Nat) :
    reach memory' r = reach memory r := by
  have own := same .message r
  simp only [pointers, List.cons_append, List.nil_append, List.cons.injEq] at own
  obtain ⟨questions, answers, authority, additional, edns⟩ := own
  have opt : (memory'.cell .message r).edns = (memory.cell .message r).edns := by
    cases h : (memory'.cell .message r).edns <;> cases h' : (memory.cell .message r).edns <;>
      simp_all
  rw [reach, reach, questions, answers, authority, additional, opt]
  cases (memory.cell .message r).edns with
  | none => rfl
  | some e =>
      have options := same .edns e
      simp only [pointers, List.cons.injEq, and_true] at options
      rw [Option.elim_some, Option.elim_some, Cache.reachEdns, Cache.reachEdns, options]

theorem buildEdns_new (memory : Cache.Memory) (edns : Option Edns) :
    ∀ e, (buildEdns memory edns).2 = some e → ∀ c ∈ Cache.reachEdns (buildEdns memory edns).1 e,
      memory.next ≤ c ∧ c < (buildEdns memory edns).1.next := by
  cases edns with
  | none => exact nofun
  | some edns =>
      rintro e ⟨⟩ c reached
      simp [Cache.reachEdns, buildEdns, Heap.alloc, Heap.set] at reached ⊢
      omega

/-! ### The state of the loop -/

namespace Loop

/-- The task's own fetch is running. -/
def Fetches (w : Loop ε) (c : Nat) (t : Task ε) : Prop :=
  w.tasks c = some t ∧ (∀ leader, t.role ≠ .follows leader) ∧ t.outcome = none

/-- What holds of every state. -/
structure Coalesces (w : Loop ε) : Prop where
  single : ∀ c c' t t' key, w.Fetches c t → w.Fetches c' t' → t.key = some key → t'.key = some key → c = c'
  held : ∀ key c, w.inflight.get? key = some c → ∃ t, w.Fetches c t ∧ t.key = some key
  woken : ∀ c t leader, w.tasks c = some t → t.role = .follows leader → t.outcome = none →
    (∃ t', w.Fetches leader t' ∧ t'.key = t.key) ∨ (w.step (.resumes c)).isSome
  apart : ∀ c c' r r', c ≠ c' → w.holds (.inl c) = some r → w.holds (.inl c') = some r' →
    ∀ cell ∈ reach w.memory r, cell ∉ reach w.memory r'

/-- What holds of every event: who followed gets what the fetch came to, who led its own. -/
structure Shares (w : Loop ε) (e : Event ε) (w' : Loop ε) : Prop where
  joined : ∀ c t leader t', e = .resumes c → w.tasks c = some t → t.role = .follows leader →
    t.cancelled = false → w'.tasks c = some t' → ∃ fetch how outcome, w.tasks leader = some fetch ∧
      fetch.key = t.key ∧ fetch.ended = some how ∧ t'.outcome = some outcome ∧
      outcome.reads w'.memory = some how.shared
  led : ∀ c how t', e = .ends c how → w'.tasks c = some t' → t'.ended = some how ∧
    ∃ outcome, t'.outcome = some outcome ∧ (outcome.reads w'.memory = some how.shared ∨
      how = .cancelled ∧ outcome = .cancelled)
  kept : ∀ c t outcome, w.tasks c = some t → t.outcome = some outcome → ∃ t', w'.tasks c = some t' ∧
    t'.outcome = some outcome

structure Sound (w : Loop ε) : Prop where
  apart : Apart w.memory w.holds
  table : ∀ key c, w.inflight.get? key = some c → ∃ t, w.tasks c = some t ∧ t.role = .leads ∧
    t.key = some key ∧ t.ended = none
  running : ∀ c t, w.tasks c = some t → t.role = .leads → t.ended = none → t.outcome = none ∧
    w.futures c = .waiting ∧ ∃ key, t.key = some key ∧ w.inflight.get? key = some c
  told : ∀ c t how, w.tasks c = some t → t.role = .leads → t.ended = some how →
    (w.futures c).reads w.memory = some how.shared ∧ t.outcome ≠ none
  follows : ∀ c t leader, w.tasks c = some t → t.role = .follows leader →
    ∃ fetch, w.tasks leader = some fetch ∧ fetch.role = .leads ∧ fetch.key = t.key
  alone : ∀ c t, w.tasks c = some t → t.role = .alone → t.key = none

theorem holds_initial (i : Nat ⊕ Nat) : (initial : Loop ε).holds i = none := by cases i <;> rfl

theorem sound_initial : Sound (initial : Loop ε) where
  apart := by
    refine ⟨fun i r held => ?_, fun i j r r' _ held => ?_⟩
    · rw [holds_initial] at held
      cases held
    · rw [holds_initial] at held
      cases held
  table _ _ held := by cases held
  running _ _ held := by cases held
  told _ _ _ held := by cases held
  follows _ _ _ held := by cases held
  alone _ _ held := by cases held

section

variable {w w' : Loop ε}

theorem not_done {f : Future ε} : f.done = false ↔ f = .waiting := by cases f <;> simp [Future.done]

/-- Running fetches under one key are one. -/
theorem Sound.coalesces (sound : Sound w) : Coalesces w := by
  have leads {c : Nat} {t : Task ε} (fetches : w.Fetches c t) {key : CacheKey} (named : t.key = some key) :
      w.inflight.get? key = some c := by
    obtain ⟨found, notFollowing, unfinished⟩ := fetches
    cases role : t.role with
    | follows leader => exact absurd role (notFollowing leader)
    | alone =>
        rw [sound.alone c t found role] at named
        cases named
    | leads =>
        cases ended : t.ended with
        | some how => exact absurd unfinished (sound.told c t how found role ended).2
        | none =>
            obtain ⟨-, -, key', named', held⟩ := sound.running c t found role ended
            rw [named] at named'
            cases named'
            exact held
  have fetches {c : Nat} {t : Task ε} (found : w.tasks c = some t) (role : t.role = .leads)
      (ended : t.ended = none) : w.Fetches c t := by
    refine ⟨found, fun leader follows => ?_, (sound.running c t found role ended).1⟩
    rw [role] at follows
    cases follows
  constructor
  · intro c c' t t' key first second named named'
    exact Option.some.inj ((leads first named).symm.trans (leads second named'))
  · intro key c held
    obtain ⟨t, found, role, named, ended⟩ := sound.table key c held
    exact ⟨t, fetches found role ended, named⟩
  · intro c t leader found role unfinished
    obtain ⟨fetch, there, leading, same⟩ := sound.follows c t leader found role
    cases ended : fetch.ended with
    | none => exact .inl ⟨fetch, fetches there leading ended, same⟩
    | some how =>
        right
        have reads := (sound.told leader fetch how there leading ended).1
        rw [step, found]
        simp only [Option.bind_eq_bind, Option.bind_some, role, unfinished, Option.isNone_none,
          ↓reduceIte, resumes]
        split
        · rfl
        · split
          · next waiting =>
              rw [waiting] at reads
              cases reads
          · rfl
          · rfl
  · intro c c' r r' differ held held'
    exact sound.apart.apart _ _ r r' (fun same => differ (Sum.inl.inj same)) held held'

/-! ### Tasks that change -/

theorem holds_setTask (w : Loop ε) (memory : Cache.Memory) (c : Nat) (t : Task ε) :
    ({ w with memory }.setTask c t).holds (.inl c) = t.outcome.bind Outcome.object ∧
      ∀ j, j ≠ .inl c → ({ w with memory }.setTask c t).holds j = w.holds j := by
  constructor
  · change ((Function.update w.tasks c (some t) c).bind Task.outcome).bind Outcome.object = _
    rw [Function.update_self]
    rfl
  · rintro (d | f) other
    · change ((Function.update w.tasks c (some t) d).bind Task.outcome).bind Outcome.object = _
      rw [Function.update_of_ne fun same => other (congrArg Sum.inl same)]
      rfl
    · rfl

theorem Sound.reads_grows (sound : Sound w) {memory : Cache.Memory} (grows : w.memory.Grows memory) (f : Nat) :
    (w.futures f).reads memory = (w.futures f).reads w.memory := by
  cases held : w.futures f with
  | waiting => rfl
  | failed e => rfl
  | result a =>
      cases a with
      | block b => rfl
      | resp r =>
          have mine : w.holds (.inr f) = some r := by
            rw [holds, held]
            rfl
          have same := (view_of_grows grows (sound.apart.old _ r mine)).1
          exact congrArg (fun m => some (Shared.answer (.resp m))) same

/-- A task gets on, unless it leads; its message, if it has one, is new. -/
theorem Sound.advance (sound : Sound w) (memory : Cache.Memory) {c : Nat} {t t' : Task ε}
    (found : w.tasks c = some t) (role : t'.role = t.role) (key : t'.key = t.key)
    (own : t.role = .leads → t'.ended = t.ended ∧ t'.outcome = t.outcome)
    (fresh : Fresh w.memory memory (t'.outcome.bind Outcome.object)) :
    Sound ({ w with memory }.setTask c t') := by
  have here : ({ w with memory }.setTask c t').tasks c = some t' := Function.update_self ..
  have elsewhere {d : Nat} (other : d ≠ c) : ({ w with memory }.setTask c t').tasks d = w.tasks d :=
    Function.update_of_ne other ..
  have before {d : Nat} {u : Task ε} (held : ({ w with memory }.setTask c t').tasks d = some u) :
      ∃ u₀, w.tasks d = some u₀ ∧ u.role = u₀.role ∧ u.key = u₀.key ∧
        (u₀.role = .leads → u.ended = u₀.ended ∧ u.outcome = u₀.outcome) := by
    by_cases same : d = c
    · subst same
      cases here.symm.trans held
      exact ⟨t, found, role, key, own⟩
    · exact ⟨u, (elsewhere same).symm.trans held, rfl, rfl, fun _ => ⟨rfl, rfl⟩⟩
  have after {d : Nat} {u₀ : Task ε} (held : w.tasks d = some u₀) :
      ∃ u, ({ w with memory }.setTask c t').tasks d = some u ∧ u.role = u₀.role ∧ u.key = u₀.key ∧
        (u₀.role = .leads → u.ended = u₀.ended ∧ u.outcome = u₀.outcome) := by
    by_cases same : d = c
    · subst same
      cases found.symm.trans held
      exact ⟨t', here, role, key, own⟩
    · exact ⟨u₀, (elsewhere same).trans held, rfl, rfl, fun _ => ⟨rfl, rfl⟩⟩
  obtain ⟨mine, others⟩ := holds_setTask w memory c t'
  constructor
  · exact sound.apart.put fresh mine others
  · intro k d held
    obtain ⟨u₀, there, leads, named, unended⟩ := sound.table k d held
    obtain ⟨u, now, role', key', same⟩ := after there
    exact ⟨u, now, role'.trans leads, key'.trans named, (same leads).1.trans unended⟩
  · intro d u held leads unended
    obtain ⟨u₀, there, role', key', same⟩ := before held
    have leads₀ := role'.symm.trans leads
    obtain ⟨unfinished, waiting, k, named, listed⟩ :=
      sound.running d u₀ there leads₀ ((same leads₀).1.symm.trans unended)
    exact ⟨(same leads₀).2.trans unfinished, waiting, k, key'.trans named, listed⟩
  · intro d u how held leads ended
    obtain ⟨u₀, there, role', -, same⟩ := before held
    have leads₀ := role'.symm.trans leads
    obtain ⟨reads, finished⟩ := sound.told d u₀ how there leads₀ ((same leads₀).1.symm.trans ended)
    refine ⟨(sound.reads_grows fresh.grows d).trans reads, ?_⟩
    rw [(same leads₀).2]
    exact finished
  · intro d u leader held follows
    obtain ⟨u₀, there, role', key', -⟩ := before held
    obtain ⟨fetch, led, leading, named⟩ := sound.follows d u₀ leader there (role'.symm.trans follows)
    obtain ⟨fetch', now, role'', key'', -⟩ := after led
    exact ⟨fetch', now, role''.trans leading, (key''.trans named).trans key'.symm⟩
  · intro d u held alone
    obtain ⟨u₀, there, role', key', -⟩ := before held
    exact key'.trans (sound.alone d u₀ there (role'.symm.trans alone))

/-- A new task, with nothing of its own under way. -/
theorem Sound.join (sound : Sound w) {c : Nat} {t : Task ε} (new : w.tasks c = none)
    (outcome : t.outcome = none) (leads : t.role ≠ .leads) (alone : t.role = .alone → t.key = none)
    (follows : ∀ leader, t.role = .follows leader → ∃ fetch, w.tasks leader = some fetch ∧
      fetch.role = .leads ∧ fetch.key = t.key) : Sound (w.setTask c t) := by
  have here : (w.setTask c t).tasks c = some t := Function.update_self ..
  have elsewhere {d : Nat} (other : d ≠ c) : (w.setTask c t).tasks d = w.tasks d :=
    Function.update_of_ne other ..
  have kept {d : Nat} {u : Task ε} (held : w.tasks d = some u) : (w.setTask c t).tasks d = some u := by
    refine (elsewhere ?_).trans held
    rintro rfl
    rw [new] at held
    cases held
  have before {d : Nat} {u : Task ε} (held : (w.setTask c t).tasks d = some u) :
      (d = c ∧ u = t) ∨ w.tasks d = some u := by
    by_cases same : d = c
    · subst same
      cases here.symm.trans held
      exact .inl ⟨rfl, rfl⟩
    · exact .inr ((elsewhere same).symm.trans held)
  obtain ⟨mine, others⟩ := holds_setTask w w.memory c t
  rw [outcome] at mine
  constructor
  · exact sound.apart.put (fresh_none w.memory) mine others
  · intro key d held
    obtain ⟨u, there, rest⟩ := sound.table key d held
    exact ⟨u, kept there, rest⟩
  · intro d u held leading unended
    rcases before held with ⟨-, rfl⟩ | there
    · exact absurd leading leads
    · exact sound.running d u there leading unended
  · intro d u how held leading ended
    rcases before held with ⟨-, rfl⟩ | there
    · exact absurd leading leads
    · exact sound.told d u how there leading ended
  · intro d u leader held following
    have old : ∃ fetch, w.tasks leader = some fetch ∧ fetch.role = .leads ∧ fetch.key = u.key := by
      rcases before held with ⟨-, rfl⟩ | there
      · exact follows leader following
      · exact sound.follows d u leader there following
    obtain ⟨fetch, there, rest⟩ := old
    exact ⟨fetch, kept there, rest⟩
  · intro d u held single
    rcases before held with ⟨-, rfl⟩ | there
    · exact alone single
    · exact sound.alone d u there single

/-- A task that leads where nobody did. -/
theorem Sound.lead (sound : Sound w) {c : Nat} {key : CacheKey} (new : w.tasks c = none)
    (free : w.inflight.get? key = none) : Sound (w.lead c key) := by
  have here : (w.lead c key).tasks c = some { key := some key, role := .leads } := Function.update_self ..
  have elsewhere {d : Nat} (other : d ≠ c) : (w.lead c key).tasks d = w.tasks d :=
    Function.update_of_ne other ..
  have waits : (w.lead c key).futures c = .waiting := Function.update_self ..
  have futures {d : Nat} (other : d ≠ c) : (w.lead c key).futures d = w.futures d :=
    Function.update_of_ne other ..
  have listed (k : CacheKey) : (w.lead c key).inflight.get? k = if key = k then some c else w.inflight.get? k :=
    Dict.get?_set_eq ..
  have old {d : Nat} {u : Task ε} (held : w.tasks d = some u) : d ≠ c := by
    rintro rfl
    rw [new] at held
    cases held
  have before {d : Nat} {u : Task ε} (held : (w.lead c key).tasks d = some u) :
      (d = c ∧ u = { key := some key, role := .leads }) ∨ w.tasks d = some u := by
    by_cases same : d = c
    · subst same
      cases here.symm.trans held
      exact .inl ⟨rfl, rfl⟩
    · exact .inr ((elsewhere same).symm.trans held)
  constructor
  · apply sound.apart.mono
    rintro (d | f) r held
    · by_cases same : d = c
      · change (((w.lead c key).tasks d).bind Task.outcome).bind Outcome.object = some r at held
        rw [same, here] at held
        cases held
      · change (((w.lead c key).tasks d).bind Task.outcome).bind Outcome.object = some r at held
        rw [elsewhere same] at held
        exact held
    · by_cases same : f = c
      · change ((w.lead c key).futures f).object = some r at held
        rw [same, waits] at held
        cases held
      · change ((w.lead c key).futures f).object = some r at held
        rw [futures same] at held
        exact held
  · intro k d held
    rw [listed] at held
    split at held
    · next same =>
        cases held
        exact ⟨_, here, rfl, congrArg some same, rfl⟩
    · obtain ⟨u, there, rest⟩ := sound.table k d held
      exact ⟨u, (elsewhere (old there)).trans there, rest⟩
  · intro d u held leads unended
    rcases before held with ⟨rfl, rfl⟩ | there
    · exact ⟨rfl, waits, key, rfl, (listed key).trans (if_pos rfl)⟩
    · obtain ⟨unfinished, waiting, k, named, entered⟩ := sound.running d u there leads unended
      refine ⟨unfinished, (futures (old there)).trans waiting, k, named, ?_⟩
      rw [listed, if_neg]
      · exact entered
      · rintro rfl
        rw [free] at entered
        cases entered
  · intro d u how held leads ended
    rcases before held with ⟨-, rfl⟩ | there
    · cases ended
    · rw [futures (old there)]
      exact sound.told d u how there leads ended
  · intro d u leader held follows
    rcases before held with ⟨-, rfl⟩ | there
    · cases follows
    · obtain ⟨fetch, led, rest⟩ := sound.follows d u leader there follows
      exact ⟨fetch, (elsewhere (old led)).trans led, rest⟩
  · intro d u held alone
    rcases before held with ⟨-, rfl⟩ | there
    · cases alone
    · exact sound.alone d u there alone

/-- A leader with its fetch ended is off the table, and its future tells what came of it. -/
theorem Sound.leave (sound : Sound w) {c : Nat} {t : Task ε} {key : CacheKey} {how : Ended ε}
    {memory memory' : Cache.Memory} {outcome : Outcome ε} {future : Future ε} (found : w.tasks c = some t)
    (leads : t.role = .leads) (named : t.key = some key) (unended : t.ended = none)
    (fresh : Fresh w.memory memory outcome.object) (copied : Fresh memory memory' future.object)
    (reads : future.reads memory' = some how.shared) :
    Sound (⟨memory', w.inflight.erase key, Function.update w.futures c future,
      Function.update w.tasks c (some { t with ended := some how, outcome := some outcome })⟩ : Loop ε) := by
  generalize after : (⟨memory', w.inflight.erase key, Function.update w.futures c future,
    Function.update w.tasks c (some { t with ended := some how, outcome := some outcome })⟩ : Loop ε) = w'
  let t' : Task ε := { t with ended := some how, outcome := some outcome }
  have here : w'.tasks c = some t' := by
    rw [← after]
    exact Function.update_self ..
  have elsewhere {d : Nat} (other : d ≠ c) : w'.tasks d = w.tasks d := by
    rw [← after]
    exact Function.update_of_ne other ..
  have tells : w'.futures c = future := by
    rw [← after]
    exact Function.update_self ..
  have futures {d : Nat} (other : d ≠ c) : w'.futures d = w.futures d := by
    rw [← after]
    exact Function.update_of_ne other ..
  have listed (k : CacheKey) : w'.inflight.get? k = if key = k then none else w.inflight.get? k := by
    rw [← after]
    exact Dict.get?_erase_eq ..
  have before {d : Nat} {u : Task ε} (held : w'.tasks d = some u) :
      (d = c ∧ u = t') ∨ (d ≠ c ∧ w.tasks d = some u) := by
    by_cases same : d = c
    · subst same
      cases here.symm.trans held
      exact .inl ⟨rfl, rfl⟩
    · exact .inr ⟨same, (elsewhere same).symm.trans held⟩
  obtain ⟨mine, others⟩ := holds_setTask w memory c t'
  have half := sound.apart.put fresh mine others
  have grown (f : Nat) : (w.futures f).reads memory' = (w.futures f).reads w.memory :=
    sound.reads_grows (fresh.grows.trans copied.grows) f
  constructor
  · rw [show w'.memory = memory' by rw [← after]]
    refine half.put copied (i := .inr c) (congrArg Future.object tells) ?_
    rintro (d | f) other
    · rw [← after]
      rfl
    · exact congrArg Future.object (futures fun same => other (congrArg Sum.inr same))
  · intro k d held
    rw [listed] at held
    split at held
    · cases held
    · next differ =>
        obtain ⟨u, there, leading, named', rest⟩ := sound.table k d held
        refine ⟨u, (elsewhere ?_).trans there, leading, named', rest⟩
        rintro rfl
        cases found.symm.trans there
        rw [named] at named'
        exact differ (Option.some.inj named')
  · intro d u held leading unended'
    rcases before held with ⟨-, rfl⟩ | ⟨other, there⟩
    · cases unended'
    · obtain ⟨unfinished, waiting, k, named', entered⟩ := sound.running d u there leading unended'
      refine ⟨unfinished, (futures other).trans waiting, k, named', ?_⟩
      rw [listed, if_neg]
      · exact entered
      · rintro rfl
        obtain ⟨-, -, k, own, mine⟩ := sound.running c t found leads unended
        rw [named] at own
        cases own
        exact other (Option.some.inj (entered.symm.trans mine))
  · intro d u how' held leading ended
    rw [show w'.memory = memory' by rw [← after]]
    rcases before held with ⟨rfl, rfl⟩ | ⟨other, there⟩
    · cases ended
      rw [tells]
      exact ⟨reads, nofun⟩
    · obtain ⟨reads', finished⟩ := sound.told d u how' there leading ended
      rw [futures other, grown]
      exact ⟨reads', finished⟩
  · intro d u leader held follows
    have old : ∃ fetch, w.tasks leader = some fetch ∧ fetch.role = .leads ∧ fetch.key = u.key := by
      rcases before held with ⟨-, rfl⟩ | ⟨-, there⟩
      · have following : t.role = .follows leader := follows
        rw [leads] at following
        cases following
      · exact sound.follows d u leader there follows
    obtain ⟨fetch, led, leading, same⟩ := old
    by_cases own : leader = c
    · subst own
      cases found.symm.trans led
      exact ⟨t', here, leading, same⟩
    · exact ⟨fetch, (elsewhere own).trans led, leading, same⟩
  · intro d u held alone
    rcases before held with ⟨-, rfl⟩ | ⟨-, there⟩
    · have alone' : t.role = .alone := alone
      rw [leads] at alone'
      cases alone'
    · exact sound.alone d u there alone

/-- Who was handed a message edits it. -/
theorem Sound.edit (sound : Sound w) {c r : Nat} {memory : Cache.Memory} (held : w.holds (.inl c) = some r)
    (next : w.memory.next ≤ memory.next)
    (same : ∀ c, c < w.memory.next → c ∉ reach w.memory r → ∀ k, memory.cell k c = w.memory.cell k c)
    (inside : ∀ c ∈ reach memory r, c ∈ reach w.memory r ∨ w.memory.next ≤ c ∧ c < memory.next) :
    Sound { w with memory } := by
  obtain ⟨apart, others⟩ := sound.apart.edit held next same inside
  refine ⟨apart, sound.table, sound.running, ?_, sound.follows, sound.alone⟩
  intro d u how there leads ended
  obtain ⟨reads, finished⟩ := sound.told d u how there leads ended
  refine ⟨Eq.trans ?_ reads, finished⟩
  change (w.futures d).reads memory = _
  cases future : w.futures d with
  | waiting => rfl
  | failed e => rfl
  | result a =>
      cases a with
      | block b => rfl
      | resp r' =>
          have mine : w.holds (.inr d) = some r' := by
            rw [holds, future]
            rfl
          exact congrArg (fun m => some (Shared.answer (.resp m))) (others (.inr d) r' (fun same => by cases same) mine)

/-! ### Each event -/

/-- Who is through stays as it is. -/
theorem kept_of_tasks {c : Nat} {t' : Task ε} (unfinished : ∀ t, w.tasks c = some t → t.outcome = none)
    (tasks : w'.tasks = Function.update w.tasks c (some t')) (d : Nat) (u : Task ε) (o : Outcome ε)
    (found : w.tasks d = some u) (finished : u.outcome = some o) :
    ∃ u', w'.tasks d = some u' ∧ u'.outcome = some o := by
  refine ⟨u, ?_, finished⟩
  rw [tasks, Function.update_of_ne]
  · exact found
  · rintro rfl
    rw [unfinished u found] at finished
    cases finished

theorem Shares.of_kept {e : Event ε} (resumed : ∀ c, e ≠ .resumes c) (ended : ∀ c how, e ≠ .ends c how)
    (kept : ∀ c t outcome, w.tasks c = some t → t.outcome = some outcome → ∃ t', w'.tasks c = some t' ∧
      t'.outcome = some outcome) : Shares w e w' where
  joined c _ _ _ event := absurd event (resumed c)
  led c how _ event := absurd event (ended c how)
  kept := kept

theorem steps_arrives (sound : Sound w) {c : Nat} {key : Option CacheKey}
    (taken : w.step (.arrives c key) = some w') : Sound w' ∧ Shares w (.arrives c key) w' := by
  rw [step] at taken
  split at taken
  · next blank =>
      have new := Option.isNone_iff_eq_none.mp blank
      have unfinished (t : Task ε) (found : w.tasks c = some t) : t.outcome = none := by
        rw [new] at found
        cases found
      cases taken
      cases key with
      | none =>
          exact ⟨sound.join new rfl nofun (fun _ => rfl) nofun,
            .of_kept nofun nofun (kept_of_tasks unfinished rfl)⟩
      | some key =>
          rw [arrives]
          split
          · next leader listed =>
              obtain ⟨fetch, there, leads, named, unended⟩ := sound.table key leader listed
              have waiting := (sound.running leader fetch there leads unended).2.1
              rw [if_neg (by rw [not_done.mpr waiting]; exact Bool.false_ne_true)]
              refine ⟨sound.join new rfl nofun nofun ?_, .of_kept nofun nofun (kept_of_tasks unfinished rfl)⟩
              rintro _ ⟨⟩
              exact ⟨fetch, there, leads, named⟩
          · next free =>
              exact ⟨sound.lead new free, .of_kept nofun nofun (kept_of_tasks unfinished rfl)⟩
  · cases taken

theorem steps_cancels (sound : Sound w) {c : Nat} (taken : w.step (.cancels c) = some w') :
    Sound w' ∧ Shares w (.cancels c) w' := by
  obtain ⟨t, found, taken⟩ := Option.bind_eq_some_iff.mp taken
  split at taken
  · next open' =>
      have unfinished := Option.isNone_iff_eq_none.mp open'
      cases taken
      have nothing : Fresh w.memory w.memory (t.outcome.bind Outcome.object) := by
        rw [unfinished]
        exact fresh_none w.memory
      refine ⟨sound.advance w.memory found rfl rfl (fun _ => ⟨rfl, rfl⟩) nothing,
        .of_kept nofun nofun (kept_of_tasks (fun u held => ?_) rfl)⟩
      cases found.symm.trans held
      exact unfinished
  · cases taken

theorem steps_writes (sound : Sound w) {c : Nat} {k : Kind} {cell : Nat} {v : k.Value}
    (taken : w.step (.writes c k cell v) = some w') : Sound w' ∧ Shares w (.writes c k cell v) w' := by
  obtain ⟨r, held, taken⟩ := Option.bind_eq_some_iff.mp taken
  split at taken
  · next able =>
      obtain ⟨mine, same⟩ := able
      cases taken
      refine ⟨sound.edit held (Nat.le_refl _) ?_ ?_, .of_kept nofun nofun fun d u o found finished =>
        ⟨u, found, finished⟩⟩
      · intro d _ away k'
        exact Heap.cell_set_other w.memory v fun here => away (here ▸ mine)
      · intro d reached
        rw [reach_congr (pointers_set same)] at reached
        exact .inl reached
  · cases taken

theorem steps_rewrites (sound : Sound w) {c : Nat} {edns : Option Edns}
    (taken : w.step (.rewrites c edns) = some w') : Sound w' ∧ Shares w (.rewrites c edns) w' := by
  obtain ⟨r, held, taken⟩ := Option.bind_eq_some_iff.mp taken
  have grows := grows_buildEdns w.memory edns
  have new := buildEdns_new w.memory edns
  generalize buildEdns w.memory edns = built at grows new taken
  obtain ⟨memory, opt⟩ := built
  obtain rfl := Option.some.inj taken
  dsimp only at grows new
  have root : r ∈ reach w.memory r := List.mem_cons_self
  have message := grows.same .message r (sound.apart.old _ r held r root)
  refine ⟨sound.edit held grows.next ?_ ?_, .of_kept nofun nofun fun d u o found finished =>
    ⟨u, found, finished⟩⟩
  · intro c old away k
    have other : c ≠ r := by
      rintro rfl
      exact away root
    exact (Heap.cell_set_other memory _ other).trans (grows.same k c old)
  · intro c reached
    have edge (v : Cache.MessageObject) (e : Nat) :
        Cache.reachEdns (memory.set .message r v) e = Cache.reachEdns memory e := rfl
    rw [reach, Heap.cell_set_self, message] at reached
    rcases List.mem_append.mp reached with section' | option
    · exact .inl (List.mem_append_left _ section')
    · cases opt with
      | none => cases option
      | some e =>
          rw [Option.elim_some, edge] at option
          exact .inr (new e rfl c option)

/-- A follower that reads what its leader's future tells gets what the fetch came to. -/
theorem Sound.joined (sound : Sound w) (memory : Cache.Memory) (outcome : Outcome ε) {c leader : Nat} {t : Task ε}
    (found : w.tasks c = some t) (role : t.role = .follows leader)
    (unfinished : t.outcome = none)
    (reads : t.cancelled = false → outcome.reads memory = (w.futures leader).reads w.memory)
    (known : t.cancelled = false → w.futures leader ≠ .waiting) :
    Shares w (.resumes c) ({ w with memory }.setTask c { t with outcome := some outcome }) := by
  obtain ⟨fetch, there, leads, named⟩ := sound.follows c t leader found role
  have now : ({ w with memory }.setTask c { t with outcome := some outcome }).tasks c = _ :=
    Function.update_self ..
  refine ⟨?_, fun _ _ _ event => (by cases event), kept_of_tasks (fun u held => ?_) rfl⟩
  · intro c' t' leader' u event held follows calm after
    cases event
    cases found.symm.trans held
    cases role.symm.trans follows
    rw [now] at after
    cases after
    cases ended : fetch.ended with
    | none => exact absurd (sound.running leader fetch there leads ended).2.1 (known calm)
    | some how =>
        exact ⟨fetch, how, outcome, there, named, ended, rfl,
          (reads calm).trans (sound.told leader fetch how there leads ended).1⟩
  · cases found.symm.trans held
    exact unfinished

/-- A follower goes on. -/
theorem steps_resumes (sound : Sound w) {c : Nat} (taken : w.step (.resumes c) = some w') :
    Sound w' ∧ Shares w (.resumes c) w' := by
  obtain ⟨t, found, taken⟩ := Option.bind_eq_some_iff.mp taken
  cases role : t.role with
  | alone =>
      simp only [role] at taken
      cases taken
  | leads =>
      simp only [role] at taken
      cases taken
  | follows leader =>
      simp only [role] at taken
      split at taken
      · next open' =>
          have unfinished := Option.isNone_iff_eq_none.mp open'
          have notLeading : t.role ≠ .leads := by
            rw [role]
            nofun
          have shares {memory : Cache.Memory} {outcome : Outcome ε} :=
            sound.joined memory outcome found role unfinished
          rw [resumes] at taken
          split at taken
          · next stopped =>
              cases taken
              refine ⟨sound.advance w.memory found rfl rfl
                (fun leading => absurd leading notLeading) (fresh_none w.memory), shares ?_ ?_⟩
              · intro calm
                rw [stopped] at calm
                cases calm
              · intro calm
                rw [stopped] at calm
                cases calm
          · split at taken
            · cases taken
            · next a told =>
                cases taken
                obtain ⟨fresh, read⟩ := detached_spec w.memory a
                refine ⟨sound.advance _ found rfl rfl (fun leading => absurd leading notLeading) fresh,
                  shares (fun _ => ?_) fun _ waiting => ?_⟩
                · rw [told]
                  exact congrArg (fun a => some (Shared.answer a)) read
                · rw [told] at waiting
                  cases waiting
            · next e told =>
                cases taken
                refine ⟨sound.advance w.memory found rfl rfl
                  (fun leading => absurd leading notLeading) (fresh_none w.memory),
                  shares (fun _ => ?_) fun _ waiting => ?_⟩
                · rw [told]
                  rfl
                · rw [told] at waiting
                  cases waiting
      · cases taken

theorem tell_waiting {c : Nat} (pending : w.futures c = .waiting) (outcome : Outcome ε) :
    w.tell c outcome = { w with memory := (told w.memory outcome).1 }.setFuture c (told w.memory outcome).2 := by
  rw [tell, if_neg]
  rw [not_done.mpr pending]
  exact Bool.false_ne_true

theorem leave_done {c : Nat} {key : CacheKey} (done : (w.futures c).done = true)
    (listed : w.inflight.get? key = some c) :
    w.leave c key = { w with inflight := w.inflight.erase key } := by
  rw [Loop.leave, if_pos done]
  exact if_pos listed

/-- What a leader does once its fetch has ended. -/
theorem ends_leads (sound : Sound w) {c : Nat} {t : Task ε} {key : CacheKey} (found : w.tasks c = some t)
    (leads : t.role = .leads) (named : t.key = some key) (unended : t.ended = none) (how : Ended ε) :
    w.ends c t how =
      ⟨(told (handed w.memory how).1 (handed w.memory how).2).1, w.inflight.erase key,
        Function.update w.futures c (told (handed w.memory how).1 (handed w.memory how).2).2,
        Function.update w.tasks c
          (some { t with ended := some how, outcome := some (handed w.memory how).2 })⟩ := by
  obtain ⟨-, waiting, key', named', listed⟩ := sound.running c t found leads unended
  rw [named] at named'
  cases named'
  have done := (told_spec (handed w.memory how).1 (handed w.memory how).2).2.1
  let mid := { w with memory := (handed w.memory how).1 }.setTask c
    { t with ended := some how, outcome := some (handed w.memory how).2 }
  have half : w.ends c t how = (mid.tell c (handed w.memory how).2).leave c key := by
    obtain ⟨k, role, stopped, ended, outcome⟩ := t
    cases leads
    cases named
    rfl
  have pending : mid.futures c = .waiting := waiting
  rw [half, tell_waiting pending, leave_done]
  · rfl
  · change (Function.update w.futures c (told (handed w.memory how).1 (handed w.memory how).2).2 c).done = true
    rw [Function.update_self]
    exact done
  · exact listed

theorem steps_ends (sound : Sound w) {c : Nat} {how : Ended ε} (taken : w.step (.ends c how) = some w') :
    Sound w' ∧ Shares w (.ends c how) w' := by
  obtain ⟨t, found, taken⟩ := Option.bind_eq_some_iff.mp taken
  obtain ⟨fresh, own⟩ := handed_spec w.memory how
  have led {memory : Cache.Memory} (grows : (handed w.memory how).1.Grows memory)
      (tasks : w'.tasks = Function.update w.tasks c
        (some { t with ended := some how, outcome := some (handed w.memory how).2 }))
      (same : w'.memory = memory) (unfinished : t.outcome = none) : Shares w (.ends c how) w' := by
    have now : w'.tasks c = _ := (congrFun tasks c).trans (Function.update_self ..)
    refine ⟨fun _ _ _ _ event => (by cases event), ?_, kept_of_tasks (fun u held => ?_) tasks⟩
    · intro c' how' t' event after
      cases event
      cases now.symm.trans after
      refine ⟨rfl, _, rfl, own.imp (fun reads => ?_) id⟩
      rw [same, ← reads]
      exact outcome_reads_grows fresh grows
    · cases found.symm.trans held
      exact unfinished
  cases role : t.role with
  | follows leader =>
      simp only [role] at taken
      cases taken
  | alone =>
      simp only [role] at taken
      split at taken
      · next open' =>
          have unfinished := Option.isNone_iff_eq_none.mp open'
          obtain rfl := Option.some.inj taken
          have after : w.ends c t how = { w with memory := (handed w.memory how).1 }.setTask c
              { t with ended := some how, outcome := some (handed w.memory how).2 } := by
            rw [ends]
            simp only [role]
          refine ⟨?_, led (.refl _) (by rw [after]; rfl) (by rw [after]; rfl) unfinished⟩
          rw [after]
          exact sound.advance _ found rfl rfl (fun leads => by rw [role] at leads; cases leads) fresh
      · cases taken
  | leads =>
      simp only [role] at taken
      split at taken
      · next open' =>
          have unfinished := Option.isNone_iff_eq_none.mp open'
          obtain rfl := Option.some.inj taken
          have unended : t.ended = none := by
            cases ended : t.ended with
            | none => rfl
            | some how' => exact absurd unfinished (sound.told c t how' found role ended).2
          obtain ⟨-, -, key, named, -⟩ := sound.running c t found role unended
          obtain ⟨copied, -, reads⟩ := told_spec (handed w.memory how).1 (handed w.memory how).2
          have after := ends_leads sound found role named unended how
          have told' : (told (handed w.memory how).1 (handed w.memory how).2).2.reads
              (told (handed w.memory how).1 (handed w.memory how).2).1 = some how.shared := by
            rw [reads]
            rcases own with same | ⟨stopped, none⟩
            · rw [same, Option.getD_some]
            · rw [none, stopped]
              rfl
          refine ⟨?_, led copied.grows (by rw [after]) (by rw [after]) unfinished⟩
          rw [after]
          exact sound.leave found role named unended fresh copied told'
      · cases taken

theorem Sound.step (sound : Sound w) {e : Event ε} (taken : w.step e = some w') :
    Sound w' ∧ Shares w e w' := by
  cases e with
  | arrives c key => exact steps_arrives sound taken
  | ends c how => exact steps_ends sound taken
  | cancels c => exact steps_cancels sound taken
  | resumes c => exact steps_resumes sound taken
  | writes c k cell v => exact steps_writes sound taken
  | rewrites c edns => exact steps_rewrites sound taken

end

/-- In every run, and at every moment of it: one fetch for a key, whoever follows one gets what it
comes to, a key is listed while its fetch runs, and no two hold one list or one OPT. -/
theorem coalesces_run {steps : List (Machine.Step (Loop ε) (Event ε))}
    (run : Machine.Run Loop.step initial steps) :
    ∀ t ∈ steps, Coalesces t.after ∧ Shares t.before t.event t.after := by
  intro t taken
  have kept := Machine.Run.invariant (fun _ _ => True) Shares (fun sound _ => sound.step) run sound_initial
    fun _ _ => trivial
  obtain ⟨sound, shares⟩ := kept t taken
  exact ⟨sound.coalesces, shares⟩

/-- Two ask the same, and the second is handed a copy of what the first was handed. -/
def together : List (Event Unit) :=
  [.arrives 0 (some ⟨[0], 1, 1, false, [], false, []⟩), .arrives 1 (some ⟨[0], 1, 1, false, [], false, []⟩),
    .ends 0 (.answer (.resp {})), .rewrites 0 (some { udpSize := 1232 }), .resumes 1]

theorem together_coalesces : (Machine.follow Loop.step initial together).length = 5 ∧
    ∀ t ∈ Machine.follow Loop.step initial together, Coalesces t.after ∧ Shares t.before t.event t.after :=
  ⟨by decide +kernel, coalesces_run (Machine.run_follow _ _ _)⟩

end Loop

end Trench.Engine.Coalesce
