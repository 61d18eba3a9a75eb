import Mathlib
import Trench.Lib.Machine
import Trench.Transport.UdpPool

set_option autoImplicit false

/- Which query a datagram completes, and what removes a registration. -/
namespace Trench.Transport

open Wire

namespace Pool

/-- What the socket holds for an id. -/
def pend (p : Pool) (s : Nat) (id : UInt16) : Option Nat := (p.sockets s).pending.get? id

def ques (p : Pool) (s : Nat) (id : UInt16) : Option Octets := (p.sockets s).questions.get? id

def rej (p : Pool) (s : Nat) (id : UInt16) : Option (Octets × Nat) := (p.sockets s).rejected.get? id

/-- The query's future is the one its socket holds for its id. -/
def Registered (p : Pool) (q : Nat) (r : Query) : Prop := p.pend r.sock (txid r.wire) = some q

instance (p : Pool) (q : Nat) (r : Query) : Decidable (p.Registered q r) :=
  inferInstanceAs (Decidable (p.pend r.sock (txid r.wire) = some q))

/-- What the handler takes for a reply to the query. -/
def Matches (wire data : Octets) : Prop :=
  12 ≤ data.length ∧ txid data = txid wire ∧ answersQuestion (questionOf wire) data = true

/-- No query takes an id while an earlier one on the socket has still to clean up behind itself. -/
def Clean (p : Pool) : Event → Prop
  | .begins _ wire s true => ∀ q r, p.queries q = some r → r.sock = s → txid r.wire = txid wire →
      r.outcome ≠ none
  | _ => True

/-- What holds of one event. -/
structure Dispatched (p : Pool) (e : Event) (p' : Pool) : Prop where
  delivered : ∀ s data q r, e = .datagram s data → p.queries q = some r → r.sock = s →
    r.future = .waiting → Matches r.wire data →
      p'.queries = Function.update p.queries q (some { r with future := .result data })
  matched : ∀ s data q r, e = .datagram s data → p.queries q = some r → p'.queries q ≠ some r →
    r.sock = s ∧ r.future = .waiting ∧ Matches r.wire data
  removed : ∀ q r r', p.queries q = some r → p.Registered q r → p'.queries q = some r' →
    ¬p'.Registered q r' →
      (∃ data, e = .datagram r.sock data ∧ r' = { r with future := .result data }) ∨
      (∃ late, e = .resumes q late ∧ (r.expired = true ∨ r.cancelled = true)) ∨
      e = .lost r.sock ∨ ∃ timeout, e = .errs r.sock timeout ∧ r'.future ≠ .waiting
  held : ∀ q late r data holder, e = .resumes q late → p'.queries q = some r →
    r.outcome = some (.stray data holder) → holder = q

/-- What holds in every state where no query began over one that had not cleaned up. -/
structure Sound (p : Pool) : Prop where
  owned : ∀ s id q, p.pend s id = some q → ∃ r, p.queries q = some r ∧ r.sock = s ∧
    txid r.wire = id ∧ r.outcome = none ∧ p.ques s id = some (questionOf r.wire) ∧
    (r.future = .waiting ∨ r.future = .cancelled ∧ (r.expired = true ∨ r.cancelled = true))
  waits : ∀ q r, p.queries q = some r → r.future = .waiting → r.outcome = none ∧ p.Registered q r
  sole : ∀ q q' r r', p.queries q = some r → p.queries q' = some r' → r.outcome = none →
    r'.outcome = none → r.sock = r'.sock → txid r.wire = txid r'.wire → q = q'
  held : ∀ s id data q, p.rej s id = some (data, q) → p.pend s id = some q
  fresh : ∀ s, p.opened ≤ s → ∀ id, p.pend s id = none
  known : ∀ s, s ∈ p.socks ∨ (∃ socks, p.refill = some socks ∧ s ∈ socks) → s < p.opened

theorem sound_initial (size : Nat) : Sound (.initial size) where
  owned _ _ _ held := by cases held
  waits _ _ held := by cases held
  sole _ _ _ _ held := by cases held
  held _ _ _ _ held := by cases held
  fresh _ _ _ := rfl
  known s held := by
    rcases held with held | ⟨socks, held, -⟩
    · cases held
    · cases held

section

variable {p p' : Pool}

theorem setSocket_self (p : Pool) (s : Nat) (socket : Socket) : (p.setSocket s socket).sockets s = socket :=
  Function.update_self ..

theorem setSocket_other (p : Pool) {s s' : Nat} (other : s' ≠ s) (socket : Socket) :
    (p.setSocket s socket).sockets s' = p.sockets s' := Function.update_of_ne other ..

/-! ### What an event does to the tables -/

/-- All that a socket holds under other ids, or another socket, is as before. -/
def Away (p p' : Pool) (s : Nat) (id : UInt16) : Prop :=
  ∀ s' id', s' ≠ s ∨ id' ≠ id →
    p'.pend s' id' = p.pend s' id' ∧ p'.ques s' id' = p.ques s' id' ∧ p'.rej s' id' = p.rej s' id'

/-- The lists of sockets have lost at most some. -/
structure Fewer (p p' : Pool) : Prop where
  opened : p'.opened = p.opened
  refill : p'.refill = p.refill
  socks : ∀ s ∈ p'.socks, s ∈ p.socks

theorem Sound.known_fewer (sound : Sound p) (fewer : Fewer p p') :
    ∀ s, s ∈ p'.socks ∨ (∃ socks, p'.refill = some socks ∧ s ∈ socks) → s < p'.opened := by
  intro s held
  rw [fewer.opened]
  apply sound.known
  rw [fewer.refill] at held
  exact held.imp (fewer.socks s) id

/-- A query is registered under an id that was free. -/
theorem Sound.register (sound : Sound p) (fewer : Fewer p p') {q s : Nat} {wire : Octets}
    (new : p.queries q = none) (inside : s < p.opened) (free : p.pend s (txid wire) = none)
    (clean : ∀ q r, p.queries q = some r → r.sock = s → txid r.wire = txid wire → r.outcome ≠ none)
    (pend : p'.pend s (txid wire) = some q) (ques : p'.ques s (txid wire) = some (questionOf wire))
    (rej : p'.rej s (txid wire) = p.rej s (txid wire)) (away : Away p p' s (txid wire))
    (queries : p'.queries = Function.update p.queries q (some { wire, sock := s })) : Sound p' := by
  have other {q' : Nat} {r : Query} (found : p.queries q' = some r) : p'.queries q' = some r := by
    rw [queries, Function.update_of_ne]
    · exact found
    · rintro rfl
      rw [new] at found
      cases found
  have own : p'.queries q = some { wire, sock := s } := by rw [queries, Function.update_self]
  have old {q' : Nat} {r : Query} (found : p'.queries q' = some r) :
      (q' = q ∧ r = { wire, sock := s }) ∨ (q' ≠ q ∧ p.queries q' = some r) := by
    by_cases same : q' = q
    · rw [same, own] at found
      exact .inl ⟨same, (Option.some.inj found).symm⟩
    · rw [queries, Function.update_of_ne same] at found
      exact .inr ⟨same, found⟩
  have split (s' : Nat) (id' : UInt16) : (s' = s ∧ id' = txid wire) ∨ (s' ≠ s ∨ id' ≠ txid wire) := by
    by_cases same : s' = s ∧ id' = txid wire
    · exact .inl same
    · exact .inr (not_and_or.mp same)
  constructor
  · intro s' id' q' held
    rcases split s' id' with ⟨rfl, rfl⟩ | apart
    · cases pend.symm.trans held
      exact ⟨_, own, rfl, rfl, rfl, ques, .inl rfl⟩
    · obtain ⟨same, asked, -⟩ := away s' id' apart
      rw [same] at held
      rw [asked]
      obtain ⟨r, found, rest⟩ := sound.owned s' id' q' held
      exact ⟨r, other found, rest⟩
  · intro q' r found waiting
    rcases old found with ⟨rfl, rfl⟩ | ⟨-, before⟩
    · exact ⟨rfl, pend⟩
    · obtain ⟨unfinished, registered⟩ := sound.waits q' r before waiting
      refine ⟨unfinished, ?_⟩
      rcases split r.sock (txid r.wire) with ⟨here, same⟩ | apart
      · rw [Registered, here, same, free] at registered
        cases registered
      · exact ((away _ _ apart).1).trans registered
  · intro q₁ q₂ r₁ r₂ found₁ found₂ unfinished₁ unfinished₂ sock id
    rcases old found₁ with ⟨rfl, rfl⟩ | ⟨-, before₁⟩
    · rcases old found₂ with ⟨rfl, -⟩ | ⟨-, before₂⟩
      · rfl
      · exact absurd unfinished₂ (clean q₂ r₂ before₂ sock.symm id.symm)
    · rcases old found₂ with ⟨rfl, rfl⟩ | ⟨-, before₂⟩
      · exact absurd unfinished₁ (clean q₁ r₁ before₁ sock id)
      · exact sound.sole q₁ q₂ r₁ r₂ before₁ before₂ unfinished₁ unfinished₂ sock id
  · intro s' id' data q' held
    rcases split s' id' with ⟨rfl, rfl⟩ | apart
    · rw [rej] at held
      have := sound.held _ _ _ _ held
      rw [free] at this
      cases this
    · obtain ⟨same, -, kept⟩ := away s' id' apart
      rw [kept] at held
      rw [same]
      exact sound.held _ _ _ _ held
  · intro s' beyond id'
    rw [fewer.opened] at beyond
    rw [(away s' id' (.inl (by omega))).1]
    exact sound.fresh s' beyond id'
  · exact sound.known_fewer fewer

/-- What is held for an id is dropped, and one query gets on that no longer waits. -/
theorem Sound.drop (sound : Sound p) (fewer : Fewer p p') {q s : Nat} {id : UInt16} {r : Query}
    (sole : ∀ q', p.pend s id = some q' → q' = q)
    (lone : ∀ q' r', p.queries q' = some r' → q' ≠ q → r'.outcome = none → r.outcome = none →
      r'.sock = r.sock → txid r'.wire = txid r.wire → False)
    (notWaiting : r.future ≠ .waiting) (pend : p'.pend s id = none) (rej : p'.rej s id = none)
    (away : Away p p' s id) (queries : p'.queries = Function.update p.queries q (some r))
    (owner : ∀ s' id', p.pend s' id' = some q → s' = s ∧ id' = id) : Sound p' := by
  have own : p'.queries q = some r := by rw [queries, Function.update_self]
  have other {q' : Nat} (apart : q' ≠ q) : p'.queries q' = p.queries q' := by
    rw [queries, Function.update_of_ne apart]
  have split (s' : Nat) (id' : UInt16) : (s' = s ∧ id' = id) ∨ (s' ≠ s ∨ id' ≠ id) := by
    by_cases same : s' = s ∧ id' = id
    · exact .inl same
    · exact .inr (not_and_or.mp same)
  constructor
  · intro s' id' q' held
    rcases split s' id' with ⟨rfl, rfl⟩ | apart
    · rw [pend] at held
      cases held
    · obtain ⟨same, asked, -⟩ := away s' id' apart
      rw [same] at held
      rw [asked]
      obtain ⟨r', found, rest⟩ := sound.owned s' id' q' held
      refine ⟨r', ?_, rest⟩
      rw [other]
      · exact found
      · rintro rfl
        obtain ⟨here, this⟩ := owner s' id' held
        exact apart.elim (· here) (· this)
  · intro q' r' found waiting
    by_cases same : q' = q
    · rw [same, own] at found
      cases found
      exact absurd waiting notWaiting
    · rw [other same] at found
      obtain ⟨unfinished, registered⟩ := sound.waits q' r' found waiting
      refine ⟨unfinished, ?_⟩
      rcases split r'.sock (txid r'.wire) with ⟨here, this⟩ | apart
      · rw [Registered, here, this] at registered
        exact absurd (sole q' registered) same
      · exact ((away _ _ apart).1).trans registered
  · intro q₁ q₂ r₁ r₂ found₁ found₂ unfinished₁ unfinished₂ sock this
    by_contra apart
    by_cases first : q₁ = q
    · have second : q₂ ≠ q := fun same => apart (first.trans same.symm)
      rw [first, own] at found₁
      cases found₁
      rw [other second] at found₂
      exact lone q₂ r₂ found₂ second unfinished₂ unfinished₁ sock.symm this.symm
    · rw [other first] at found₁
      by_cases second : q₂ = q
      · rw [second, own] at found₂
        cases found₂
        exact lone q₁ r₁ found₁ first unfinished₁ unfinished₂ sock this
      · rw [other second] at found₂
        exact apart (sound.sole q₁ q₂ r₁ r₂ found₁ found₂ unfinished₁ unfinished₂ sock this)
  · intro s' id' data q' held
    rcases split s' id' with ⟨rfl, rfl⟩ | apart
    · rw [rej] at held
      cases held
    · obtain ⟨same, -, kept⟩ := away s' id' apart
      rw [kept] at held
      rw [same]
      exact sound.held _ _ _ _ held
  · intro s' beyond id'
    rcases split s' id' with ⟨rfl, rfl⟩ | apart
    · exact pend
    · rw [fewer.opened] at beyond
      rw [(away s' id' apart).1]
      exact sound.fresh s' beyond id'
  · exact sound.known_fewer fewer

/-- The tables are as before, and what is held back is held for the query that waits. -/
theorem Sound.tables (sound : Sound p) (pend : ∀ s id, p'.pend s id = p.pend s id)
    (ques : ∀ s id q, p.pend s id = some q → p'.ques s id = p.ques s id)
    (queries : p'.queries = p.queries)
    (rej : ∀ s id data q, p'.rej s id = some (data, q) → p.pend s id = some q)
    (opened : p.opened ≤ p'.opened)
    (known : ∀ s, s ∈ p'.socks ∨ (∃ socks, p'.refill = some socks ∧ s ∈ socks) → s < p'.opened) :
    Sound p' := by
  constructor
  · intro s id q held
    rw [pend] at held
    rw [queries, ques s id q held]
    exact sound.owned s id q held
  · intro q r found waiting
    rw [queries] at found
    obtain ⟨unfinished, registered⟩ := sound.waits q r found waiting
    exact ⟨unfinished, (pend _ _).trans registered⟩
  · intro q q' r r' found found'
    rw [queries] at found found'
    exact sound.sole q q' r r' found found'
  · intro s id data q held
    rw [pend]
    exact rej s id data q held
  · intro s beyond id
    rw [pend]
    exact sound.fresh s (opened.trans beyond) id
  · exact known

/-- A timer goes off, or a task is cancelled. -/
theorem Sound.stop (sound : Sound p) {q : Nat} {r r' : Query} (found : p.queries q = some r)
    (sock : r'.sock = r.sock) (wire : r'.wire = r.wire) (outcome : r'.outcome = r.outcome)
    (marked : r'.expired = true ∨ r'.cancelled = true)
    (future : r'.future = if r.future = .waiting then .cancelled else r.future) :
    Sound (p.setQuery q r') := by
  have own : (p.setQuery q r').queries q = some r' := Function.update_self ..
  have other {q' : Nat} (apart : q' ≠ q) : (p.setQuery q r').queries q' = p.queries q' :=
    Function.update_of_ne apart ..
  constructor
  · intro s id q' held
    obtain ⟨r₀, before, here, this, unfinished, asked, live⟩ := sound.owned s id q' held
    by_cases same : q' = q
    · subst same
      cases found.symm.trans before
      refine ⟨r', own, sock.trans here, wire ▸ this, outcome.trans unfinished, wire ▸ asked, .inr ?_⟩
      refine ⟨?_, marked⟩
      rw [future]
      rcases live with waiting | stopped
      · rw [if_pos waiting]
      · rw [stopped.1]
        rfl
    · exact ⟨r₀, (other same).trans before, here, this, unfinished, asked, live⟩
  · intro q' r₀ held waiting
    by_cases same : q' = q
    · rw [same, own] at held
      cases held
      rw [future] at waiting
      split at waiting
      · cases waiting
      · next stopped => exact absurd waiting stopped
    · rw [other same] at held
      exact sound.waits q' r₀ held waiting
  · have before {q' : Nat} {r₀ : Query} (held : (p.setQuery q r').queries q' = some r₀) :
        ∃ r₁, p.queries q' = some r₁ ∧ r₁.sock = r₀.sock ∧ r₁.wire = r₀.wire ∧
          r₁.outcome = r₀.outcome := by
      by_cases same : q' = q
      · rw [same, own] at held
        cases held
        exact ⟨r, same ▸ found, sock.symm, wire.symm, outcome.symm⟩
      · rw [other same] at held
        exact ⟨r₀, held, rfl, rfl, rfl⟩
    intro q₁ q₂ r₁ r₂ held₁ held₂ unfinished₁ unfinished₂ here this
    obtain ⟨s₁, found₁, sock₁, wire₁, outcome₁⟩ := before held₁
    obtain ⟨s₂, found₂, sock₂, wire₂, outcome₂⟩ := before held₂
    exact sound.sole q₁ q₂ s₁ s₂ found₁ found₂ (outcome₁.trans unfinished₁) (outcome₂.trans unfinished₂)
      (by rw [sock₁, sock₂, here]) (by rw [wire₁, wire₂, this])
  · exact sound.held
  · exact sound.fresh
  · exact sound.known

/-- The futures that an exception reaches are those the socket holds. -/
theorem any_pending (p : Pool) (s q : Nat) :
    (p.sockets s).pending.entries.any (fun e => e.2 == q) = true ↔ ∃ id, p.pend s id = some q := by
  rw [List.any_eq_true]
  constructor
  · rintro ⟨e, held, same⟩
    exact ⟨e.1, Dict.get?_eq_some.mpr ⟨e, held, BEq.rfl, beq_iff_eq.mp same⟩⟩
  · rintro ⟨id, held⟩
    obtain ⟨e, listed, -, same⟩ := Dict.get?_eq_some.mp held
    exact ⟨e, listed, beq_iff_eq.mpr same⟩

theorem fail_eq_some {s q : Nat} {timeout : Bool} {r' : Query} :
    p.fail s timeout q = some r' ↔ ∃ r, p.queries q = some r ∧
      ((∃ id, p.pend s id = some q) ∧ r.future = .waiting ∧ r' = { r with future := .failed timeout } ∨
        ¬((∃ id, p.pend s id = some q) ∧ r.future = .waiting) ∧ r' = r) := by
  rw [fail, Option.map_eq_some_iff]
  refine exists_congr fun r => and_congr_right fun _ => ?_
  rw [← any_pending]
  by_cases hit : (p.sockets s).pending.entries.any (fun e => e.2 == q) = true ∧ r.future = .waiting
  · rw [if_pos (by simp [hit.1, hit.2])]
    exact ⟨fun same => .inl ⟨hit.1, hit.2, same.symm⟩,
      fun either => (either.resolve_right fun miss => miss.1 hit).2.2.symm⟩
  · rw [if_neg (by simpa using hit)]
    exact ⟨fun same => .inr ⟨hit, same.symm⟩,
      fun either => (either.resolve_left fun found => hit ⟨found.1, found.2.1⟩).2.symm⟩

/-- A socket loses all it holds, and what waited there fails. -/
theorem Sound.clear (sound : Sound p) (fewer : Fewer p p') {s : Nat} {timeout : Bool}
    (pend : ∀ id, p'.pend s id = none) (rej : ∀ id, p'.rej s id = none)
    (away : ∀ s' id, s' ≠ s → p'.pend s' id = p.pend s' id ∧ p'.ques s' id = p.ques s' id ∧
      p'.rej s' id = p.rej s' id) (queries : p'.queries = p.fail s timeout) : Sound p' := by
  constructor
  · intro s' id q held
    by_cases same : s' = s
    · rw [same, pend] at held
      cases held
    · obtain ⟨kept, asked, -⟩ := away s' id same
      rw [kept] at held
      rw [asked]
      obtain ⟨r, found, here, rest⟩ := sound.owned s' id q held
      refine ⟨r, ?_, here, rest⟩
      rw [queries, fail_eq_some]
      refine ⟨r, found, .inr ⟨?_, rfl⟩⟩
      rintro ⟨⟨id', other⟩, -⟩
      obtain ⟨r', again, there, -⟩ := sound.owned s id' q other
      cases found.symm.trans again
      exact same (here.symm.trans there)
  · intro q r found waiting
    rw [queries, fail_eq_some] at found
    obtain ⟨r₀, before, ⟨-, -, rfl⟩ | ⟨spared, rfl⟩⟩ := found
    · cases waiting
    · obtain ⟨unfinished, registered⟩ := sound.waits q r before waiting
      refine ⟨unfinished, ?_⟩
      by_cases same : r.sock = s
      · rw [Registered, same] at registered
        exact absurd ⟨⟨_, registered⟩, waiting⟩ spared
      · exact (away _ _ same).1.trans registered
  · have before {q : Nat} {r : Query} (found : p'.queries q = some r) : ∃ r₀, p.queries q = some r₀ ∧
        r₀.sock = r.sock ∧ r₀.wire = r.wire ∧ r₀.outcome = r.outcome := by
      rw [queries, fail_eq_some] at found
      obtain ⟨r₀, held, ⟨-, -, rfl⟩ | ⟨-, rfl⟩⟩ := found
      · exact ⟨r₀, held, rfl, rfl, rfl⟩
      · exact ⟨r, held, rfl, rfl, rfl⟩
    intro q₁ q₂ r₁ r₂ held₁ held₂ unfinished₁ unfinished₂ here this
    obtain ⟨s₁, found₁, sock₁, wire₁, outcome₁⟩ := before held₁
    obtain ⟨s₂, found₂, sock₂, wire₂, outcome₂⟩ := before held₂
    exact sound.sole q₁ q₂ s₁ s₂ found₁ found₂ (outcome₁.trans unfinished₁) (outcome₂.trans unfinished₂)
      (by rw [sock₁, sock₂, here]) (by rw [wire₁, wire₂, this])
  · intro s' id data q held
    by_cases same : s' = s
    · rw [same, rej] at held
      cases held
    · obtain ⟨kept, -, back⟩ := away s' id same
      rw [back] at held
      rw [kept]
      exact sound.held _ _ _ _ held
  · intro s' beyond id
    by_cases same : s' = s
    · rw [same]
      exact pend id
    · rw [fewer.opened] at beyond
      rw [(away s' id same).1]
      exact sound.fresh s' beyond id
  · exact sound.known_fewer fewer

/-! ### Each event -/

theorem away_of_socket {s : Nat} {id : UInt16} {socket : Socket}
    (sockets : p'.sockets = Function.update p.sockets s socket)
    (same : ∀ id', id' ≠ id → socket.pending.get? id' = p.pend s id' ∧
      socket.questions.get? id' = p.ques s id' ∧ socket.rejected.get? id' = p.rej s id') :
    Away p p' s id := by
  intro s' id' apart
  rw [pend, ques, rej, sockets]
  by_cases here : s' = s
  · subst here
    rw [Function.update_self]
    exact same id' (apart.resolve_left fun other => other rfl)
  · rw [Function.update_of_ne here]
    exact ⟨rfl, rfl, rfl⟩

/-- What a removed registration was: the one at the place that changed. -/
theorem removed_at {s : Nat} {id : UInt16} (away : Away p p' s id) {q : Nat} {r r' : Query}
    (registered : p.Registered q r) (gone : ¬p'.Registered q r') (sock : r'.sock = r.sock)
    (wire : r'.wire = r.wire) : r.sock = s ∧ txid r.wire = id := by
  by_contra apart
  rw [not_and_or] at apart
  refine gone ?_
  rw [Registered, sock, wire]
  exact (away _ _ apart).1.trans registered

/-- The place of a socket after the cleanup of an id. -/
theorem cleanup_at (socket : Socket) (id id' : UInt16) :
    (socket.cleanup id).pending.get? id' = (if id = id' then none else socket.pending.get? id') ∧
      (socket.cleanup id).questions.get? id' = (if id = id' then none else socket.questions.get? id') ∧
      (socket.cleanup id).rejected.get? id' = (if id = id' then none else socket.rejected.get? id') := by
  have forgotten : (socket.cleanup id).pending = socket.pending.erase id ∧
      (socket.cleanup id).questions = socket.questions.erase id ∧
      (socket.cleanup id).rejected = socket.rejected.erase id := by
    rw [Socket.cleanup]
    split <;> exact ⟨rfl, rfl, rfl⟩
  rw [forgotten.1, forgotten.2.1, forgotten.2.2, Dict.get?_erase_eq, Dict.get?_erase_eq, Dict.get?_erase_eq]
  exact ⟨rfl, rfl, rfl⟩

theorem fewer_begins (p : Pool) (q : Nat) (wire : Octets) (s : Nat) (sent : Bool) :
    Fewer p (p.begins q wire s sent) := by
  have socks : ∀ t ∈ (if decide ((p.sockets s).left - 1 ≤ 0) = true then p.socks.erase s else p.socks),
      t ∈ p.socks := by
    intro t held
    split at held
    · exact List.mem_of_mem_erase held
    · exact held
  rw [begins]
  cases sent <;> exact ⟨rfl, rfl, socks⟩

theorem steps_begins (sound : Sound p) {q : Nat} {wire : Octets} {s : Nat} {sent : Bool}
    (clean : p.Clean (.begins q wire s sent)) (taken : p.step (.begins q wire s sent) = some p') :
    Sound p' ∧ Dispatched p (.begins q wire s sent) p' := by
  rw [step] at taken
  split at taken
  · next able =>
      cases taken
      obtain ⟨listed, new, free⟩ := able
      change p.pend s (txid wire) = none at free
      have inside := sound.known s (.inl listed)
      have fewer := fewer_begins p q wire s sent
      have rejected : p.rej s (txid wire) = none := by
        cases held : p.rej s (txid wire) with
        | none => rfl
        | some stray =>
            have := sound.held s (txid wire) stray.1 stray.2 held
            rw [free] at this
            cases this
      have other {q' : Nat} {r : Query} (found : p.queries q' = some r) : q' ≠ q := by
        rintro rfl
        rw [new] at found
        cases found
      have kept (away : Away p (p.begins q wire s sent) s (txid wire))
          (queries : ∀ q', q' ≠ q → (p.begins q wire s sent).queries q' = p.queries q') :
          Dispatched p (.begins q wire s sent) (p.begins q wire s sent) := by
        refine ⟨nofun, nofun, ?_, nofun⟩
        intro q' r r' found registered after gone
        rw [queries q' (other found), found] at after
        cases after
        obtain ⟨here, this⟩ := removed_at away registered gone rfl rfl
        rw [Registered, here, this, free] at registered
        cases registered
      have place (id : UInt16) (apart : id ≠ txid wire) := And.intro
        ((Dict.get?_set_eq (p.sockets s).pending (txid wire) id q).trans (if_neg apart.symm))
        ((Dict.get?_set_eq (p.sockets s).questions (txid wire) id (questionOf wire)).trans
          (if_neg apart.symm))
      cases sent with
      | true =>
          have away : Away p (p.begins q wire s true) s (txid wire) :=
            away_of_socket rfl fun id apart => ⟨(place id apart).1, (place id apart).2, rfl⟩
          have here : (p.begins q wire s true).sockets s = _ := Function.update_self ..
          refine ⟨sound.register fewer new inside free clean ?_ ?_ ?_ away rfl,
            kept away fun q' apart => Function.update_of_ne apart ..⟩
          · rw [pend, here]
            exact (Dict.get?_set_eq (p.sockets s).pending _ _ q).trans (if_pos rfl)
          · rw [ques, here]
            exact (Dict.get?_set_eq (p.sockets s).questions _ _ _).trans (if_pos rfl)
          · rw [rej, here]
            rfl
      | false =>
          have at' (id : UInt16) := cleanup_at (((p.begins q wire s true).sockets s)) (txid wire) id
          have here : (p.begins q wire s false).sockets s =
              ((p.begins q wire s true).sockets s).cleanup (txid wire) := by
            rw [show (p.begins q wire s true).sockets s = _ from Function.update_self ..]
            exact Function.update_self ..
          have away : Away p (p.begins q wire s false) s (txid wire) := by
            refine away_of_socket rfl fun id apart => ?_
            exact ⟨((cleanup_at _ _ id).1.trans (if_neg apart.symm)).trans (place id apart).1,
              ((cleanup_at _ _ id).2.1.trans (if_neg apart.symm)).trans (place id apart).2,
              (cleanup_at _ _ id).2.2.trans (if_neg apart.symm)⟩
          refine ⟨sound.drop fewer ?_ ?_ (fun waiting => by cases waiting) ?_ ?_ away rfl ?_,
            kept away fun q' apart => Function.update_of_ne apart ..⟩
          · intro q' held
            rw [free] at held
            cases held
          · intro _ _ _ _ _ unfinished
            cases unfinished
          · rw [pend, here]
            exact (at' _).1.trans (if_pos rfl)
          · rw [rej, here]
            exact (at' _).2.2.trans (if_pos rfl)
          · intro s' id' held
            obtain ⟨r, found, -⟩ := sound.owned s' id' q held
            rw [new] at found
            cases found
  · cases taken

/-- The handler drops the datagram, completes the query that the id stands for, or holds the
datagram back for it. -/
theorem datagram_cases (sound : Sound p) (s : Nat) (data : Octets) :
    (p.datagram s data = p ∧ ∀ q r, p.queries q = some r → r.sock = s → r.future = .waiting →
      ¬Matches r.wire data) ∨
    ∃ q r, p.pend s (txid data) = some q ∧ p.queries q = some r ∧ r.sock = s ∧
      txid r.wire = txid data ∧ r.future = .waiting ∧ 12 ≤ data.length ∧
      ((answersQuestion (questionOf r.wire) data = true ∧ p.datagram s data =
          (p.setSocket s ((p.sockets s).forget (txid data))).setQuery q
            { r with future := .result data }) ∨
        (answersQuestion (questionOf r.wire) data = false ∧ p.datagram s data =
          p.setSocket s { p.sockets s with
            rejected := (p.sockets s).rejected.setDefault (txid data) (data, q) })) := by
  by_cases short : data.length < 12
  · refine .inl ⟨by rw [datagram, if_pos short], fun q r _ _ _ fits => ?_⟩
    have := fits.1
    omega
  · cases held : p.pend s (txid data) with
    | none =>
        refine .inl ⟨?_, ?_⟩
        · rw [datagram, if_neg short]
          rw [pend] at held
          rw [held]
        · intro q r found here waiting fits
          have := (sound.waits q r found waiting).2
          rw [Registered, here, ← fits.2.1, held] at this
          cases this
    | some q =>
        obtain ⟨r, found, here, this, -, asked, -⟩ := sound.owned s (txid data) q held
        have reads : p.datagram s data = if r.future ≠ .waiting then p
            else if answersQuestion (questionOf r.wire) data then
              (p.setSocket s ((p.sockets s).forget (txid data))).setQuery q
                { r with future := .result data }
            else p.setSocket s { p.sockets s with
              rejected := (p.sockets s).rejected.setDefault (txid data) (data, q) } := by
          rw [datagram, if_neg short]
          rw [pend] at held
          rw [ques] at asked
          simp only [held, found, asked, Option.getD_some]
        by_cases waiting : r.future = .waiting
        · rw [if_neg (not_not.mpr waiting)] at reads
          refine .inr ⟨q, r, rfl, found, here, this, waiting, by omega, ?_⟩
          cases fits : answersQuestion (questionOf r.wire) data with
          | true =>
              rw [fits, if_pos rfl] at reads
              exact .inl ⟨rfl, reads⟩
          | false =>
              rw [fits, if_neg Bool.false_ne_true] at reads
              exact .inr ⟨rfl, reads⟩
        · rw [if_pos waiting] at reads
          refine .inl ⟨reads, fun q' r' found' here' waiting' fits => ?_⟩
          have registered := (sound.waits q' r' found' waiting').2
          rw [Registered, here', ← fits.2.1, held] at registered
          cases registered
          cases found.symm.trans found'
          exact waiting waiting'

theorem steps_datagram (sound : Sound p) {s : Nat} {data : Octets}
    (taken : p.step (.datagram s data) = some p') : Sound p' ∧ Dispatched p (.datagram s data) p' := by
  rw [step] at taken
  split at taken
  · cases taken
  · cases taken
    rcases datagram_cases sound s data with ⟨same, missed⟩ |
      ⟨q, r, held, found, here, this, waiting, long, ⟨fits, reads⟩ | ⟨fits, reads⟩⟩
    · rw [same]
      refine ⟨sound, ?_, ?_, ?_, nofun⟩
      · intro s' data' q r event found here waiting fits
        cases event
        exact absurd fits (missed q r found here waiting)
      · intro s' data' q r _ found changed
        exact absurd found changed
      · intro q r r' found registered after gone
        cases found.symm.trans after
        exact absurd registered gone
    · have away : Away p (p.datagram s data) s (txid data) := by
        refine away_of_socket (by rw [reads]; rfl) fun id apart => ?_
        exact ⟨(Dict.get?_erase_eq ..).trans (if_neg apart.symm), (Dict.get?_erase_eq ..).trans (if_neg apart.symm),
          (Dict.get?_erase_eq ..).trans (if_neg apart.symm)⟩
      have queries : (p.datagram s data).queries =
          Function.update p.queries q (some { r with future := .result data }) := by rw [reads]; rfl
      have socket : (p.datagram s data).sockets s = (p.sockets s).forget (txid data) := by
        rw [reads]
        exact Function.update_self ..
      have fewer : Fewer p (p.datagram s data) := by
        rw [reads]
        exact ⟨rfl, rfl, fun _ held => held⟩
      have only {q' : Nat} {r' : Query} (found' : p.queries q' = some r')
          (changed : (p.datagram s data).queries q' ≠ some r') : q' = q := by
        by_contra apart
        rw [queries, Function.update_of_ne apart] at changed
        exact changed found'
      refine ⟨sound.drop fewer ?_ ?_ ?_ ?_ ?_ away queries ?_,
        ?_, ?_, ?_, nofun⟩
      · intro q' held'
        exact (Option.some.inj (held.symm.trans held')).symm
      · intro q' r' found' apart unfinished' unfinished sock wire
        exact apart (sound.sole q' q r' r found' found unfinished' unfinished sock wire)
      · exact fun waiting => by cases waiting
      · rw [pend, socket]
        exact (Dict.get?_erase_eq ..).trans (if_pos rfl)
      · rw [rej, socket]
        exact (Dict.get?_erase_eq ..).trans (if_pos rfl)
      · intro s' id' held'
        obtain ⟨r', found', here', this', -⟩ := sound.owned s' id' q held'
        cases found.symm.trans found'
        exact ⟨here'.symm.trans here, this'.symm.trans this⟩
      · intro s' data' q' r' event found' here' waiting' fits'
        cases event
        have registered := (sound.waits q' r' found' waiting').2
        rw [Registered, here', ← fits'.2.1, held] at registered
        cases registered
        cases found.symm.trans found'
        exact queries
      · intro s' data' q' r' event found' changed
        cases event
        cases only found' changed
        cases found.symm.trans found'
        exact ⟨here, waiting, long, this.symm, fits⟩
      · intro q' r' r'' found' registered after gone
        by_cases same : q' = q
        · subst same
          cases found.symm.trans found'
          rw [queries, Function.update_self] at after
          cases after
          exact .inl ⟨data, by rw [here], rfl⟩
        · rw [queries, Function.update_of_ne same] at after
          cases found'.symm.trans after
          obtain ⟨there, that⟩ := removed_at away registered gone rfl rfl
          rw [Registered, there, that, held] at registered
          exact absurd (Option.some.inj registered).symm same
    · have sockets (s' : Nat) : s' ≠ s → (p.datagram s data).sockets s' = p.sockets s' := by
        intro apart
        rw [reads]
        exact Function.update_of_ne apart ..
      have socket : (p.datagram s data).sockets s = { p.sockets s with
          rejected := (p.sockets s).rejected.setDefault (txid data) (data, q) } := by
        rw [reads]
        exact Function.update_self ..
      have queries : (p.datagram s data).queries = p.queries := by rw [reads]; rfl
      have pends (s' : Nat) (id : UInt16) : (p.datagram s data).pend s' id = p.pend s' id ∧
          (p.datagram s data).ques s' id = p.ques s' id := by
        by_cases same : s' = s
        · rw [same, pend, ques, socket]
          exact ⟨rfl, rfl⟩
        · rw [pend, ques, sockets s' same]
          exact ⟨rfl, rfl⟩
      have back : ∀ s' id data' q', (p.datagram s data).rej s' id = some (data', q') →
          p.pend s' id = some q' := by
        intro s' id data' q' held'
        rw [rej] at held'
        by_cases same : s' = s
        · rw [same, socket] at held'
          rw [same]
          have chosen := (Dict.get?_setDefault ..).symm.trans held'
          split at chosen
          · next this =>
              rw [← beq_iff_eq.mp this] at chosen ⊢
              cases before : p.rej s (txid data) with
              | none =>
                  rw [rej] at before
                  rw [before] at chosen
                  cases chosen
                  exact held
              | some stray =>
                  have := sound.held s (txid data) stray.1 stray.2 before
                  rw [rej] at before
                  rw [before] at chosen
                  cases chosen
                  exact this
          · exact sound.held s id data' q' chosen
        · rw [sockets s' same] at held'
          exact sound.held s' id data' q' held'
      refine ⟨sound.tables (fun s' id => (pends s' id).1) (fun s' id _ _ => (pends s' id).2) queries back ?_ ?_,
        ?_, ?_, ?_, nofun⟩
      · rw [reads]
        exact Nat.le_refl _
      · rw [reads]
        exact sound.known
      · intro s' data' q' r' event found' here' waiting' fits'
        cases event
        have registered := (sound.waits q' r' found' waiting').2
        rw [Registered, here', ← fits'.2.1, held] at registered
        cases registered
        cases found.symm.trans found'
        rw [fits'.2.2] at fits
        cases fits
      · intro s' data' q' r' _ found' changed
        rw [queries] at changed
        exact absurd found' changed
      · intro q' r' r'' found' registered after gone
        rw [queries] at after
        cases found'.symm.trans after
        exact absurd ((pends _ _).1.trans registered) gone

/-- Where no datagram arrives and no task goes on, registrations that stay are all there is. -/
theorem Dispatched.of_kept {e : Event} (arrives : ∀ s data, e ≠ .datagram s data)
    (resumed : ∀ q late, e ≠ .resumes q late)
    (kept : ∀ q r r', p.queries q = some r → p.Registered q r → p'.queries q = some r' →
      p'.Registered q r') : Dispatched p e p' where
  delivered s data _ _ event := absurd event (arrives s data)
  matched s data _ _ event := absurd event (arrives s data)
  removed q r r' found registered after gone := absurd (kept q r r' found registered after) gone
  held q late _ _ _ event := absurd event (resumed q late)

theorem kept_setQuery {q : Nat} {r r' : Query} (found : p.queries q = some r) (sock : r'.sock = r.sock)
    (wire : r'.wire = r.wire) (q₀ : Nat) (r₀ r₁ : Query) (before : p.queries q₀ = some r₀)
    (registered : p.Registered q₀ r₀) (after : (p.setQuery q r').queries q₀ = some r₁) :
    (p.setQuery q r').Registered q₀ r₁ := by
  by_cases same : q₀ = q
  · subst same
    cases found.symm.trans before
    cases (Function.update_self ..).symm.trans after
    rw [Registered, sock, wire]
    exact registered
  · cases before.symm.trans ((Function.update_of_ne same ..).symm.trans after)
    exact registered

theorem steps_expires (sound : Sound p) {q : Nat} (taken : p.step (.expires q) = some p') :
    Sound p' ∧ Dispatched p (.expires q) p' := by
  obtain ⟨r, found, taken⟩ := Option.bind_eq_some_iff.mp taken
  split at taken
  · cases taken
    exact ⟨sound.stop found rfl rfl rfl (.inl rfl) rfl,
      .of_kept nofun nofun (kept_setQuery found rfl rfl)⟩
  · cases taken

theorem steps_cancels (sound : Sound p) {q : Nat} (taken : p.step (.cancels q) = some p') :
    Sound p' ∧ Dispatched p (.cancels q) p' := by
  obtain ⟨r, found, taken⟩ := Option.bind_eq_some_iff.mp taken
  split at taken
  · cases taken
    exact ⟨sound.stop found rfl rfl rfl (.inr rfl) rfl,
      .of_kept nofun nofun (kept_setQuery found rfl rfl)⟩
  · cases taken

theorem steps_resumes (sound : Sound p) {q : Nat} {late : Bool}
    (taken : p.step (.resumes q late) = some p') : Sound p' ∧ Dispatched p (.resumes q late) p' := by
  obtain ⟨r, found, taken⟩ := Option.bind_eq_some_iff.mp taken
  split at taken
  · next able =>
      obtain ⟨unfinished, stopped, -⟩ := able
      have sole (q' : Nat) (held : p.pend r.sock (txid r.wire) = some q') : q' = q := by
        obtain ⟨r', found', here, this, unfinished', -⟩ := sound.owned _ _ q' held
        exact sound.sole q' q r' r found' found unfinished' unfinished here this
      have outcome (data : Octets) (holder : Nat) (stray : p.waited r late = .stray data holder) :
          holder = q := by
        rw [waited] at stray
        split at stray
        · split at stray
          · cases stray
          · next back =>
              cases stray
              exact sole holder (sound.held _ _ _ _ back)
        · split at stray <;> cases stray
      injection taken with taken
      have queries : p'.queries =
          Function.update p.queries q (some { r with outcome := some (p.waited r late) }) := by
        rw [← taken]
        rfl
      have sockets : p'.sockets = Function.update p.sockets r.sock
          ((p.sockets r.sock).cleanup (txid r.wire)) := by
        rw [← taken]
        rfl
      have away : Away p p' r.sock (txid r.wire) := by
        refine away_of_socket sockets fun id apart => ?_
        obtain ⟨pends, asks, backs⟩ := cleanup_at (p.sockets r.sock) (txid r.wire) id
        exact ⟨pends.trans (if_neg apart.symm), asks.trans (if_neg apart.symm),
          backs.trans (if_neg apart.symm)⟩
      obtain ⟨pends, -, backs⟩ := cleanup_at (p.sockets r.sock) (txid r.wire) (txid r.wire)
      have fewer : Fewer p p' := by
        rw [← taken]
        exact ⟨rfl, rfl, fun _ held => held⟩
      refine ⟨sound.drop (r := { r with outcome := some (p.waited r late) }) fewer sole ?_ stopped
        ?_ ?_ away queries ?_, nofun, nofun, ?_, ?_⟩
      · intro _ _ _ _ _ unfinished'
        cases unfinished'
      · rw [pend, sockets, Function.update_self]
        exact pends.trans (if_pos rfl)
      · rw [rej, sockets, Function.update_self]
        exact backs.trans (if_pos rfl)
      · intro s' id' held
        obtain ⟨r', found', here, this, -⟩ := sound.owned s' id' q held
        cases found.symm.trans found'
        exact ⟨here.symm, this.symm⟩
      · intro q' r' r'' found' registered after gone
        by_cases same : q' = q
        · subst same
          cases found.symm.trans found'
          obtain ⟨r₀, again, -, -, -, -, live⟩ := sound.owned _ _ q' registered
          cases found.symm.trans again
          exact .inr (.inl ⟨late, rfl, (live.resolve_left stopped).2⟩)
        · rw [queries, Function.update_of_ne same] at after
          cases found'.symm.trans after
          obtain ⟨here, this⟩ := removed_at away registered gone rfl rfl
          rw [Registered, here, this] at registered
          exact absurd (sole q' registered) same
      · intro q' late' r' data holder event after stray
        cases event
        rw [queries, Function.update_self] at after
        cases after
        exact outcome data holder (Option.some.inj stray)
  · cases taken

theorem fewer_lost (p : Pool) (s : Nat) (socket : Socket) (queries : Nat → Option Query) :
    Fewer p { p.setSocket s socket with
      socks := if (p.sockets s).pooled then p.socks.erase s else p.socks, queries } := by
  refine ⟨rfl, rfl, fun t held => ?_⟩
  change t ∈ ite _ _ _ at held
  split at held
  · exact List.mem_of_mem_erase held
  · exact held

/-- All that the socket holds is gone, and nothing elsewhere. -/
theorem cleared_at {s : Nat} {socket : Socket} (sockets : p'.sockets = Function.update p.sockets s socket)
    (empty : socket.pending = .empty ∧ socket.rejected = .empty) :
    (∀ id, p'.pend s id = none) ∧ (∀ id, p'.rej s id = none) ∧
      ∀ s' id, s' ≠ s → p'.pend s' id = p.pend s' id ∧ p'.ques s' id = p.ques s' id ∧
        p'.rej s' id = p.rej s' id := by
  refine ⟨fun id => ?_, fun id => ?_, fun s' id apart => ?_⟩
  · rw [pend, sockets, Function.update_self, empty.1]
    rfl
  · rw [rej, sockets, Function.update_self, empty.2]
    rfl
  · rw [pend, ques, rej, sockets, Function.update_of_ne apart]
    exact ⟨rfl, rfl, rfl⟩

/-- A registration that went with its socket was for a query that has failed. -/
theorem removed_cleared {s : Nat} {timeout : Bool}
    (away : ∀ s' id, s' ≠ s → p'.pend s' id = p.pend s' id) (queries : p'.queries = p.fail s timeout)
    {q : Nat} {r r' : Query} (found : p.queries q = some r) (registered : p.Registered q r)
    (after : p'.queries q = some r') (gone : ¬p'.Registered q r') :
    r.sock = s ∧ r'.future ≠ .waiting := by
  rw [queries, fail_eq_some] at after
  obtain ⟨r₀, again, either⟩ := after
  cases found.symm.trans again
  have here : r.sock = s := by
    by_contra apart
    have same : r'.sock = r.sock ∧ r'.wire = r.wire := by
      rcases either with ⟨-, -, rfl⟩ | ⟨-, rfl⟩ <;> exact ⟨rfl, rfl⟩
    refine gone ?_
    rw [Registered, same.1, same.2]
    exact (away _ _ apart).trans registered
  refine ⟨here, ?_⟩
  rcases either with ⟨-, -, rfl⟩ | ⟨spared, rfl⟩
  · exact fun waiting => by cases waiting
  · subst here
    exact fun waiting => spared ⟨⟨_, registered⟩, waiting⟩

theorem steps_lost (sound : Sound p) {s : Nat} (taken : p.step (.lost s) = some p') :
    Sound p' ∧ Dispatched p (.lost s) p' := by
  cases taken
  have sockets : ({ p.setSocket s { (p.sockets s).clear with closed := true } with
      socks := if (p.sockets s).pooled then p.socks.erase s else p.socks
      queries := p.fail s false } : Pool).sockets = _ := rfl
  obtain ⟨pends, backs, away⟩ := cleared_at sockets ⟨rfl, rfl⟩
  refine ⟨sound.clear (fewer_lost ..) pends backs away rfl, nofun, nofun, ?_, nofun⟩
  intro q r r' found registered after gone
  obtain ⟨rfl, -⟩ := removed_cleared (fun s' id apart => (away s' id apart).1) rfl found registered
    after gone
  exact .inr (.inr (.inl rfl))

theorem steps_errs (sound : Sound p) {s : Nat} {timeout : Bool}
    (taken : p.step (.errs s timeout) = some p') : Sound p' ∧ Dispatched p (.errs s timeout) p' := by
  cases taken
  have sockets : ({ p.setSocket s (p.sockets s).clear with queries := p.fail s timeout } : Pool).sockets =
      _ := rfl
  obtain ⟨pends, backs, away⟩ := cleared_at sockets ⟨rfl, rfl⟩
  refine ⟨sound.clear ⟨rfl, rfl, fun _ held => held⟩ pends backs away rfl, nofun, nofun, ?_, nofun⟩
  intro q r r' found registered after gone
  obtain ⟨rfl, failed⟩ := removed_cleared (fun s' id apart => (away s' id apart).1) rfl found registered
    after gone
  exact .inr (.inr (.inr ⟨timeout, rfl, failed⟩))

/-- The pool takes up sockets, and nothing is registered anew. -/
theorem steps_ensure (sound : Sound p) {e : Event}
    (either : e = .refills ∨ (∃ lifetime, e = .opens lifetime) ∨ e = .caps ∨ e = .refilled)
    (taken : p.step e = some p') : Sound p' ∧ Dispatched p e p' := by
  have lists (pend : ∀ s id, p'.pend s id = p.pend s id)
      (ques : ∀ s id q, p.pend s id = some q → p'.ques s id = p.ques s id)
      (queries : p'.queries = p.queries)
      (rej : ∀ s id data q, p'.rej s id = some (data, q) → p.pend s id = some q)
      (opened : p.opened ≤ p'.opened)
      (known : ∀ s, s ∈ p'.socks ∨ (∃ socks, p'.refill = some socks ∧ s ∈ socks) → s < p'.opened) :
      Sound p' ∧ Dispatched p e p' := by
    refine ⟨sound.tables pend ques queries rej opened known, .of_kept ?_ ?_ ?_⟩
    · rintro s data rfl
      rcases either with event | ⟨_, event⟩ | event | event <;> cases event
    · rintro q late rfl
      rcases either with event | ⟨_, event⟩ | event | event <;> cases event
    · intro q r r' found registered after
      rw [queries] at after
      cases found.symm.trans after
      exact (pend _ _).trans registered
  rcases either with rfl | ⟨lifetime, rfl⟩ | rfl | rfl
  · rw [step] at taken
    split at taken
    · cases taken
      refine lists (fun _ _ => rfl) (fun _ _ _ _ => rfl) rfl sound.held (Nat.le_refl _) ?_
      rintro s (held | ⟨socks, same, held⟩)
      · exact sound.known s (.inl held)
      · cases same
        exact sound.known s (.inl held)
    · cases taken
  · obtain ⟨socks, found, taken⟩ := Option.bind_eq_some_iff.mp taken
    cases taken
    have pends (s : Nat) (id : UInt16) :
        (p.setSocket p.opened { left := lifetime }).pend s id = p.pend s id := by
      by_cases same : s = p.opened
      · subst same
        rw [sound.fresh _ (Nat.le_refl _), pend, setSocket_self]
        rfl
      · rw [pend, setSocket_other p same, pend]
    refine lists pends ?_ rfl ?_ (Nat.le_succ _) ?_
    · intro s id q held
      have same : s ≠ p.opened := by
        rintro rfl
        rw [sound.fresh _ (Nat.le_refl _)] at held
        cases held
      change (p.setSocket p.opened _).ques s id = _
      rw [ques, setSocket_other p same, ques]
    · intro s id data q held
      change (p.setSocket p.opened _).rej s id = _ at held
      by_cases same : s = p.opened
      · rw [same, rej, setSocket_self] at held
        cases held
      · rw [rej, setSocket_other p same] at held
        exact sound.held s id data q held
    · rintro s (held | ⟨socks', same, held⟩)
      · exact Nat.lt_succ_of_lt (sound.known s (.inl held))
      · cases same
        rcases List.mem_append.mp held with before | new
        · exact Nat.lt_succ_of_lt (sound.known s (.inr ⟨socks, found, before⟩))
        · rw [List.mem_singleton.mp new]
          exact Nat.lt_succ_self _
  · obtain ⟨socks, found, taken⟩ := Option.bind_eq_some_iff.mp taken
    split at taken
    · cases taken
      refine lists (fun _ _ => rfl) (fun _ _ _ _ => rfl) rfl sound.held (Nat.le_refl _) ?_
      rintro s (held | ⟨socks', same, -⟩)
      · exact sound.known s (.inl held)
      · cases same
    · cases taken
      exact lists (fun _ _ => rfl) (fun _ _ _ _ => rfl) rfl sound.held (Nat.le_refl _) sound.known
  · obtain ⟨socks, found, taken⟩ := Option.bind_eq_some_iff.mp taken
    cases taken
    refine lists (fun _ _ => rfl) (fun _ _ _ _ => rfl) rfl sound.held (Nat.le_refl _) ?_
    rintro s (held | ⟨socks', same, -⟩)
    · exact sound.known s (.inr ⟨socks, found, held⟩)
    · cases same

/-- What one event keeps, and does. -/
theorem Sound.step (sound : Sound p) {e : Event} (clean : p.Clean e) (taken : p.step e = some p') :
    Sound p' ∧ Dispatched p e p' := by
  cases e with
  | begins q wire s sent => exact steps_begins sound clean taken
  | datagram s data => exact steps_datagram sound taken
  | expires q => exact steps_expires sound taken
  | cancels q => exact steps_cancels sound taken
  | resumes q late => exact steps_resumes sound taken
  | lost s => exact steps_lost sound taken
  | errs s timeout => exact steps_errs sound taken
  | refills => exact steps_ensure sound (.inl rfl) taken
  | opens lifetime => exact steps_ensure sound (.inr (.inl ⟨_, rfl⟩)) taken
  | caps => exact steps_ensure sound (.inr (.inr (.inl rfl))) taken
  | refilled => exact steps_ensure sound (.inr (.inr (.inr rfl))) taken

/-- A task whose future is done can go on, and its cleanup takes what is held for its id. -/
theorem resumes_taken {q : Nat} {r : Query} (found : p.queries q = some r) (unfinished : r.outcome = none)
    (stopped : r.future ≠ .waiting) : ∃ p', p.step (.resumes q false) = some p' ∧
      p'.pend r.sock (txid r.wire) = none ∧ ∀ q', q' ≠ q → p'.queries q' = p.queries q' := by
  refine ⟨(p.setSocket r.sock ((p.sockets r.sock).cleanup (txid r.wire))).setQuery q
    { r with outcome := some (p.waited r false) }, ?_, ?_, fun q' apart => Function.update_of_ne apart ..⟩
  · rw [Pool.step, found]
    exact if_pos ⟨unfinished, stopped, nofun⟩
  · change (p.setSocket _ _).pend _ _ = none
    rw [pend, setSocket_self]
    exact (cleanup_at ..).1.trans (if_pos rfl)

/-- A query that takes an id too early is struck off when the earlier one goes on. -/
theorem undispatched (sound : Sound p) {e : Event} (unclean : ¬p.Clean e) (taken : p.step e = some p') :
    ∃ q p'', p'.step (.resumes q false) = some p'' ∧ ¬Dispatched p' (.resumes q false) p'' := by
  cases e with
  | begins q wire s sent =>
      cases sent with
      | false => exact absurd trivial unclean
      | true =>
          rw [Pool.step] at taken
          split at taken
          · next able =>
              cases taken
              obtain ⟨-, new, free⟩ := able
              rw [Clean] at unclean
              push Not at unclean
              obtain ⟨q₀, r₀, found, here, same, unfinished⟩ := unclean
              have stopped : r₀.future ≠ .waiting := by
                intro waiting
                have := (sound.waits q₀ r₀ found waiting).2
                rw [Registered, here, same, pend, free] at this
                cases this
              have apart : q₀ ≠ q := by
                rintro rfl
                rw [new] at found
                cases found
              have before : (p.begins q wire s true).queries q₀ = some r₀ :=
                (Function.update_of_ne apart ..).trans found
              have own : (p.begins q wire s true).queries q = some { wire, sock := s } :=
                Function.update_self ..
              have registered : (p.begins q wire s true).Registered q { wire, sock := s } := by
                rw [Registered, pend, show (p.begins q wire s true).sockets s = _ from
                  Function.update_self ..]
                exact (Dict.get?_set_eq (p.sockets s).pending _ _ q).trans (if_pos rfl)
              obtain ⟨p'', going, gone, others⟩ := resumes_taken before unfinished stopped
              refine ⟨q₀, p'', going, fun fine => ?_⟩
              rcases fine.removed q _ _ own registered ((others q apart.symm).trans own)
                  (by rw [Registered, ← here, ← same, gone]; nofun) with
                ⟨_, event, -⟩ | ⟨_, event, -⟩ | event | ⟨_, event, -⟩
              · cases event
              · injection event with event
                exact apart event
              · cases event
              · cases event
          · cases taken
  | _ => exact absurd trivial unclean

end

/-- Where every query that takes an id finds the earlier ones cleaned up, each datagram completes
the query that it answers and no other, registrations go only with their own query or the socket,
and no query is handed what was held back for another. -/
theorem dispatched_of_clean {size : Nat} {steps : List (Machine.Step Pool Event)}
    (run : Machine.Run Pool.step (.initial size) steps)
    (clean : ∀ t ∈ steps, t.before.Clean t.event) : ∀ t ∈ steps, Dispatched t.before t.event t.after := by
  intro t taken
  have kept := Machine.Run.invariant Clean Dispatched (fun sound => sound.step) run
    (sound_initial size) clean
  exact (kept t taken).2

/-! ### One socket and one id -/

/-- A question for `a.`, with an id of 7. -/
def asks : Octets := [0, 7, 1, 0, 0, 1, 0, 0, 0, 0, 0, 0, 1, 97, 0, 0, 1, 0, 1]

/-- One socket, a query that is answered and done, and one more. -/
def inTurn : List Event :=
  [.refills, .opens 9, .refilled, .begins 0 asks 0 true, .datagram 0 asks, .resumes 0 false,
    .begins 1 asks 0 true]

theorem inTurn_dispatched : (Machine.follow Pool.step (.initial 1) inTurn).length = 7 ∧
    ∀ t ∈ Machine.follow Pool.step (.initial 1) inTurn, Dispatched t.before t.event t.after := by
  refine ⟨by decide +kernel, dispatched_of_clean (Machine.run_follow _ _ _) ?_⟩
  refine List.forall_mem_cons.mpr ⟨trivial, ?_⟩
  refine List.forall_mem_cons.mpr ⟨trivial, ?_⟩
  refine List.forall_mem_cons.mpr ⟨trivial, ?_⟩
  refine List.forall_mem_cons.mpr ⟨nofun, ?_⟩
  refine List.forall_mem_cons.mpr ⟨trivial, ?_⟩
  refine List.forall_mem_cons.mpr ⟨trivial, ?_⟩
  refine List.forall_mem_cons.mpr ⟨fun q r found _ _ => ?_, nofun⟩
  cases q with
  | zero =>
      cases found
      exact nofun
  | succ q => cases found

/-- The same, but that the first task goes on after the second query began. -/
def overtaken : List Event :=
  [.refills, .opens 9, .refilled, .begins 0 asks 0 true, .datagram 0 asks, .begins 1 asks 0 true,
    .resumes 0 false]

/-- The second query is struck off by the cleanup of the first. -/
theorem overtaken_undispatched : ¬∀ (size : Nat) (steps : List (Machine.Step Pool Event)),
    Machine.Run Pool.step (.initial size) steps → ∀ t ∈ steps, Dispatched t.before t.event t.after := by
  intro all
  have taken := List.getElem_mem (l := Machine.follow Pool.step (.initial 1) overtaken) (n := 6)
    (by decide +kernel)
  have fine := all 1 _ (Machine.run_follow _ _ _) _ taken
  have registered : (Machine.follow Pool.step (.initial 1) overtaken)[6].before.Registered 1
      { wire := asks, sock := 0 } := by decide +kernel
  rcases fine.removed 1 { wire := asks, sock := 0 } { wire := asks, sock := 0 } (by decide +kernel)
      registered (by decide +kernel) (by decide +kernel) with
    ⟨_, event, -⟩ | ⟨_, event, -⟩ | event | ⟨_, event, -⟩
  · cases event
  · cases event
  · cases event
  · cases event

end Pool

end Trench.Transport
