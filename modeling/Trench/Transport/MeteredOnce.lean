import Mathlib
import Trench.Transport.Metering
import Trench.Engine.Replay

set_option autoImplicit false

/- How many tokens a query costs. -/
namespace Trench.Transport.Metering

open Wire Engine Engine.FastPath

namespace Server

section

variable {π δ : Type} [DecidableEq π] {s : Settings π} {g : Gates δ} {v v' : Server π δ}

/-- What the limiter does not see of a change. -/
structure Apart (v v' : Server π δ) : Prop where
  now : v'.world.now = v.world.now
  waiting : v'.waiting = v.waiting
  arrived : v'.arrived = v.arrived
  limiter : v'.limiter = v.limiter
  took : v'.took = v.took
  asked : v'.asked = v.asked

theorem lookup_apart {data : Octets} {clientIp : Text} {f : Option Found}
    (found : v.lookup s g data clientIp = (f, v')) : Apart v v' := by
  rw [lookup] at found
  split at found
  · cases found
    exact ⟨rfl, rfl, rfl, rfl, rfl, rfl⟩
  · split at found
    · cases found
      exact ⟨rfl, rfl, rfl, rfl, rfl, rfl⟩
    · dsimp only at found
      split at found
      · cases found
        exact ⟨rfl, rfl, rfl, rfl, rfl, rfl⟩
      · split at found
        · cases found
          exact ⟨rfl, rfl, rfl, rfl, rfl, rfl⟩
        · cases found
          exact ⟨rfl, rfl, rfl, rfl, rfl, rfl⟩

theorem replayed_apart {f : Found} {data : Octets} {clientIp : Text} :
    Apart v (v.replayed s f data clientIp).2 := ⟨rfl, rfl, rfl, rfl, rfl, rfl⟩

theorem parses_of_isNone_replayed {f : Found} {data : Octets} {clientIp : Text}
    (none : (v.replayed s f data clientIp).1 = none) : parses data = false := by
  rw [replayed] at none
  dsimp only at none
  split at none
  · next raises =>
      rw [Bool.and_eq_true, Bool.not_eq_true'] at raises
      exact raises.2
  · cases none

/-- What is looked up is what the table would serve. -/
theorem serve_of_lookup {data : Octets} {clientIp : Text} {f : Found}
    (found : v.lookup s g data clientIp = (some f, v')) : (v.world.serve s data clientIp [] true).2 =
      some (World.replay s f.answer data f.qend clientIp (f.remaining v.world.now), f.answer) := by
  rw [lookup] at found
  split at found
  · cases found
  · next usable =>
      rw [World.serve, if_neg usable]
      cases keyed : queryKey data with
      | none =>
          rw [keyed] at found
          cases found
      | some key =>
          rw [keyed] at found
          dsimp only at found ⊢
          cases held : v.world.table.get? (key.1 ++ (World.policyTag s v.world clientIp []).2) with
          | none =>
              rw [held] at found
              cases found
          | some answer =>
              rw [held] at found
              dsimp only at found ⊢
              split at found
              · cases found
              · next fresh =>
                  split at found
                  · cases found
                    have lets : ¬((answer.baseTtl : ℚ) - (v.world.now - answer.inserted) ≤ 0 ∨ true = false) :=
                      not_or.mpr ⟨fresh, Bool.true_eq_false_eq_False⟩
                    rw [if_neg lets]
                    rfl
                  · cases found

/-- What the server replays is what the table holds for the query. -/
theorem serve_of_serve {id : Nat} {data : Octets} {clientIp : Text} {out : Octets}
    (served : (v.serve s g id data clientIp).1 = some out) :
    ∃ answer, (v.world.serve s data clientIp [] true).2 = some (out, answer) := by
  rw [serve] at served
  cases found : v.lookup s g data clientIp with
  | mk f before =>
      rw [found] at served
      cases f with
      | none => cases served
      | some f =>
          refine ⟨f.answer, ?_⟩
          rw [serve_of_lookup found, ← (lookup_apart found).now]
          dsimp only at served
          split at served
          · cases served
          · split at served
            · cases served
            · rw [replayed] at served
              dsimp only at served
              split at served
              · cases served
              · cases served
                rfl

/-- What does not parse is refused for that, without the rate limiter. -/
theorem consults_of_parses {data : Octets} (raises : parses data = false) : consults g data = false := by
  rw [consults]
  rw [parses] at raises
  split
  · rfl
  · cases parsed : Message.parse data with
    | error => rfl
    | ok query =>
        rw [parsed] at raises
        cases raises

/-- The limiter after a look, and what is taken and asked. -/
structure Looked (v : Server π δ) (id : Nat) (clientIp : Text) (allowed : Bool) (v' : Server π δ) : Prop where
  verdict : (v.limiter.allow clientIp v.world.now).1 = allowed
  limiter : v'.limiter = (v.limiter.allow clientIp v.world.now).2
  took : v'.took = if v.limiter.enabled && allowed then id :: v.took else v.took

theorem looked_meter (id : Nat) (clientIp : Text) :
    v.Looked id clientIp (v.limiter.allow clientIp v.world.now).1 (v.meter id clientIp).2 := ⟨rfl, rfl, rfl⟩

/-- A look changes with the limiter, the clock and the tokens only. -/
theorem Looked.apart {before after after' : Server π δ} {id : Nat} {clientIp : Text} {allowed : Bool}
    (looked : before.Looked id clientIp allowed after) (first : Apart v before)
    (limiter : after'.limiter = after.limiter) (took : after'.took = after.took) :
    v.Looked id clientIp allowed after' := by
  obtain ⟨verdict, limited, taken⟩ := looked
  rw [first.limiter, first.now] at verdict limited
  rw [first.limiter, first.took] at taken
  exact ⟨verdict, limiter.trans limited, took.trans taken⟩

/-- A datagram that falls through has taken no token, or does not parse. -/
theorem serve_spec {id : Nat} {data : Octets} {clientIp : Text} {room : Bool} {out : Option Octets}
    (unflagged : v.Unflagged s g (.receives data clientIp room))
    (served : v.serve s g id data clientIp = (out, v')) :
    v'.world.now = v.world.now ∧ v'.waiting = v.waiting ∧
      ((v'.took = v.took ∧ v'.asked = v.asked ∧
          (v'.limiter = v.limiter ∨ v.Looked id clientIp false v')) ∨
        ((out = none → parses data = false) ∧ v'.asked = (clientIp, v.world.now) :: v.asked ∧
          v.Looked id clientIp true v')) := by
  rw [serve] at served
  cases found : v.lookup s g data clientIp with
  | mk f before =>
      have apart := lookup_apart found
      have looked := looked_meter (v := before) id clientIp
      rw [found] at served
      cases f with
      | none =>
          cases served
          exact ⟨apart.now, apart.waiting, .inl ⟨apart.took, apart.asked, .inl apart.limiter⟩⟩
      | some f =>
          dsimp only at served
          cases verdict : (before.limiter.allow clientIp before.world.now).1 with
          | false =>
              rw [if_pos (show (before.meter id clientIp).1 = false from verdict)] at served
              cases served
              rw [verdict] at looked
              have same := looked.apart apart rfl rfl
              refine ⟨apart.now, apart.waiting, .inl ⟨?_, apart.asked, .inr same⟩⟩
              rw [same.took, Bool.and_false]
              exact if_neg Bool.false_ne_true
          | true =>
              rw [if_neg (show ¬(before.meter id clientIp).1 = false by
                rw [show (before.meter id clientIp).1 = true from verdict]; exact Bool.true_eq_false_eq_False)] at served
              rw [verdict] at looked
              have same := looked.apart apart rfl rfl
              cases flagged : (g.suspicious before.gates f.answer clientIp).1 with
              | true =>
                  rw [if_pos (show (g.suspicious (before.meter id clientIp).2.gates f.answer clientIp).1 = true
                    from flagged)] at served
                  cases served
                  -- Only where the limiter is off may a detector have its say.
                  have off : v.limiter.enabled = false := by
                    by_contra on
                    have clear := unflagged f before found (Bool.eq_true_of_not_eq_false on) same.verdict
                    rw [flagged] at clear
                    cases clear
                  obtain ⟨-, limiter, took⟩ := same
                  rw [RateLimiter.allow_of_disabled off] at limiter
                  rw [off] at took
                  exact ⟨apart.now, apart.waiting, .inl ⟨took, apart.asked, .inl limiter⟩⟩
              | false =>
                  rw [if_neg (show ¬(g.suspicious (before.meter id clientIp).2.gates f.answer clientIp).1 = true
                    by rw [show (g.suspicious (before.meter id clientIp).2.gates f.answer clientIp).1 = false from
                      flagged]; exact Bool.false_ne_true)] at served
                  have reply := congrArg Prod.fst served
                  have after := congrArg Prod.snd served
                  subst after
                  refine ⟨apart.now, apart.waiting, .inr ⟨fun none => ?_, ?_, looked.apart apart rfl rfl⟩⟩
                  · exact parses_of_isNone_replayed (reply.trans none)
                  · change (clientIp, before.world.now) :: before.asked = _
                    rw [apart.now, apart.asked]

/-! ### Tokens taken -/

/-- Every query has taken one token at most, and none while it waits for the rate limiter. -/
structure Spent (g : Gates δ) (v : Server π δ) : Prop where
  once : ∀ id, v.took.count id ≤ 1
  fresh : ∀ id, v.arrived ≤ id → v.took.count id = 0
  waiting : ∀ id q, v.waiting id = some q → id < v.arrived ∧ (consults g q.1 = true → v.took.count id = 0)

/-- One more token, for a query that had none and does not wait for the rate limiter again. -/
theorem Spent.next (spent : v.Spent g) {id : Nat} {taken : Bool} (none : v.took.count id = 0)
    (took : v'.took = if taken then id :: v.took else v.took) (later : v.arrived ≤ v'.arrived)
    (known : id < v'.arrived)
    (waiting : ∀ other q, v'.waiting other = some q → (other ≠ id ∧ v.waiting other = some q) ∨
      (other = id ∧ (consults g q.1 = true → taken = false))) : v'.Spent g := by
  have others (other : Nat) (apart : other ≠ id) : v'.took.count other = v.took.count other := by
    rw [took]
    split
    · exact List.count_cons_of_ne apart.symm
    · rfl
  have one : v'.took.count id = if taken then 1 else 0 := by
    rw [took]
    split
    · rw [List.count_cons_self, none]
    · exact none
  refine ⟨fun other => ?_, fun other unknown => ?_, fun other q held => ?_⟩
  · rcases eq_or_ne other id with rfl | apart
    · rw [one]
      split
      · exact Nat.le_refl 1
      · exact Nat.zero_le 1
    · rw [others other apart]
      exact spent.once other
  · rw [others other (Nat.ne_of_gt (known.trans_le unknown))]
    exact spent.fresh other (later.trans unknown)
  · rcases waiting other q held with ⟨apart, held⟩ | ⟨rfl, spared⟩
    · rw [others other apart]
      obtain ⟨first, unspent⟩ := spent.waiting other q held
      exact ⟨first.trans_le later, unspent⟩
    · refine ⟨known, fun consulted => ?_⟩
      rw [one, spared consulted]
      rfl

theorem Spent.step (spent : v.Spent g) {e : Event π δ} (unflagged : v.Unflagged s g e)
    (taken : v.step s g e = some v') : v'.Spent g := by
  have unspent := spent.fresh v.arrived (Nat.le_refl _)
  have old {id : Nat} {q : Octets × Text} (held : v.waiting id = some q) : id ≠ v.arrived :=
    Nat.ne_of_lt (spent.waiting id q held).1
  cases e with
  | receives data clientIp room =>
      cases taken
      rw [datagramReceived]
      cases served : v.serve s g v.arrived data clientIp with
      | mk out after =>
          obtain ⟨-, waiting, went⟩ := serve_spec unflagged served
          -- A task is only made where nothing was replayed.
          have queued (other : Nat) (q : Octets × Text)
              (held : (if out.isNone && room then Function.update after.waiting v.arrived (some (data, clientIp))
                else after.waiting) other = some q) :
              (other ≠ v.arrived ∧ v.waiting other = some q) ∨
                (other = v.arrived ∧ q.1 = data ∧ out = none) := by
            rw [waiting] at held
            split at held
            · next made =>
                rcases eq_or_ne other v.arrived with rfl | apart
                · rw [Function.update_self] at held
                  cases held
                  rw [Bool.and_eq_true] at made
                  exact .inr ⟨rfl, rfl, Option.isNone_iff_eq_none.mp made.1⟩
                · rw [Function.update_of_ne apart] at held
                  exact .inl ⟨apart, held⟩
            · exact .inl ⟨old held, held⟩
          rcases went with ⟨took, -⟩ | ⟨raises, -, looked⟩
          · refine spent.next unspent (took.trans (if_neg Bool.false_ne_true).symm) (Nat.le_succ _) (Nat.lt_succ_self _) fun other q held => ?_
            exact (queued other q held).imp_right fun here => ⟨here.1, fun _ => rfl⟩
          · refine spent.next unspent looked.took (Nat.le_succ _) (Nat.lt_succ_self _) fun other q held => ?_
            refine (queued other q held).imp_right fun here => ⟨here.1, fun consulted => ?_⟩
            rw [here.2.1, consults_of_parses (raises here.2.2)] at consulted
            cases consulted
  | runs id =>
      obtain ⟨⟨data, clientIp⟩, held, taken⟩ := Option.bind_eq_some_iff.mp taken
      cases taken
      obtain ⟨known, unspent⟩ := spent.waiting id _ held
      have still (other : Nat) (q : Octets × Text)
          (left : Function.update v.waiting id none other = some q) : other ≠ id ∧ v.waiting other = some q := by
        rcases eq_or_ne other id with rfl | apart
        · rw [Function.update_self] at left
          cases left
        · rw [Function.update_of_ne apart] at left
          exact ⟨apart, left⟩
      rw [handle]
      split
      · next consulted =>
          exact spent.next (unspent consulted) (looked_meter id clientIp).took (Nat.le_refl _) known
            fun other q left => .inl (still other q left)
      · exact ⟨spent.once, spent.fresh, fun other q left => spent.waiting other q (still other q left).2⟩
  | asks clientIp =>
      cases taken
      exact spent.next unspent (looked_meter v.arrived clientIp).took (Nat.le_succ _) (Nat.lt_succ_self _)
        fun other q held => .inl ⟨old held, held⟩
  | sweeps idle =>
      cases taken
      exact ⟨spent.once, spent.fresh, spent.waiting⟩
  | becomes world gates =>
      rw [Server.step] at taken
      split at taken
      · cases taken
        exact ⟨spent.once, spent.fresh, spent.waiting⟩
      · cases taken

/-! ### Queries refused -/

/-- No bucket is newer than now, and what was asked of each makes up for the tokens that are gone. -/
structure Covered (v : Server π δ) : Prop where
  earlier : ∀ clientIp held last, v.limiter.buckets.get? clientIp = some (held, last) → last ≤ v.world.now
  backed : ∀ clientIp, v.limiter.Backed (v.askedSince clientIp) clientIp

theorem Covered.mono (covered : v.Covered) (now : v.world.now ≤ v'.world.now) (asked : v'.asked = v.asked)
    (rate : v'.limiter.rate = v.limiter.rate) (burst : v'.limiter.burst = v.limiter.burst)
    (fewer : ∀ clientIp bucket, v'.limiter.buckets.get? clientIp = some bucket →
      v.limiter.buckets.get? clientIp = some bucket) : v'.Covered := by
  refine ⟨fun clientIp held last found => ?_, fun clientIp held last found => ?_⟩
  · exact (covered.earlier clientIp held last (fewer clientIp _ found)).trans now
  · obtain ⟨start, first, enough⟩ := covered.backed clientIp held last (fewer clientIp _ found)
    refine ⟨start, first, ?_⟩
    rw [rate, burst, askedSince, asked]
    exact enough

theorem askedSince_cons {clientIp asker : Text} {start : ℚ} (first : start ≤ v.world.now)
    (asked : v'.asked = (asker, v.world.now) :: v.asked) :
    v'.askedSince clientIp start = v.askedSince clientIp start + if asker = clientIp then 1 else 0 := by
  rw [askedSince, asked, List.countP_cons, askedSince]
  simp only [decide_eq_true first, Bool.and_true, decide_eq_true_eq]

theorem askedSince_le (clientIp asker : Text) (start : ℚ)
    (asked : v'.asked = (asker, v.world.now) :: v.asked ∨ v'.asked = v.asked) :
    v.askedSince clientIp start ≤ v'.askedSince clientIp start := by
  rcases asked with more | same
  · rw [askedSince, askedSince, more, List.countP_cons]
    exact Nat.le_add_right _ _
  · rw [askedSince, askedSince, same]

/-- A look at one bucket, with the query decided where a token is taken. -/
theorem Covered.looked (covered : v.Covered) {id : Nat} {clientIp : Text} {allowed : Bool}
    (looked : v.Looked id clientIp allowed v') (now : v'.world.now = v.world.now)
    (asked : v'.asked = (clientIp, v.world.now) :: v.asked ∨ (allowed = false ∧ v'.asked = v.asked)) :
    v'.Covered := by
  have grown (other : Text) (start : ℚ) : v.askedSince other start ≤ v'.askedSince other start :=
    askedSince_le other clientIp start (asked.imp (fun more => more) And.right)
  have known := covered.earlier clientIp
  refine ⟨fun other held last found => ?_, fun other => ?_⟩
  · rw [now]
    rw [looked.limiter] at found
    rcases eq_or_ne other clientIp with rfl | apart
    · cases on : v.limiter.enabled with
      | false =>
          rw [RateLimiter.allow_of_disabled on] at found
          exact known held last found
      | true =>
          rw [RateLimiter.get?_allow_self on] at found
          cases found
          exact le_refl _
    · exact covered.earlier other held last (RateLimiter.get?_allow_other apart found)
  · rw [looked.limiter]
    rcases eq_or_ne other clientIp with rfl | apart
    · refine (covered.backed other).allow known fun start first => ?_
      rcases asked with more | ⟨refused, same⟩
      · rw [askedSince_cons first more, if_pos rfl]
        gcongr
        split
        · exact Nat.le_refl 1
        · exact Nat.zero_le 1
      · rw [looked.verdict, refused, if_neg fun both => Bool.false_ne_true both.1]
        exact grown other start
    · intro held last found
      obtain ⟨start, first, enough⟩ := covered.backed other held last (RateLimiter.get?_allow_other apart found)
      refine ⟨start, first, ?_⟩
      rw [RateLimiter.allow_burst, RateLimiter.allow_rate]
      refine enough.trans ?_
      gcongr
      exact grown other start

/-- A client that is refused has asked for more than its share. -/
theorem Covered.fair (covered : v.Covered) {clientIp : Text} (now : v'.world.now = v.world.now)
    (limiter : v'.limiter = (v.limiter.allow clientIp v.world.now).2)
    (asked : v'.asked = (clientIp, v.world.now) :: v.asked)
    (refused : (v.limiter.allow clientIp v.world.now).1 = false) : ¬v'.Within clientIp := by
  intro within
  obtain ⟨start, first, more⟩ := RateLimiter.refused_exceeds (covered.backed clientIp)
    (covered.earlier clientIp) refused
  have least := within start (first.trans_eq now.symm)
  rw [askedSince_cons first asked, if_pos rfl, now, limiter, RateLimiter.allow_burst, RateLimiter.allow_rate,
    Nat.cast_add, Nat.cast_one] at least
  exact absurd more (not_lt.mpr least)

theorem handle_of_consults {id : Nat} {data : Octets} {clientIp : Text} (consulted : consults g data = true) :
    v.handle g id data clientIp =
      (some (v.limiter.allow clientIp v.world.now).1, (v.meter id clientIp).2.decided clientIp) :=
  if_pos consulted

theorem Covered.step (covered : v.Covered) {e : Event π δ} (unflagged : v.Unflagged s g e)
    (taken : v.step s g e = some v') : v'.Covered ∧ v.Fair g e v' := by
  cases e with
  | receives data clientIp room =>
      cases taken
      refine ⟨?_, fun _ _ refused => by cases refused⟩
      rw [datagramReceived]
      cases served : v.serve s g v.arrived data clientIp with
      | mk out after =>
          obtain ⟨now, -, ⟨-, asked, same | looked⟩ | ⟨-, asked, looked⟩⟩ := serve_spec unflagged served
          · refine covered.mono now.ge asked ?_ ?_ fun other bucket found => ?_
            · exact congrArg RateLimiter.rate same
            · exact congrArg RateLimiter.burst same
            · change after.limiter.buckets.get? other = _ at found
              rw [same] at found
              exact found
          · exact covered.looked ⟨looked.verdict, looked.limiter, looked.took⟩ now (.inr ⟨rfl, asked⟩)
          · exact covered.looked ⟨looked.verdict, looked.limiter, looked.took⟩ now (.inl asked)
  | runs id =>
      obtain ⟨⟨data, clientIp⟩, held, taken⟩ := Option.bind_eq_some_iff.mp taken
      cases taken
      rw [handle]
      split
      · next consulted =>
          have looked := looked_meter (v := v) id clientIp
          refine ⟨covered.looked ⟨looked.verdict, looked.limiter, looked.took⟩ rfl (.inl rfl), ?_⟩
          intro asker within refused
          rw [refuses, held] at refused
          change (if (v.handle g id data clientIp).1 = some false then some clientIp else none) = _ at refused
          rw [handle_of_consults consulted] at refused
          split at refused
          · next verdict =>
              cases refused
              exact absurd within (covered.fair rfl rfl rfl (Option.some.inj verdict))
          · cases refused
      · next unconsulted =>
          refine ⟨covered.mono (le_refl _) rfl rfl rfl fun _ _ found => found, ?_⟩
          intro asker _ refused
          rw [refuses, held] at refused
          change (if (v.handle g id data clientIp).1 = some false then some clientIp else none) = _ at refused
          rw [handle, if_neg unconsulted] at refused
          cases refused
  | asks clientIp =>
      cases taken
      have looked := looked_meter (v := v) v.arrived clientIp
      refine ⟨covered.looked ⟨looked.verdict, looked.limiter, looked.took⟩ rfl (.inl rfl), ?_⟩
      intro asker within refused
      rw [refuses] at refused
      split at refused
      · next verdict =>
          cases refused
          exact absurd within (covered.fair rfl rfl rfl verdict)
      · cases refused
  | sweeps idle =>
      cases taken
      refine ⟨covered.mono (le_refl _) rfl rfl rfl fun _ _ found => RateLimiter.get?_gc found, ?_⟩
      exact fun _ _ refused => by cases refused
  | becomes world gates =>
      rw [Server.step] at taken
      split at taken
      · next later =>
          cases taken
          refine ⟨covered.mono later rfl rfl rfl fun _ _ found => found, ?_⟩
          exact fun _ _ refused => by cases refused
      · cases taken

/-- A datagram that is flagged behind the limiter pays once more where its task finds a token too. -/
theorem flagged_pays_twice {data : Octets} {clientIp : Text} {f : Found} {before : Server π δ}
    (found : v.lookup s g data clientIp = (some f, before)) (on : v.limiter.enabled = true)
    (token : (v.limiter.allow clientIp v.world.now).1 = true)
    (flagged : (g.suspicious before.gates f.answer clientIp).1 = true) (consulted : consults g data = true)
    (again : ((v.limiter.allow clientIp v.world.now).2.allow clientIp v.world.now).1 = true) :
    (v.datagramReceived s g data clientIp true).waiting v.arrived = some (data, clientIp) ∧
      ((v.datagramReceived s g data clientIp true).handle g v.arrived data clientIp).2.took =
        v.arrived :: v.arrived :: v.took := by
  have apart := lookup_apart found
  have same := (looked_meter (v := before) v.arrived clientIp).apart apart rfl rfl
  rw [same.verdict.symm.trans token] at same
  have served : v.serve s g v.arrived data clientIp = (none,
      { (before.meter v.arrived clientIp).2 with
        gates := (g.suspicious before.gates f.answer clientIp).2 }) := by
    rw [serve, found]
    dsimp only
    rw [if_neg (show ¬(before.meter v.arrived clientIp).1 = false by
      rw [show (before.meter v.arrived clientIp).1 = true from (looked_meter v.arrived clientIp).verdict.symm.trans
        (by rw [apart.limiter, apart.now, token])]
      exact Bool.true_eq_false_eq_False)]
    exact if_pos flagged
  have received : v.datagramReceived s g data clientIp true =
      { (before.meter v.arrived clientIp).2 with
        gates := (g.suspicious before.gates f.answer clientIp).2
        waiting := Function.update before.waiting v.arrived (some (data, clientIp))
        arrived := v.arrived + 1 } := by
    rw [datagramReceived, served]
    rfl
  have looked := looked_meter (v := v.datagramReceived s g data clientIp true) v.arrived clientIp
  have limiter : (v.datagramReceived s g data clientIp true).limiter = (v.limiter.allow clientIp v.world.now).2 := by
    rw [received]
    exact same.limiter
  have now : (v.datagramReceived s g data clientIp true).world.now = v.world.now := by
    rw [received]
    exact apart.now
  have took : (v.datagramReceived s g data clientIp true).took = v.arrived :: v.took := by
    rw [received]
    exact same.took.trans (if_pos (by rw [on]; rfl))
  refine ⟨?_, ?_⟩
  · rw [received]
    exact Function.update_self _ _ _
  · rw [handle_of_consults consulted]
    refine looked.took.trans ?_
    rw [limiter, now, again, RateLimiter.allow_enabled, on, took]
    rfl

end

/-- Where no detector flags a datagram that has found a token, every query takes one token at most;
and from empty buckets on, a client that stays within its share is never refused. -/
theorem one_token_of_unflagged {π δ : Type} [DecidableEq π] (s : Settings π) (g : Gates δ)
    (limiter : RateLimiter) (world : World π) (gates : δ) {steps : List (Machine.Step (Server π δ) (Event π δ))}
    (run : Machine.Run (step s g) { limiter, world, gates } steps)
    (unflagged : ∀ t ∈ steps, t.before.Unflagged s g t.event) :
    (∀ t ∈ steps, ∀ id, t.after.took.count id ≤ 1) ∧
      (limiter.buckets = .empty → ∀ t ∈ steps, t.before.Fair g t.event t.after) := by
  have spent := Machine.Run.invariant (Unflagged s g) (fun _ _ _ => True)
    (fun spent unflagged taken => ⟨Spent.step spent unflagged taken, trivial⟩) run
    ⟨fun _ => Nat.zero_le 1, fun _ _ => rfl, fun _ _ held => by cases held⟩ unflagged
  refine ⟨fun t taken => (spent t taken).1.once, fun none t taken => ?_⟩
  have start : Covered ({ limiter, world, gates } : Server π δ) := by
    refine ⟨fun clientIp held last found => ?_, fun clientIp => RateLimiter.backed_empty none⟩
    change limiter.buckets.get? clientIp = _ at found
    rw [none] at found
    cases found
  have covered := Machine.Run.invariant (Unflagged s g) (fun v e v' => v.Fair g e v')
    (fun covered unflagged taken => Covered.step covered unflagged taken) run start unflagged
  exact (covered t taken).2

/-! ### A name that looks like a tunnel -/

/-- One client, a tunnel detector that flags everything or nothing, and a zone handler without zones. -/
def plainGates (flags : Bool) : Gates Unit :=
  ⟨fun d _ => (true, d), none, some fun d _ _ => (flags, d), fun _ => false⟩

/-- A reply has just been recorded for the query. -/
def recordedWorld : World Unit :=
  (World.initial 0).store World.plainSettings ⟨World.asks, [], [], none⟩ 0 World.answers .forwarded false

/-- The query is asked once more, and then on other transports. -/
def busy : List (Event Unit Unit) :=
  [.receives World.asks [] true, .asks [], .asks [], .asks [], .sweeps 60,
    .becomes { recordedWorld with now := 100 } ()]

theorem busy_unflagged :
    (Machine.follow (step World.plainSettings (plainGates false))
      { limiter := .create 1 3 65536 1, world := recordedWorld, gates := () } busy).length = 6 ∧
      (∀ t ∈ Machine.follow (step World.plainSettings (plainGates false))
        { limiter := .create 1 3 65536 1, world := recordedWorld, gates := () } busy, ∀ id,
          t.after.took.count id ≤ 1) ∧
      ∀ t ∈ Machine.follow (step World.plainSettings (plainGates false))
        { limiter := .create 1 3 65536 1, world := recordedWorld, gates := () } busy,
          t.before.Fair (plainGates false) t.event t.after := by
  have fine := one_token_of_unflagged World.plainSettings (plainGates false) (.create 1 3 65536 1) recordedWorld ()
    (Machine.run_follow _ _ busy) ?_
  · exact ⟨by decide +kernel, fine.1, fine.2 rfl⟩
  · intro t _
    cases t.event with
    | receives data clientIp room => exact fun _ _ _ _ _ => rfl
    | runs id => trivial
    | asks clientIp => trivial
    | sweeps idle => trivial
    | becomes world gates => trivial

/-- A query that is flagged costs two tokens. -/
theorem busy_flagged : ¬∀ (s : Settings Unit) (g : Gates Unit) (limiter : RateLimiter) (world : World Unit)
    (gates : Unit) (steps : List (Machine.Step (Server Unit Unit) (Event Unit Unit))),
    Machine.Run (step s g) { limiter, world, gates } steps → ∀ t ∈ steps, ∀ id, t.after.took.count id ≤ 1 := by
  intro all
  have taken := List.getElem_mem (l := Machine.follow (step World.plainSettings (plainGates true))
    { limiter := .create 1 3 65536 1, world := recordedWorld, gates := () }
    [.receives World.asks [] true, .runs 0]) (n := 1) (by decide +kernel)
  have once := all _ _ _ _ _ _ (Machine.run_follow _ _ _) _ taken 0
  exact absurd once (by decide +kernel)

end Server

end Trench.Transport.Metering
