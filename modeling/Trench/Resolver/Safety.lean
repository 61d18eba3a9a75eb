import Mathlib
import Trench.Resolver.Answers

set_option autoImplicit false

/- Any number of resolutions that take turns in any order: what they ask, what they keep and what they
answer rests on what was said with authority. -/
namespace Trench.Resolver

open Wire
open Engine.Rcode (noerror nxdomain servfail)
open Coroutine (Task Rules Meets Runs Stable Slot Pool)

section

variable {r : Recursive} {heard more past : List Exchange} {low : Shared}

theorem Vouched.mono {whole : Verdict} {hop : Recursive.Hop} (vouched : Vouched r heard whole hop)
    (grown : heard ⊆ more) : Vouched r more whole hop := by
  obtain ⟨v, judged, bears⟩ := vouched
  exact ⟨v, judged.mono grown, bears⟩

theorem Vetted.mono {msg : Message} {qtype : RRType} {whole : Verdict} {name : Name}
    (vetted : Vetted r heard msg qtype whole name) (grown : heard ⊆ more) : Vetted r more msg qtype whole name := by
  induction vetted with
  | final judged bears => exact .final (judged.mono grown) bears
  | hop kept vouched held owner cname names _ ih => exact .hop kept (vouched.mono grown) held owner cname names ih

theorem Answered.mono {name : Name} {qtype : RRType} {msg : Message} (answered : Answered r heard name qtype msg)
    (grown : heard ⊆ more) : Answered r more name qtype msg := by
  refine ⟨fun rr held => (answered.answers rr held).mono grown, fun rr held => (answered.authority rr held).mono grown,
    fun rr held => (answered.additional rr held).mono grown, answered.chained, answered.rcode, fun on shown => ?_⟩
  obtain ⟨whole, secure, vetted⟩ := answered.vetted on shown
  exact ⟨whole, secure, vetted.mono grown⟩

/-- Whose answer it is makes no difference to what it says. -/
theorem Answered.addressed {name : Name} {qtype : RRType} {msg : Message} (answered : Answered r heard name qtype msg)
    (id : UInt16) (questions : List Question) : Answered r heard name qtype { msg with id, questions } := by
  refine ⟨answered.answers, answered.authority, answered.additional, answered.chained, answered.rcode,
    fun on shown => ?_⟩
  obtain ⟨whole, secure, vetted⟩ := answered.vetted on shown
  refine ⟨whole, secure, ?_⟩
  clear answered shown secure
  induction vetted with
  | final judged bears => exact .final judged bears
  | hop kept vouched held owner cname names _ ih => exact .hop kept vouched held owner cname names ih

/-- An answer to a query: of its identity and question, and of its name. -/
structure Served (r : Recursive) (heard : List Exchange) (query : Message) (q : Question) (msg : Message) : Prop where
  id : msg.id = query.id
  questions : msg.questions = query.questions
  answered : q.name.wireLen ≤ maxName → Answered r heard q.name q.rtype msg

/-- How a resolution ends. -/
def Ends (r : Recursive) (heard : List Exchange) (out : Message × Except Fault Message) : Prop :=
  ∀ msg, out.2 = .ok msg → ∀ q ∈ out.1.question, Served r heard out.1 q msg

theorem stable_ends : Stable fun heard _ (_ : Shared) out => Ends r heard out := by
  intro heard more past low later out grown _ ends msg done q asked
  obtain ⟨id, questions, answered⟩ := ends msg done q asked
  exact ⟨id, questions, fun legal => (answered legal).mono grown⟩

theorem meets_resolve (qname : Text) (qtype : RRType) : Meets (rules r) (fun heard _ _ out => ∀ msg, out = .ok msg →
    ∀ name, Name.fromText qname = .ok name → Answered r heard name qtype msg) (r.resolve qname qtype) heard [] low := by
  rw [Recursive.resolve]
  cases read : Name.fromText qname with
  | error e => exact fun msg wrong => by cases wrong
  | ok name =>
      intro more s grown goes kept
      have clocked := keeps_now (r := r) kept
      refine ⟨clocked.kept, clocked.later, ?_⟩
      have chained : Chained r more name name [] [] := ⟨by simp, by simp, .here BEq.rfl, rfl, by simp⟩
      have runs : Runs r ((r.now s).1 + r.budget) 0 0 (r.followChain qname qtype r.maxCname name [] [] [name]) more []
          (r.now s).2 fun heard _ msg => Answered r heard name qtype msg := runs_followChain chained
      refine (runs _ ⟨add_le_add_left clocked.post.2.1 r.budget, rfl, ?_, ?_⟩).bind ?_
      · simp [packets]
      · simp
      · rintro heard' past' low' ⟨job, out⟩ - - - ends msg done name' same
        cases same
        exact ends.2 msg done

theorem meets_serve (query : Message) :
    Meets (rules r) (fun heard _ _ out => Ends r heard out) (r.serve query) heard [] low := by
  have forwards : Meets (rules r) (fun heard _ _ out => Ends r heard (query, out)) (r.forward query) heard [] low := by
    rw [Recursive.forward]
    cases asked : query.question with
    | none =>
        intro msg _ q there
        rw [asked] at there
        cases there
    | some q =>
        refine (meets_resolve q.name.toText q.rtype).bind fun more later s out _ _ _ ends msg done q' there => ?_
        obtain rfl : q = q' := Option.some.inj (asked.symm.trans there)
        cases out with
        | error fault => cases done
        | ok resp =>
            cases done
            refine ⟨rfl, rfl, fun legal => ?_⟩
            exact (ends resp rfl q.name (Name.fromText_toText q.name legal)).addressed query.id query.questions
  exact forwards.bind fun _ _ _ _ _ _ _ ends => ends

theorem sound_after (events : List (Coroutine.Event Message Reply)) :
    (r.after events).Sound (rules r) fun heard _ _ out => Ends r heard out := by
  refine Pool.Sound.run stable_ends (fun query heard s => meets_serve query) ⟨?_, by simp, by simp⟩ events
  exact ⟨by rintro _ ⟨⟩, by rintro _ ⟨⟩, by rintro _ ⟨⟩, by rintro _ ⟨⟩, Nat.zero_le _, Nat.zero_le _, by rintro _ ⟨⟩,
    by rintro _ ⟨⟩⟩

theorem served_of_answered {events : List (Coroutine.Event Message Reply)} {query msg : Message}
    (given : (query, msg) ∈ r.answered events) {q : Question} (asked : query.question = some q) :
    Served r (r.after events).heard query q msg := by
  obtain ⟨slot, held, done⟩ := List.mem_filterMap.mp given
  have now : slot.now = some (.done (query, .ok msg)) := by
    split at done
    · next now =>
        cases done
        exact now
    · cases done
  exact (sound_after events).done held now msg rfl q asked

end

/-! ### Every run -/

section

variable (r : Recursive) (events : List (Coroutine.Event Message Reply))

/-- Whatever was said, each delegation and address in the caches was said by a server that speaks for it. -/
theorem kept_after : Kept r (r.after events).heard (r.after events).shared := (sound_after events).inv

variable {r} {events}

/-- Whom a packet goes to speaks for the zone it is sent for, by what was heard before, and is asked
about a name between the zone and the name that is resolved. -/
theorem asks_authority {before : List Exchange} {q : Request} (asked : (r.after events).Asked before q) :
    Serves r.rootHints before q.zone q.ip ∧
      ∃ qn, Asks q qn ∧ qn.isSubdomainOf q.zone = true ∧ q.name.isSubdomainOf qn = true := by
  obtain ⟨past, proper⟩ := (sound_after events).asked asked
  obtain ⟨qn, asks, inside, toward, -⟩ := proper.question
  exact ⟨proper.serves, qn, asks, inside, toward⟩

/-- A name is told to the servers of the zones above it label by label. -/
theorem asks_discreetly {slot : Slot Shared Request Reply (Message × Except Fault Message)}
    (held : slot ∈ (r.after events).slots) {before : List Exchange} {q : Request} (asked : slot.Asked before q)
    (on : r.qmin = true) : ∃ qn, Asks q qn ∧ Discreet before q.zone qn := by
  obtain ⟨qn, asks, -, -, discreet⟩ := (((sound_after events).slots slot held).asked asked).question
  exact ⟨qn, asks, discreet on⟩

/-- One question, with all that it spawns, sends no more packets than its budget has, and waits for none
of them past the time it has from its first. -/
theorem within_budget {slot : Slot Shared Request Reply (Message × Except Fault Message)}
    (held : slot ∈ (r.after events).slots) : (packets slot.past : Int) ≤ max 0 r.maxQueries ∧
      ∀ before q, slot.Asked before q → (packets before : Int) < r.maxQueries ∧ 0 < q.wait ∧ q.wait ≤ r.budget ∧
        ∀ e ∈ before, q.sent + q.wait ≤ e.1.sent + r.budget := by
  have sound := (sound_after events).slots slot held
  refine ⟨?_, fun before q asked => ?_⟩
  · rcases List.eq_nil_or_concat slot.past with none | ⟨front, ⟨q, t⟩, same⟩
    · simp [none, packets]
    · rw [List.concat_eq_append] at same
      have paid := (sound.past front q t [] same).paid
      rw [same, packets, List.countP_append, List.countP_singleton, ← packets]
      split
      · push_cast
        omega
      · push_cast
        omega
  · have proper := sound.asked asked
    exact ⟨proper.paid, proper.waits.1, proper.waits.2, proper.timely⟩

/-- An answer is to its query, and every record of it was said with authority; the answers lie on the
CNAME chain from the name that was asked for, and there are none with an rcode of failure. -/
theorem answered_with_authority {query msg : Message} (given : (query, msg) ∈ r.answered events) {q : Question}
    (asked : query.question = some q) (legal : q.name.wireLen ≤ maxName) :
    (msg.id = query.id ∧ msg.questions = query.questions) ∧
      (∀ rr ∈ msg.answers, Told r.rootHints (r.after events).heard Message.answers rr ∧
        OnChain msg.answers q.name rr.name) ∧
      (∀ rr ∈ msg.authority, Told r.rootHints (r.after events).heard Message.authority rr) ∧
      (∀ rr ∈ msg.additional, Told r.rootHints (r.after events).heard Message.additional rr) ∧
      (msg.answers ≠ [] → msg.rcode = noerror ∨ msg.rcode = nxdomain) := by
  have served := served_of_answered given asked
  have answered := served.answered legal
  exact ⟨⟨served.id, served.questions⟩, fun rr held => ⟨answered.answers rr held, answered.chained rr held⟩,
    answered.authority, answered.additional, answered.rcode⟩

/-- With validation, AD is only on an answer each CNAME of which, and the records at its end, were
validated as secure; and none of them as bogus where there is an answer without CD. -/
theorem answered_with_proof {query msg : Message} (given : (query, msg) ∈ r.answered events) {q : Question}
    (asked : query.question = some q) (legal : q.name.wireLen ≤ maxName) (validates : r.validate = true)
    (shown : msg.has flagAd = true ∨ (msg.answers ≠ [] ∧ msg.has flagCd = false)) :
    ∃ whole, (msg.has flagAd = true → whole = .secure) ∧ Vetted r (r.after events).heard msg q.rtype whole q.name :=
  ((served_of_answered given asked).answered legal).vetted validates shown

end

/-! ### A run -/

theorem letter_fits (c : UInt8) : 1 ≤ [c].length ∧ [c].length ≤ maxLabel := by
  rw [List.length_singleton]
  decide

/-- A name of one-letter labels. -/
def letters (word : List UInt8) : Name := ⟨word.map fun c => ⟨[c], (letter_fits c).1, (letter_fits c).2⟩⟩

def oneRoot : Recursive where
  rootHints := ["198.41.0.4".toList]
  validate := true
  clock _ := 0
  shuffle _ ips := ips
  reachable _ := true
  validator _ _ := .verdict .secure
  room := by decide
  steady _ _ _ := le_rfl
  shuffled _ _ := List.Perm.refl _

/-- The root refers to a server of "a.", with its address, which has the address of "b.a." -/
def oneReferral : List (Coroutine.Event Message Reply) := [
  .starts { id := 7, questions := [⟨letters [0x62, 0x61], RRType.a, RRClass.in⟩] },
  .replies 0 (.message {
    authority := [⟨letters [0x61], RRType.ns, RRClass.in, 60, .ns (letters [0x6e, 0x61])⟩]
    additional := [⟨letters [0x6e, 0x61], RRType.a, RRClass.in, 60, .a "192.0.2.1".toList⟩] }),
  .replies 0 (.message {
    flags := flagAa
    answers := [⟨letters [0x62, 0x61], RRType.a, RRClass.in, 60, .a "192.0.2.9".toList⟩] })]

theorem heard_oneReferral :
    (oneRoot.after oneReferral).heard.map (fun e => e.1.ip) = ["198.41.0.4".toList, "192.0.2.1".toList] := by
  decide +kernel

theorem past_oneReferral : (oneRoot.after oneReferral).slots.map (fun slot => slot.past.length) = [2] := by
  decide +kernel

theorem answered_oneReferral :
    (oneRoot.answered oneReferral).map (fun e => (e.1.question, e.2.answers.length, e.2.has flagAd)) =
      [(some ⟨letters [0x62, 0x61], RRType.a, RRClass.in⟩, 1, true)] := by
  decide +kernel

/-- The second packet goes to the address of the referral. -/
theorem asks_authority_glue : ∃ before q, (oneRoot.after oneReferral).Asked before q ∧ q.ip = "192.0.2.1".toList ∧
    Serves oneRoot.rootHints before q.zone q.ip ∧
      ∃ qn, Asks q qn ∧ qn.isSubdomainOf q.zone = true ∧ q.name.isSubdomainOf qn = true := by
  obtain ⟨e₁, rest, same, -, more⟩ := List.map_eq_cons_iff.mp heard_oneReferral
  obtain ⟨⟨q, t⟩, rest, rfl, ip, -⟩ := List.map_eq_cons_iff.mp more
  have asked : (oneRoot.after oneReferral).Asked [e₁] q := .inl ⟨t, rest, same⟩
  exact ⟨[e₁], q, asked, ip, asks_authority asked⟩

theorem past_two : ∃ slot ∈ (oneRoot.after oneReferral).slots, ∃ before q, before.length = 1 ∧ slot.Asked before q := by
  obtain ⟨slot, rest, same, length, -⟩ := List.map_eq_cons_iff.mp past_oneReferral
  obtain ⟨e₁, ⟨q, t⟩, past⟩ := List.length_eq_two.mp length
  exact ⟨slot, same ▸ List.mem_cons_self, [e₁], q, rfl, .inl ⟨t, [], past⟩⟩

theorem asks_discreetly_two : ∃ slot ∈ (oneRoot.after oneReferral).slots, ∃ before q, before.length = 1 ∧
    ∃ qn, Asks q qn ∧ Discreet before q.zone qn := by
  obtain ⟨slot, held, before, q, length, asked⟩ := past_two
  exact ⟨slot, held, before, q, length, asks_discreetly held asked rfl⟩

theorem within_budget_two : ∃ slot ∈ (oneRoot.after oneReferral).slots, (packets slot.past : Int) ≤ 40 ∧
    ∃ (before : List Exchange) (q : Request), before.length = 1 ∧ 0 < q.wait ∧ q.wait ≤ 5 ∧
      ∀ e ∈ before, q.sent + q.wait ≤ e.1.sent + 5 := by
  obtain ⟨slot, held, before, q, length, asked⟩ := past_two
  obtain ⟨paid, each⟩ := within_budget held
  exact ⟨slot, held, paid, before, q, length, (each before q asked).2⟩

/-- The answer has AD, by the verdict on its only RRset. -/
theorem answered_with_authority_one : ∃ query msg, (query, msg) ∈ oneRoot.answered oneReferral ∧ msg.answers ≠ [] ∧
    ∀ rr ∈ msg.answers, Told oneRoot.rootHints (oneRoot.after oneReferral).heard Message.answers rr ∧
      OnChain msg.answers (letters [0x62, 0x61]) rr.name := by
  obtain ⟨⟨query, msg⟩, rest, same, facts, -⟩ := List.map_eq_cons_iff.mp answered_oneReferral
  rw [Prod.mk.injEq, Prod.mk.injEq] at facts
  have given : (query, msg) ∈ oneRoot.answered oneReferral := same ▸ List.mem_cons_self
  have served := answered_with_authority given facts.1 (by decide)
  exact ⟨query, msg, given, fun none => by simp [none] at facts, served.2.1⟩

theorem answered_with_proof_one : ∃ query msg, (query, msg) ∈ oneRoot.answered oneReferral ∧ msg.has flagAd = true ∧
    ∃ whole, (msg.has flagAd = true → whole = .secure) ∧
      Vetted oneRoot (oneRoot.after oneReferral).heard msg RRType.a whole (letters [0x62, 0x61]) := by
  obtain ⟨⟨query, msg⟩, rest, same, facts, -⟩ := List.map_eq_cons_iff.mp answered_oneReferral
  rw [Prod.mk.injEq, Prod.mk.injEq] at facts
  have given : (query, msg) ∈ oneRoot.answered oneReferral := same ▸ List.mem_cons_self
  exact ⟨query, msg, given, facts.2.2, answered_with_proof given facts.1 (by decide) rfl (.inl facts.2.2)⟩

end Trench.Resolver
