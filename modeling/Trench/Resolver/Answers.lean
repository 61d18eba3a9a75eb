import Mathlib
import Trench.Resolver.Descent
import Trench.Wire.NameText

set_option autoImplicit false

/- A client's question: the CNAME chain from its name, what of it is validated, and what is answered. -/
namespace Trench.Resolver

open Wire
open Engine.Rcode (noerror nxdomain servfail)
open Coroutine (Task Rules Meets Runs Keeps keeps_pure)

section

variable {r : Recursive} {D : ℚ} {heard more past later : List Exchange} {low : Shared}

theorem Trusted.mono {name : Name} {found : Recursive.Found} (trusted : Trusted r heard name found)
    (grown : heard ⊆ more) : Trusted r more name found where
  answers rr held := (trusted.answers rr held).mono grown
  authority rr held := (trusted.authority rr held).mono grown
  additional rr held := (trusted.additional rr held).mono grown
  chained := trusted.chained
  target := trusted.target

/-! ### Flags -/

/-- A flag that is set or cleared leaves the others. -/
theorem and_apart {flags mask other : UInt16} (apart : mask &&& other = 0) :
    (flags ||| mask) &&& other = flags &&& other ∧ (flags &&& ~~~mask) &&& other = flags &&& other := by
  have bits (i : Nat) (inside : i < 16) : (mask.toBitVec[i] && other.toBitVec[i]) = false := by
    have zero := congrArg (fun x : UInt16 => x.toBitVec[i]) apart
    simpa using zero
  constructor
  · apply UInt16.toBitVec_inj.mp
    ext i inside
    have := bits i inside
    simp only [UInt16.toBitVec_and, UInt16.toBitVec_or, BitVec.getElem_and, BitVec.getElem_or]
    revert this
    cases mask.toBitVec[i] <;> cases other.toBitVec[i] <;> simp
  · apply UInt16.toBitVec_inj.mp
    ext i inside
    have := bits i inside
    simp only [UInt16.toBitVec_and, UInt16.toBitVec_not, BitVec.getElem_and, BitVec.getElem_not]
    revert this
    cases mask.toBitVec[i] <;> cases other.toBitVec[i] <;> simp

theorem flags_setFlag {msg : Message} {mask other : UInt16} (on : Bool) (apart : mask &&& other = 0) :
    (msg.setFlag mask on).flags &&& other = msg.flags &&& other := by
  cases on with
  | true => exact (and_apart apart).1
  | false => exact (and_apart apart).2

theorem rcode_setFlag (msg : Message) (on : Bool) : (msg.setFlag flagAd on).rcode = msg.rcode := by
  rw [Message.rcode, Message.rcode, flags_setFlag on (by decide)]
  rfl

theorem ad_setRcode (msg : Message) : (msg.setRcode servfail).has flagAd = msg.has flagAd := by
  have flags : (msg.setRcode servfail).flags = (msg.flags &&& ~~~rcodeMask) ||| 2 := rfl
  rw [Message.has, Message.has, flags, (and_apart (by decide)).1, (and_apart (by decide)).2]

/-! ### Validation -/

/-- How a validation may end, by what its lookups find with authority. -/
inductive Validates (r : Recursive) (heard : List Exchange) : Consult → Verdict → Prop
  | verdict (v : Verdict) : Validates r heard (.verdict v) v
  | raises : Validates r heard .raises .bogus
  | lookup {name : Name} {rtype : RRType} {k : Option Message → Consult} {v : Verdict} {found : Option Message}
      (trusted : ∀ msg ∈ found, ∃ target, Trusted r heard name (msg, target))
      (ends : Validates r heard (k found) v) :
      Validates r heard (.lookup name rtype k) v

theorem Validates.mono {consult : Consult} {v : Verdict} (validates : Validates r heard consult v)
    (grown : heard ⊆ more) : Validates r more consult v := by
  induction validates with
  | verdict v => exact .verdict v
  | raises => exact .raises
  | lookup trusted _ ih =>
      refine .lookup (fun msg held => ?_) ih
      obtain ⟨target, trusted⟩ := trusted msg held
      exact ⟨target, trusted.mono grown⟩

theorem runs_consult (consult : Consult) : Runs r D 0 0 (r.consult consult) heard past low
    fun heard _ v => Validates r heard consult v := by
  induction consult generalizing heard past low with
  | verdict v => exact .pure (.verdict v)
  | raises => exact .pure .raises
  | lookup name rtype k ih =>
      rw [Recursive.consult]
      refine Runs.bind (Runs.attempt (runs_lookup _ _ _ name rtype)) ?_ le_rfl
      rintro heard₁ past₁ low₁ found - - - trusted
      cases found with
      | error fault => exact (ih none).imp fun _ _ v _ _ ends => .lookup (by rintro _ ⟨⟩) ends
      | ok found =>
          refine (ih (some found.1)).imp fun heard₂ _ v grown _ ends => .lookup ?_ ends
          rintro _ ⟨⟩
          exact ⟨found.2, (trusted found rfl).mono grown⟩

/-- The data of a name's records of a type. -/
def rrset (records : List RR) (name : Name) (qtype : RRType) : List Rdata :=
  (records.filter fun rr => rr.rtype == qtype && rr.name == name).map RR.rdata

/-- An RRset, or its denial, was validated with a verdict. -/
def Judged (r : Recursive) (heard : List Exchange) (name : Name) (qtype : RRType) (records authority : List RR)
    (rcode : Nat) (v : Verdict) : Prop :=
  ∃ n rrsigs, Validates r heard
    (r.validator n { name, qtype, rdatas := rrset records name qtype, rrsigs, authority, rcode }) v

theorem Judged.mono {name : Name} {qtype : RRType} {records authority : List RR} {rcode : Nat} {v : Verdict}
    (judged : Judged r heard name qtype records authority rcode v) (grown : heard ⊆ more) :
    Judged r more name qtype records authority rcode v := by
  obtain ⟨n, rrsigs, validates⟩ := judged
  exact ⟨n, rrsigs, validates.mono grown⟩

theorem runs_nextValidation : Runs r D 0 0 (.atomic Recursive.nextValidation) heard past low
    fun _ later _ => later = past ∧ True :=
  .atomic fun _ _ _ _ kept => ⟨kept.fewer (List.Sublist.refl _) (List.Sublist.refl _) (same_time rfl), same_time rfl, trivial⟩

theorem runs_validateOne (name : Name) (qtype : RRType) (records authority : List RR) (rcode : Nat) :
    Runs r D 0 0 (r.validateOne name qtype records authority rcode) heard past low
      fun heard _ out => Judged r heard name qtype records authority rcode out.1 := by
  rw [Recursive.validateOne]
  refine Runs.bind .ofExcept ?_ le_rfl
  rintro heard₁ _ low₁ rrsigs - - - ⟨rfl, -⟩
  refine Runs.bind runs_nextValidation ?_ le_rfl
  rintro heard₂ _ low₂ n - - - ⟨rfl, -⟩
  refine Runs.bind (runs_consult _) ?_ le_rfl
  rintro heard₃ past₃ low₃ v - - - validates
  exact .pure ⟨n, rrsigs, validates⟩

/-- What a verdict on the whole tells of one on a part. -/
def Verdict.Bears (whole part : Verdict) : Prop := part ≠ .bogus ∧ (whole = .secure → part = .secure)

def Vouched (r : Recursive) (heard : List Exchange) (whole : Verdict) (hop : Recursive.Hop) : Prop :=
  ∃ v, Judged r heard hop.name RRType.cname hop.own hop.authority noerror v ∧ whole.Bears v

theorem runs_validateHops (hops : List Recursive.Hop) {sofar : Verdict × Bool} (fine : sofar.1 ≠ .bogus) :
    Runs r D 0 0 (r.validateHops hops sofar) heard past low fun heard _ out => out.1 ≠ .bogus →
      out.1.Bears sofar.1 ∧ ∀ hop ∈ hops, Vouched r heard out.1 hop := by
  induction hops generalizing sofar heard past low with
  | nil => exact .pure fun sound => ⟨⟨sound, id⟩, fun hop none => absurd none List.not_mem_nil⟩
  | cons hop hops ih =>
      rw [Recursive.validateHops]
      refine Runs.bind (runs_validateOne _ _ _ _ _) ?_ le_rfl
      rintro heard₁ past₁ low₁ ⟨verdict, signed⟩ - - - judged
      dsimp only
      split
      · next bogus => exact .pure fun sound => absurd bogus sound
      next sound' =>
        split
        · next secure =>
            refine (ih fine).imp fun heard₂ _ out grown _ ends sound => ?_
            obtain ⟨bears, vouched⟩ := ends sound
            exact ⟨bears, List.forall_mem_cons.mpr ⟨⟨verdict, judged.mono grown, sound', fun _ => secure⟩, vouched⟩⟩
        · next other =>
            refine (ih sound').imp fun heard₂ _ out grown _ ends sound => ?_
            obtain ⟨bears, vouched⟩ := ends sound
            -- the verdict on the whole is no better than this one
            have whole : out.1 ≠ .secure := fun secure => other (bears.2 secure)
            exact ⟨⟨fine, fun secure => absurd secure whole⟩,
              List.forall_mem_cons.mpr ⟨⟨verdict, judged.mono grown, bears⟩, vouched⟩⟩

/-- Each part of an answer was validated, with verdicts that the one on the whole bears. -/
def AllVouched (r : Recursive) (heard : List Exchange) (out : Message) (name : Name) (qtype : RRType)
    (hops : List Recursive.Hop) (whole : Verdict) : Prop :=
  (∀ hop ∈ hops, Vouched r heard whole hop) ∧
    ∃ v, Judged r heard name qtype out.answers out.authority out.rcode v ∧ whole.Bears v

/-- What validation makes of an answer: nothing of it where a part is bogus, and AD where all is secure. -/
structure Applied (r : Recursive) (heard : List Exchange) (out : Message) (name : Name) (qtype : RRType)
    (hops : List Recursive.Hop) (msg : Message) : Prop where
  answers : msg.answers = out.answers ∨ msg.answers = []
  authority : msg.authority ⊆ out.authority
  additional : msg.additional = out.additional
  rcode : msg.answers ≠ [] → msg.rcode = out.rcode
  vouched : (msg.has flagAd = true ∨ (msg.answers ≠ [] ∧ msg.has flagCd = false)) →
    (msg.answers = out.answers ∧ msg.authority = out.authority ∧ msg.rcode = out.rcode) ∧
      ∃ whole, (msg.has flagAd = true → whole = .secure) ∧ AllVouched r heard out name qtype hops whole

theorem applied_conclude {out : Message} {name : Name} {qtype : RRType} {hops : List Recursive.Hop}
    {result : Verdict × Bool} (sound : result.1 ≠ .bogus → AllVouched r heard out name qtype hops result.1) :
    Applied r heard out name qtype hops (Recursive.conclude (out.setFlag flagAd false) result) := by
  rw [Recursive.conclude]
  split
  · next secure =>
      have fine : result.1 ≠ .bogus := by simp [secure]
      have rcode : ((out.setFlag flagAd false).setFlag flagAd).rcode = out.rcode := by
        rw [rcode_setFlag, rcode_setFlag]
      exact ⟨.inl rfl, List.Subset.refl _, rfl, fun _ => rcode, fun _ => ⟨⟨rfl, rfl, rcode⟩, result.1,
        fun _ => secure, sound fine⟩⟩
  · split
    · -- an explanation is an option, all the rest is as it was
      have emptied (m : Message) (answers : m.answers = []) (authority : m.authority = [])
          (additional : m.additional = out.additional) (unsaid : m.has flagAd = false) :
          Applied r heard out name qtype hops m := by
        refine ⟨.inr answers, by simp [authority], additional, fun some => absurd answers some, ?_⟩
        rintro (ad | ⟨some, -⟩)
        · exact absurd ad (by rw [unsaid]; decide)
        · exact absurd answers some
      have unsaid := (ad_setRcode { out.setFlag flagAd false with answers := [], authority := [] }).trans
        (Message.has_setFlag out false (by decide))
      dsimp only
      split
      · exact emptied _ rfl rfl rfl unsaid
      · exact emptied _ rfl rfl rfl unsaid
    · next other kept =>
        have unsaid : (out.setFlag flagAd false).has flagAd = false := Message.has_setFlag out false (by decide)
        refine ⟨.inl rfl, List.Subset.refl _, rfl, fun _ => rcode_setFlag out false, fun shown =>
          ⟨⟨rfl, rfl, rcode_setFlag out false⟩, result.1, ?_, ?_⟩⟩
        · exact fun ad => absurd ad (by rw [unsaid]; decide)
        · rcases shown with ad | ⟨-, cd⟩
          · exact absurd ad (by rw [unsaid]; decide)
          · exact sound fun bogus => kept ⟨bogus, cd⟩

theorem runs_applyValidation (out : Message) (name : Name) (qtype : RRType) (hops : List Recursive.Hop) :
    Runs r D 0 0 (r.applyValidation out name qtype hops) heard past low
      fun heard _ msg => Applied r heard out name qtype hops msg := by
  rw [Recursive.applyValidation]
  refine Runs.bind (runs_validateHops hops (by decide)) ?_ le_rfl
  rintro heard₁ past₁ low₁ sofar - - - ends
  split
  · next bogus => exact .pure (applied_conclude fun sound => absurd bogus sound)
  next sound =>
    obtain ⟨-, vouched⟩ := ends sound
    refine Runs.bind (runs_validateOne _ _ _ _ _) ?_ le_rfl
    rintro heard₂ past₂ low₂ one grown₂ - - judged
    replace judged : Judged r heard₂ name qtype out.answers out.authority out.rcode one.1 := by
      rwa [rcode_setFlag] at judged
    refine .pure (applied_conclude fun fine => ?_)
    split at fine
    · next either =>
        rw [if_pos either]
        have secure := either.resolve_left fine
        refine ⟨fun hop held => ?_, one.1, judged, fine, id⟩
        obtain ⟨v, judged, bears⟩ := vouched hop held
        exact ⟨v, judged.mono grown₂, bears.1, fun _ => bears.2 secure⟩
    · next neither =>
        rw [if_neg neither]
        rw [not_or] at neither
        refine ⟨fun hop held => ?_, one.1, judged, neither.1, fun secure => absurd secure neither.2⟩
        obtain ⟨v, judged, bears⟩ := vouched hop held
        exact ⟨v, judged.mono grown₂, bears⟩

/-! ### The chain -/

/-- From a name along CNAME records of an answer, each validated, to the records that were asked for. -/
inductive Vetted (r : Recursive) (heard : List Exchange) (msg : Message) (qtype : RRType) (whole : Verdict) :
    Name → Prop
  | final {name : Name} {v : Verdict} (judged : Judged r heard name qtype msg.answers msg.authority msg.rcode v)
      (bears : whole.Bears v) : Vetted r heard msg qtype whole name
  | hop {target : Name} {hop : Recursive.Hop} {rr : RR} (kept : hop.own ⊆ msg.answers)
      (vouched : Vouched r heard whole hop) (held : rr ∈ hop.own) (owner : (rr.name == hop.name) = true)
      (cname : rr.rtype = RRType.cname) (names : nameOf rr.rdata = .ok target)
      (rest : Vetted r heard msg qtype whole target) : Vetted r heard msg qtype whole hop.name

/-- What a client gets for a name: records that were said with authority, on the chain from the name. -/
structure Answered (r : Recursive) (heard : List Exchange) (name : Name) (qtype : RRType) (msg : Message) :
    Prop where
  answers : ∀ rr ∈ msg.answers, Told r.rootHints heard Message.answers rr
  authority : ∀ rr ∈ msg.authority, Told r.rootHints heard Message.authority rr
  additional : ∀ rr ∈ msg.additional, Told r.rootHints heard Message.additional rr
  chained : ∀ rr ∈ msg.answers, OnChain msg.answers name rr.name
  rcode : msg.answers ≠ [] → msg.rcode = noerror ∨ msg.rcode = nxdomain
  vetted : r.validate = true → (msg.has flagAd = true ∨ (msg.answers ≠ [] ∧ msg.has flagCd = false)) →
    ∃ whole, (msg.has flagAd = true → whole = .secure) ∧ Vetted r heard msg qtype whole name

theorem mem_select {p : RR → Except Fault Bool} {rrs own : List RR} (read : Recursive.select p rrs = .ok own)
    (rr : RR) :
    rr ∈ own ↔ rr ∈ rrs ∧ p rr = .ok true := by
  induction rrs generalizing own with
  | nil =>
      cases read
      simp
  | cons first rrs ih =>
      rw [Recursive.select] at read
      cases mine : p first with
      | error fault =>
          simp only [mine, bind, Except.bind] at read
          cases read
      | ok picked =>
          cases rest : Recursive.select p rrs with
          | error fault =>
              simp only [mine, rest, bind, Except.bind] at read
              cases read
          | ok others =>
              simp only [mine, rest, bind, Except.bind, pure, Except.pure] at read
              cases read
              rw [List.mem_cons, or_and_right, ← ih rest]
              cases picked with
              | true =>
                  rw [if_pos rfl, List.mem_cons]
                  exact or_congr_left ⟨fun same => ⟨same, by rw [same, mine]⟩, And.left⟩
              | false =>
                  rw [if_neg Bool.false_ne_true]
                  refine ⟨.inr, fun either => either.resolve_left fun same => ?_⟩
                  obtain ⟨rfl, picks⟩ := same
                  rw [mine] at picks
                  cases picks

theorem hopOwn_spec {name : Name} {rrs own : List RR} (read : Recursive.hopOwn name rrs = .ok own) :
    (∀ rr ∈ own, rr ∈ rrs ∧ (rr.name == name) = true) ∧
      ∀ rr ∈ rrs, (rr.name == name) = true → rr.rtype = RRType.cname → rr ∈ own := by
  refine ⟨fun rr held => ?_, fun rr held owner cname => (mem_select read rr).mpr ⟨held, ?_⟩⟩
  · obtain ⟨there, picks⟩ := (mem_select read rr).mp held
    refine ⟨there, ?_⟩
    by_contra other
    rw [Bool.not_eq_true] at other
    rw [if_pos other] at picks
    cases picks
  · rw [if_neg (by rw [owner]; decide), if_pos cname]

/-- The hops lead from one name to another. -/
def Linked (start : Name) : List Recursive.Hop → Name → Prop
  | [], name => start = name
  | hop :: hops, name => hop.name = start ∧ ∃ target, (∃ rr ∈ hop.own, (rr.name == hop.name) = true ∧
      rr.rtype = RRType.cname ∧ nameOf rr.rdata = .ok target) ∧ Linked target hops name

theorem Linked.snoc {start name target : Name} {hops : List Recursive.Hop} {hop : Recursive.Hop}
    (linked : Linked start hops name) (same : hop.name = name) {rr : RR} (held : rr ∈ hop.own)
    (owner : (rr.name == hop.name) = true) (cname : rr.rtype = RRType.cname) (names : nameOf rr.rdata = .ok target) :
    Linked start (hops ++ [hop]) target := by
  induction hops generalizing start with
  | nil =>
      obtain rfl := linked
      exact ⟨same, target, ⟨rr, held, owner, cname, names⟩, rfl⟩
  | cons first hops ih =>
      obtain ⟨begins, next, leads, rest⟩ := linked
      exact ⟨begins, next, leads, ih rest⟩

/-- Hops that are vouched for, before an end that is. -/
theorem Linked.vetted {msg : Message} {qtype : RRType} {whole : Verdict} {start name : Name}
    {hops : List Recursive.Hop} (linked : Linked start hops name) (kept : ∀ hop ∈ hops, hop.own ⊆ msg.answers)
    (vouched : ∀ hop ∈ hops, Vouched r heard whole hop) (ends : Vetted r heard msg qtype whole name) :
    Vetted r heard msg qtype whole start := by
  induction hops generalizing start with
  | nil =>
      obtain rfl := linked
      exact ends
  | cons hop hops ih =>
      obtain ⟨rfl, target, ⟨rr, held, owner, cname, names⟩, rest⟩ := linked
      obtain ⟨mine, others⟩ := List.forall_mem_cons.mp kept
      obtain ⟨here, further⟩ := List.forall_mem_cons.mp vouched
      exact .hop mine here held owner cname names (ih rest others further)

/-- Where the loop of a chain stands. -/
structure Chained (r : Recursive) (heard : List Exchange) (start name : Name) (answers : List RR)
    (hops : List Recursive.Hop) : Prop where
  told : ∀ rr ∈ answers, Told r.rootHints heard Message.answers rr
  chained : ∀ rr ∈ answers, OnChain answers start rr.name
  here : OnChain answers start name
  linked : Linked start hops name
  kept : ∀ hop ∈ hops, hop.own ⊆ answers

/-- One hop more. -/
theorem Chained.hop {start name target : Name} {answers own : List RR} {hops : List Recursive.Hop} {result : Message}
    (chained : Chained r heard start name answers hops) (trusted : Trusted r heard name (result, some target))
    (read : Recursive.hopOwn name result.answers = .ok own) :
    Chained r heard start target (answers ++ own) (hops ++ [{ name, own, authority := result.authority }]) := by
  obtain ⟨picked, all⟩ := hopOwn_spec read
  obtain ⟨rr, held, owner, cname, names⟩ := trusted.target target rfl
  have mine := all rr held owner cname
  have first {n : Name} (on : OnChain answers start n) : OnChain (answers ++ own) start n :=
    on.mono (List.subset_append_left _ _)
  refine ⟨List.forall_mem_append.mpr ⟨chained.told, fun rr held => trusted.answers rr (picked rr held).1⟩,
    List.forall_mem_append.mpr ⟨fun rr held => first (chained.chained rr held), fun rr held => ?_⟩, ?_,
    chained.linked.snoc rfl mine owner cname names, List.forall_mem_append.mpr ⟨fun hop held => ?_, ?_⟩⟩
  · exact (first chained.here).congr (BEq.symm (picked rr held).2)
  · exact .hop ((first chained.here).congr (BEq.symm owner)) (List.mem_append_right _ mine) cname names BEq.rfl
  · exact List.Subset.trans (chained.kept hop held) (List.subset_append_left _ _)
  · exact List.forall_mem_singleton.mpr (List.subset_append_right _ _)

theorem Chained.mono {start name : Name} {answers : List RR} {hops : List Recursive.Hop}
    (chained : Chained r heard start name answers hops) (grown : heard ⊆ more) :
    Chained r more start name answers hops :=
  ⟨fun rr held => (chained.told rr held).mono grown, chained.chained, chained.here, chained.linked, chained.kept⟩

/-- What a client would get before anything is validated. -/
structure Unjudged (r : Recursive) (heard : List Exchange) (start : Name) (out : Message) : Prop where
  answers : ∀ rr ∈ out.answers, Told r.rootHints heard Message.answers rr
  authority : ∀ rr ∈ out.authority, Told r.rootHints heard Message.authority rr
  additional : ∀ rr ∈ out.additional, Told r.rootHints heard Message.additional rr
  chained : ∀ rr ∈ out.answers, OnChain out.answers start rr.name
  rcode : out.answers ≠ [] → out.rcode = noerror ∨ out.rcode = nxdomain

theorem Chained.ends {start name : Name} {answers : List RR} {hops : List Recursive.Hop} {result : Message}
    (chained : Chained r heard start name answers hops) (questions : List Question)
    (trusted : Trusted r heard name (result, none)) (fine : result.rcode = noerror ∨ result.rcode = nxdomain) :
    Unjudged r heard start { result with answers := answers ++ result.answers, questions } := by
  refine ⟨List.forall_mem_append.mpr ⟨chained.told, trusted.answers⟩, trusted.authority, trusted.additional,
    List.forall_mem_append.mpr ⟨fun rr held => ?_, fun rr held => ?_⟩, fun _ => fine⟩
  · exact (chained.chained rr held).mono (List.subset_append_left _ _)
  · exact (chained.here.mono (List.subset_append_left _ _)).trans
      ((trusted.chained rr held).mono (List.subset_append_right _ _))

theorem Unjudged.mono {start : Name} {out : Message} (unjudged : Unjudged r heard start out) (grown : heard ⊆ more) :
    Unjudged r more start out :=
  ⟨fun rr held => (unjudged.answers rr held).mono grown, fun rr held => (unjudged.authority rr held).mono grown,
    fun rr held => (unjudged.additional rr held).mono grown, unjudged.chained, unjudged.rcode⟩

/-- What validation leaves of it is an answer. -/
theorem Unjudged.applied {start name : Name} {qtype : RRType} {answers : List RR} {hops : List Recursive.Hop}
    {out msg : Message} (unjudged : Unjudged r heard start out) (chained : Chained r heard start name answers hops)
    (kept : answers ⊆ out.answers) (applied : Applied r heard out name qtype hops msg) :
    Answered r heard start qtype msg := by
  have fewer : msg.answers ⊆ out.answers := by
    rcases applied.answers with same | none
    · exact same ▸ List.Subset.refl _
    · simp [none]
  refine ⟨fun rr held => unjudged.answers rr (fewer held),
    fun rr held => unjudged.authority rr (applied.authority held),
    fun rr held => unjudged.additional rr (applied.additional ▸ held), ?_, fun some => ?_, fun _ shown => ?_⟩
  · rcases applied.answers with same | none
    · rw [same]
      exact unjudged.chained
    · simp [none]
  · rw [applied.rcode some]
    exact unjudged.rcode fun none => some (List.subset_nil.mp (none ▸ fewer))
  · obtain ⟨⟨answers', authority, rcode⟩, whole, secure, vouched, v, judged, bears⟩ := applied.vouched shown
    refine ⟨whole, secure, chained.linked.vetted (fun hop held => ?_) vouched (.final ?_ bears)⟩
    · exact List.Subset.trans (chained.kept hop held) (answers' ▸ kept)
    · rwa [answers', authority, rcode]

theorem Answered.failed {name : Name} {qname : Text} {qtype qtype' : RRType} {msg : Message}
    (failed : failure qname qtype = .ok msg) : Answered r heard name qtype' msg := by
  obtain ⟨answers, authority, additional, unsaid⟩ := failure_empty failed
  exact ⟨by simp [answers], by simp [authority], by simp [additional], by simp [answers], by simp [answers],
    fun _ shown => by simp [answers, unsaid] at shown⟩

theorem runs_followChain {qname : Text} {qtype : RRType} {left : Nat} {start name : Name} {answers : List RR}
    {hops : List Recursive.Hop} {seen : List Name} (chained : Chained r heard start name answers hops) :
    Runs r D 0 0 (r.followChain qname qtype left name answers hops seen) heard past low
      fun heard _ msg => Answered r heard start qtype msg := by
  have fails {heard past : List Exchange} {low : Shared} :
      Runs r D 0 0 (.ofExcept (failure qname qtype)) heard past low fun heard _ msg => Answered r heard start qtype msg :=
    Runs.imp .ofExcept fun _ _ _ _ _ ends => .failed ends.2
  induction left generalizing name answers hops seen heard past low with
  | zero => exact fails
  | succ left ih =>
      rw [Recursive.followChain]
      refine Runs.bind (runs_lookup _ _ _ name qtype) ?_ le_rfl
      rintro heard₁ past₁ low₁ ⟨result, target⟩ grown₁ - - trusted
      dsimp only
      cases target with
      | some target =>
          refine Runs.bind .ofExcept ?_ le_rfl
          rintro heard₂ _ low₂ own grown₂ - - ⟨rfl, read⟩
          split
          · exact fails
          · exact ih ((chained.mono (List.Subset.trans grown₁ grown₂)).hop (trusted.mono grown₂) read)
      | none =>
          dsimp only
          split
          · exact fails
          next fine =>
            refine Runs.bind .ofExcept ?_ le_rfl
            rintro heard₂ _ low₂ asked grown₂ - - ⟨rfl, -⟩
            have here : Chained r heard₂ start name answers hops := chained.mono (List.Subset.trans grown₁ grown₂)
            have ends := here.ends [⟨asked, qtype, RRClass.in⟩] (trusted.mono grown₂) (by tauto)
            split
            · exact (runs_applyValidation _ name qtype hops).imp fun _ _ _ grown _ applied =>
                (ends.mono grown).applied (here.mono grown) (List.subset_append_left _ _) applied
            · next off =>
                exact .pure ⟨ends.answers, ends.authority, ends.additional, ends.chained, ends.rcode,
                  fun on => absurd on off⟩

end

end Trench.Resolver
