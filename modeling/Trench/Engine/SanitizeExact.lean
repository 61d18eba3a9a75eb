import Trench.Engine.Harden
import Trench.Lib.Follow

set_option autoImplicit false

/- Which records of a reply are solicited, and that the others change nothing. -/
namespace Trench.Engine

open Wire

/-! ### The names and records that were asked for -/

/-- The target of the first CNAME record of an owner. -/
def FirstCname (answers : List RR) (owner target : Name) : Prop :=
  ∃ before rr after, answers = before ++ rr :: after ∧ rr.rtype = RRType.cname ∧ (rr.name == owner) = true ∧
    chainTarget rr.rdata = some target ∧
    ∀ earlier ∈ before, earlier.rtype = RRType.cname → (earlier.name == owner) = true →
      chainTarget earlier.rdata = none

/-- A name that so many CNAME steps from the question lead to. -/
inductive Reaches (answers : List RR) (qname : Name) : Nat → Name → Prop where
  | here : Reaches answers qname 0 qname
  | step {k : Nat} {owner target : Name} (reached : Reaches answers qname k owner)
      (goes : FirstCname answers owner target) : Reaches answers qname (k + 1) target

/-- Owned by the question name or a name that it is an alias of. -/
def OnChain (resp : Message) (qname : Name) (rr : RR) : Prop :=
  ∃ k ≤ maxCnameChain, ∃ link, Reaches resp.answers qname k link ∧ (link == rr.name) = true

/-- Owned by such a name or an ancestor of one. -/
def Vouched (resp : Message) (qname : Name) (rr : RR) : Prop :=
  OnChain resp qname rr ∨
    ∃ k ≤ maxCnameChain, ∃ link, Reaches resp.answers qname k link ∧ link.isSubdomainOf rr.name = true

/-- A name in its own zone that a record points at. -/
def PointsAt (rr : RR) (target : Name) : Prop :=
  rr.rtype ∈ targetTypes ∧ ∃ name, targetName rr.rdata = some name ∧
    ((name == rr.name) = true ∨ name.isSubdomainOf rr.name = true) ∧ (name == target) = true

/-- Owned by such a name or one that a solicited record points at. -/
def Wanted (resp : Message) (qname : Name) (rr : RR) : Prop :=
  OnChain resp qname rr ∨
    (∃ kept ∈ resp.answers, OnChain resp qname kept ∧ PointsAt kept rr.name) ∨
    ∃ kept ∈ resp.authority, Vouched resp qname kept ∧ PointsAt kept rr.name

/-- Exactly the records with a property, in their order. -/
def Selects (holds : RR → Prop) (all kept : List RR) : Prop :=
  ∃ p : RR → Bool, (∀ rr, p rr = true ↔ holds rr) ∧ kept = all.filter p

/-- More records without the property, at any place. -/
inductive Adds (holds : RR → Prop) : List RR → List RR → Prop where
  | nil : Adds holds [] []
  | keep (rr : RR) {all more : List RR} (rest : Adds holds all more) : Adds holds (rr :: all) (rr :: more)
  | add {rr : RR} (unsolicited : ¬holds rr) {all more : List RR} (rest : Adds holds all more) :
      Adds holds all (rr :: more)

/-- What is left of a reply is what was asked for. -/
structure Exact (resp : Message) (qname : Name) (out : Message) : Prop where
  answers : Selects (OnChain resp qname) resp.answers out.answers
  authority : Selects (Vouched resp qname) resp.authority out.authority
  additional : Selects (Wanted resp qname) resp.additional out.additional
  others : { out with answers := resp.answers, authority := resp.authority, additional := resp.additional } = resp

/-- A reply with more unsolicited records in its sections. -/
structure Padded (resp : Message) (qname : Name) (more : Message) : Prop where
  answers : Adds (OnChain resp qname) resp.answers more.answers
  authority : Adds (Vouched resp qname) resp.authority more.authority
  additional : Adds (Wanted resp qname) resp.additional more.additional
  others : { more with answers := resp.answers, authority := resp.authority, additional := resp.additional } = resp

/-- The name that a reply is held against: the one that is given, or the question's where the text that is
given is no name. -/
def ownerOf (resp : Message) : Text ⊕ Name → Option Name
  | .inr qname => some qname
  | .inl qname =>
      if qname = [] then resp.question.map Question.name
      else
        match Name.fromText qname with
        | .ok owner => some owner
        | .error _ => resp.question.map Question.name

/-- `sanitize`; without a name nothing is left. -/
def sanitizeFor (resp : Message) (qname : Text ⊕ Name) : Message :=
  match ownerOf resp qname with
  | none => { resp with answers := [], authority := [], additional := [] }
  | some owner => sanitize resp owner

/-! ### The chain -/

/-- The target that the chain goes on with from a name. -/
def nextOf (answers : List RR) (owner : Name) : Option Name :=
  ((cnames answers).find? fun entry => entry.1 == owner).map Prod.snd

theorem followChain_eq (answers : List RR) (fuel : Nat) (cur : Name) (seen : List Name) :
    followChain (cnames answers) fuel cur seen = Follow.follow (nextOf answers) fuel cur seen := by
  induction fuel generalizing cur seen with
  | zero => rfl
  | succ fuel ih =>
      rw [followChain, Follow.follow, nextOf]
      cases (cnames answers).find? fun entry => entry.1 == cur with
      | none => rfl
      | some entry =>
          obtain ⟨owner, target⟩ := entry
          dsimp only [Option.map_some]
          rw [ih]

theorem chain_eq (qname : Name) (answers : List RR) :
    chain qname answers = Follow.follow (nextOf answers) maxCnameChain qname [qname] :=
  followChain_eq answers maxCnameChain qname [qname]

theorem nextOf_cons (rr : RR) (answers : List RR) (owner : Name) : nextOf (rr :: answers) owner =
    if rr.rtype = RRType.cname ∧ (rr.name == owner) = true then (chainTarget rr.rdata).or (nextOf answers owner)
    else nextOf answers owner := by
  rw [nextOf, cnames, List.filterMap_cons]
  by_cases renames : rr.rtype = RRType.cname
  · rw [if_pos renames]
    cases chainTarget rr.rdata with
    | none =>
        rw [Option.none_or, ite_self]
        rfl
    | some target =>
        change ((((rr.name, target) :: cnames answers).find? _).map Prod.snd) = _
        rw [List.find?_cons]
        by_cases owned : (rr.name == owner) = true
        · rw [if_pos ⟨renames, owned⟩]
          simp only [owned]
          rfl
        · rw [if_neg fun both => owned both.2]
          simp only [Bool.eq_false_iff.mpr owned]
          rfl
  · rw [if_neg renames, if_neg fun both => renames both.1]
    rfl

theorem firstCname_cons {rr : RR} {answers : List RR} {owner target : Name} :
    FirstCname (rr :: answers) owner target ↔
      (rr.rtype = RRType.cname ∧ (rr.name == owner) = true ∧ chainTarget rr.rdata = some target) ∨
      (rr.rtype = RRType.cname → (rr.name == owner) = true → chainTarget rr.rdata = none) ∧
        FirstCname answers owner target := by
  constructor
  · rintro ⟨before, first, after, split, renames, owned, goes, skipped⟩
    cases before with
    | nil =>
        cases split
        exact .inl ⟨renames, owned, goes⟩
    | cons other before =>
        cases split
        obtain ⟨here, later⟩ := List.forall_mem_cons.mp skipped
        exact .inr ⟨here, before, first, after, rfl, renames, owned, goes, later⟩
  · rintro (⟨renames, owned, goes⟩ | ⟨here, before, first, after, rfl, renames, owned, goes, later⟩)
    · exact ⟨[], rr, answers, rfl, renames, owned, goes, fun _ none => absurd none List.not_mem_nil⟩
    · exact ⟨rr :: before, first, after, rfl, renames, owned, goes, List.forall_mem_cons.mpr ⟨here, later⟩⟩

theorem nextOf_iff {answers : List RR} {owner target : Name} :
    nextOf answers owner = some target ↔ FirstCname answers owner target := by
  induction answers with
  | nil =>
      refine iff_of_false (fun none => nomatch none) ?_
      rintro ⟨before, rr, after, split, -⟩
      cases before <;> cases split
  | cons rr answers ih =>
      rw [firstCname_cons, nextOf_cons]
      by_cases both : rr.rtype = RRType.cname ∧ (rr.name == owner) = true
      · rw [if_pos both, ← ih]
        simp only [both, true_and, forall_const]
        cases chainTarget rr.rdata with
        | none => simp
        | some first => simp
      · rw [if_neg both, ← ih]
        constructor
        · exact fun later => .inr ⟨fun renames owned => absurd ⟨renames, owned⟩ both, later⟩
        · rintro (⟨renames, owned, -⟩ | ⟨-, later⟩)
          · exact absurd ⟨renames, owned⟩ both
          · exact later

theorem beq_congr_right {a b : Name} (same : (a == b) = true) (name : Name) : (name == a) = (name == b) := by
  rw [Bool.eq_iff_iff]
  exact ⟨fun equal => BEq.trans equal same, fun equal => BEq.trans equal (BEq.symm same)⟩

theorem nextOf_congr (answers : List RR) {a b : Name} (same : (a == b) = true) :
    nextOf answers a = nextOf answers b := by
  simp only [nextOf, beq_congr_right same]

theorem reaches_iff {answers : List RR} {qname : Name} {k : Nat} {n : Name} :
    Follow.Reached (nextOf answers) qname k n ↔ Reaches answers qname k n := by
  constructor
  · intro reached
    induction reached with
    | here => exact .here
    | step _ goes ih => exact .step ih (nextOf_iff.mp goes)
  · intro reached
    induction reached with
    | here => exact .here
    | step _ goes ih => exact .step ih (nextOf_iff.mpr goes)

theorem mem_chain {qname n : Name} {answers : List RR} : (∃ link ∈ chain qname answers, (link == n) = true) ↔
    ∃ k ≤ maxCnameChain, ∃ link, Reaches answers qname k link ∧ (link == n) = true := by
  rw [chain_eq, Follow.mem_follow (nextOf_congr answers)]
  simp only [reaches_iff]

/-- The chain depends on the records that its names own. -/
theorem nextOf_owned (answers : List RR) (owner : Name) :
    nextOf answers owner = nextOf (answers.filter fun rr => rr.name == owner) owner := by
  induction answers with
  | nil => rfl
  | cons rr answers ih =>
      rw [nextOf_cons, List.filter_cons]
      by_cases owned : (rr.name == owner) = true
      · rw [if_pos owned, nextOf_cons, ih]
      · rw [if_neg owned, if_neg fun both => owned both.2, ih]

theorem chain_congr {qname : Name} {answers answers' : List RR}
    (agree : ∀ link ∈ chain qname answers, (answers'.filter fun rr => rr.name == link) =
      answers.filter fun rr => rr.name == link) : chain qname answers' = chain qname answers := by
  rw [chain_eq] at agree
  rw [chain_eq, chain_eq]
  refine Follow.follow_congr maxCnameChain List.mem_cons_self fun link held => ?_
  rw [nextOf_owned answers', agree link held, ← nextOf_owned]

theorem listed_iff {names : List Name} {rr : RR} :
    listed names rr = true ↔ ∃ name ∈ names, (name == rr.name) = true :=
  List.any_eq_true

theorem mem_chain_iff_answered {resp : Message} {qname : Name} {rr : RR} :
    listed (chain qname resp.answers) rr = true ↔ OnChain resp qname rr := listed_iff.trans mem_chain

/-! ### The sections -/

section

variable {resp more : Message} {qname : Name} {rr : RR}

theorem isSubdomainOf_congr {a b : Name} (same : (a == b) = true) (name : Name) :
    a.isSubdomainOf name = b.isSubdomainOf name := by
  rw [Bool.eq_iff_iff, Name.isSubdomainOf_iff, Name.isSubdomainOf_iff, Name.beq_iff.mp same]

/-- The test of the authority section. -/
def vouches (allowed : List Name) (rr : RR) : Bool :=
  listed allowed rr || allowed.any fun link => inBailiwick rr.name link

theorem vouches_iff : vouches (chain qname resp.answers) rr = true ↔ Vouched resp qname rr := by
  rw [vouches, Bool.or_eq_true, mem_chain_iff_answered, List.any_eq_true]
  refine or_congr_right ?_
  constructor
  · rintro ⟨link, held, inside⟩
    obtain ⟨k, bound, other, reached, same⟩ := mem_chain.mp ⟨link, held, BEq.rfl⟩
    exact ⟨k, bound, other, reached, (isSubdomainOf_congr same rr.name).trans inside⟩
  · rintro ⟨k, bound, other, reached, inside⟩
    obtain ⟨link, held, same⟩ := mem_chain.mpr ⟨k, bound, other, reached, BEq.rfl⟩
    exact ⟨link, held, (isSubdomainOf_congr same rr.name).trans inside⟩

theorem listed_targets {rrs : List RR} : listed (targets rrs) rr = true ↔ ∃ kept ∈ rrs, PointsAt kept rr.name := by
  rw [listed_iff]
  constructor
  · rintro ⟨target, held, same⟩
    obtain ⟨kept, listed, found⟩ := List.mem_filterMap.mp held
    split at found
    · next type =>
        obtain ⟨names, within⟩ := Option.filter_eq_some_iff.mp found
        exact ⟨kept, listed, type, target, names, Bool.or_eq_true_iff.mp within, same⟩
    · cases found
  · rintro ⟨kept, listed, type, target, names, within, same⟩
    refine ⟨target, List.mem_filterMap.mpr ⟨kept, listed, ?_⟩, same⟩
    rw [if_pos type]
    exact Option.filter_eq_some_iff.mpr ⟨names, Bool.or_eq_true_iff.mpr within⟩

/-- The names of the records that may come along. -/
def wanted (resp : Message) (qname : Name) : List Name :=
  chain qname resp.answers ++ targets (sanitize resp qname).answers ++ targets (sanitize resp qname).authority

theorem wanted_iff : listed (wanted resp qname) rr = true ↔ Wanted resp qname rr := by
  have parts : listed (wanted resp qname) rr = true ↔ listed (chain qname resp.answers) rr = true ∨
      listed (targets (sanitize resp qname).answers) rr = true ∨
      listed (targets (sanitize resp qname).authority) rr = true := by
    rw [wanted, listed, List.any_append, List.any_append, Bool.or_eq_true, Bool.or_eq_true, or_assoc]
    rfl
  rw [parts, mem_chain_iff_answered, listed_targets, listed_targets, Wanted]
  refine or_congr_right (or_congr ?_ ?_)
  · refine exists_congr fun kept => ?_
    change kept ∈ resp.answers.filter (listed (chain qname resp.answers)) ∧ _ ↔ _
    rw [List.mem_filter, mem_chain_iff_answered, and_assoc]
  · refine exists_congr fun kept => ?_
    change kept ∈ resp.authority.filter (vouches (chain qname resp.answers)) ∧ _ ↔ _
    rw [List.mem_filter, vouches_iff, and_assoc]

theorem exact_sanitize (resp : Message) (qname : Name) : Exact resp qname (sanitize resp qname) where
  answers := ⟨_, fun _ => mem_chain_iff_answered, rfl⟩
  authority := ⟨vouches (chain qname resp.answers), fun _ => vouches_iff, rfl⟩
  additional := ⟨listed (wanted resp qname), fun _ => wanted_iff, rfl⟩
  others := rfl

/-! ### Unsolicited records -/

theorem Adds.filter {holds : RR → Prop} {all more : List RR} (adds : Adds holds all more) {p : RR → Bool}
    (solicits : ∀ rr, p rr = true → holds rr) : more.filter p = all.filter p := by
  induction adds with
  | nil => rfl
  | keep rr rest ih => rw [List.filter_cons, List.filter_cons, ih]
  | add unsolicited rest ih =>
      rw [List.filter_cons, if_neg fun kept => unsolicited (solicits _ kept), ih]

theorem Padded.chain_eq (padded : Padded resp qname more) :
    chain qname more.answers = chain qname resp.answers := by
  refine chain_congr fun link held => padded.answers.filter fun rr owned => ?_
  exact mem_chain_iff_answered.mp (listed_iff.mpr ⟨link, held, BEq.symm owned⟩)

/-- Records that were not asked for change nothing. -/
theorem Padded.sanitize_eq (padded : Padded resp qname more) :
    (sanitize more qname).answers = (sanitize resp qname).answers ∧
      (sanitize more qname).authority = (sanitize resp qname).authority ∧
      (sanitize more qname).additional = (sanitize resp qname).additional := by
  have answers : (sanitize more qname).answers = (sanitize resp qname).answers := by
    change more.answers.filter (listed (chain qname more.answers)) = _
    rw [padded.chain_eq]
    exact padded.answers.filter fun rr => mem_chain_iff_answered.mp
  have authority : (sanitize more qname).authority = (sanitize resp qname).authority := by
    change more.authority.filter (vouches (chain qname more.answers)) = _
    rw [padded.chain_eq]
    exact padded.authority.filter fun rr => vouches_iff.mp
  refine ⟨answers, authority, ?_⟩
  change more.additional.filter (listed (wanted more qname)) = _
  rw [wanted, answers, authority, padded.chain_eq]
  exact padded.additional.filter fun rr => wanted_iff.mp

theorem chain_sanitize (resp : Message) (qname : Name) :
    chain qname (sanitize resp qname).answers = chain qname resp.answers := by
  refine chain_congr fun link held => ?_
  change ((resp.answers.filter (listed (chain qname resp.answers))).filter _) = _
  rw [List.filter_filter]
  refine List.filter_congr fun rr _ => ?_
  by_cases owned : (rr.name == link) = true
  · rw [owned, Bool.true_and]
    exact listed_iff.mpr ⟨link, held, BEq.symm owned⟩
  · rw [Bool.eq_false_iff.mpr owned, Bool.false_and]

theorem filter_twice (p : RR → Bool) (rrs : List RR) : (rrs.filter p).filter p = rrs.filter p := by
  rw [List.filter_filter]
  simp only [Bool.and_self]

theorem sanitize_sanitize (resp : Message) (qname : Name) :
    sanitize (sanitize resp qname) qname = sanitize resp qname := by
  have answers : (sanitize (sanitize resp qname) qname).answers = (sanitize resp qname).answers := by
    change (sanitize resp qname).answers.filter (listed (chain qname (sanitize resp qname).answers)) = _
    rw [chain_sanitize]
    exact filter_twice _ _
  have authority : (sanitize (sanitize resp qname) qname).authority = (sanitize resp qname).authority := by
    change (sanitize resp qname).authority.filter (vouches (chain qname (sanitize resp qname).answers)) = _
    rw [chain_sanitize]
    exact filter_twice _ _
  have additional : (sanitize (sanitize resp qname) qname).additional = (sanitize resp qname).additional := by
    change (sanitize resp qname).additional.filter (listed (wanted (sanitize resp qname) qname)) = _
    rw [wanted, answers, authority, chain_sanitize]
    exact filter_twice _ _
  change { resp with
    answers := (sanitize (sanitize resp qname) qname).answers
    authority := (sanitize (sanitize resp qname) qname).authority
    additional := (sanitize (sanitize resp qname) qname).additional } = _
  rw [answers, authority, additional]
  rfl

end

theorem ownerOf_congr {resp more : Message} (same : more.questions = resp.questions) (qname : Text ⊕ Name) :
    ownerOf more qname = ownerOf resp qname := by
  have question : more.question = resp.question := congrArg List.head? same
  cases qname with
  | inl qname => rw [ownerOf, ownerOf, question]
  | inr qname => rfl

/-- A reply that is held against a name keeps exactly what was asked for, however often it is sanitized and
whatever else it carried; without a name it keeps nothing. -/
theorem sanitizeFor_exact (resp : Message) (qname : Text ⊕ Name) :
    (∀ owner, ownerOf resp qname = some owner → Exact resp owner (sanitizeFor resp qname) ∧
      ∀ more, Padded resp owner more → (sanitizeFor more qname).answers = (sanitizeFor resp qname).answers ∧
        (sanitizeFor more qname).authority = (sanitizeFor resp qname).authority ∧
        (sanitizeFor more qname).additional = (sanitizeFor resp qname).additional) ∧
    (ownerOf resp qname = none →
      sanitizeFor resp qname = { resp with answers := [], authority := [], additional := [] }) ∧
    sanitizeFor (sanitizeFor resp qname) qname = sanitizeFor resp qname := by
  refine ⟨fun owner named => ?_, fun unnamed => ?_, ?_⟩
  · have itself : sanitizeFor resp qname = sanitize resp owner := by rw [sanitizeFor, named]
    rw [itself]
    refine ⟨exact_sanitize resp owner, fun more padded => ?_⟩
    have questions : more.questions = resp.questions := by
      have same := congrArg Message.questions padded.others
      exact same
    have other : sanitizeFor more qname = sanitize more owner := by
      rw [sanitizeFor, ownerOf_congr questions, named]
    rw [other]
    exact padded.sanitize_eq
  · rw [sanitizeFor, unnamed]
  · cases named : ownerOf resp qname with
    | none =>
        have itself : sanitizeFor resp qname = { resp with answers := [], authority := [], additional := [] } := by
          rw [sanitizeFor, named]
        have unnamed : ownerOf (sanitizeFor resp qname) qname = none := by
          rw [itself]
          exact (ownerOf_congr rfl qname).trans named
        rw [sanitizeFor, unnamed, itself]
    | some owner =>
        have itself : sanitizeFor resp qname = sanitize resp owner := by rw [sanitizeFor, named]
        have again : ownerOf (sanitizeFor resp qname) qname = some owner := by
          rw [itself]
          exact (ownerOf_congr rfl qname).trans named
        rw [sanitizeFor, again, itself]
        exact sanitize_sanitize resp owner

end Trench.Engine
