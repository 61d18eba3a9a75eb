import Mathlib
import Trench.AuthZone.ZoneChain

set_option autoImplicit false

/- What a lookup has to answer, from the apex down: the topmost delegation on the
way, the records at the name itself, those of the wildcard at its closest encloser, or
nothing. -/
namespace Trench.AuthZone

open Wire
open Dnssec (wildcardOf lastLabels)

namespace Zone

/-! ### The answers asked for -/

/-- An answer without data, with the SOA. -/
def negative (z : Zone) (rcode : Nat) : Answer := { rcode, authority := z.soaRr false }

/-- A record at an owner that a question of a type asks for: one of that type, for a
question of type ANY any record, and for RRSIG the signatures too. -/
inductive Matches (z : Zone) (owner shown : Name) (node : Node) (qtype : RRType) : RR → Prop
  | held {rtype : RRType} {rds : List Rdata} {rd : Rdata} (asked : qtype = rtype ∨ qtype = RRType.any)
      (there : node.get? rtype = some rds) (inside : rd ∈ rds) :
      Matches z owner shown node qtype ⟨shown, rtype, RRClass.in, z.ttlOf owner rtype, rd⟩
  | signature {covered : RRType} {sig : RrsigData} (asked : qtype = RRType.rrsig ∨ qtype = RRType.any)
      (there : z.rrsigs.get? (owner, covered) = some sig) :
      Matches z owner shown node qtype
        ⟨shown, RRType.rrsig, RRClass.in, z.ttlOf owner covered, .rrsig sig⟩

/-- A question of the type follows a CNAME at the node. -/
abbrev Chased (qtype : RRType) (node : Node) : Prop :=
  qtype ≠ RRType.cname ∧ node.contains RRType.cname = true

/-- The answer from the records at one owner, shown under the name asked for. A
question that records of several sets match may be answered with a part of them. -/
inductive AnswersAt (z : Zone) (owner shown : Name) (node : Node) (qtype : RRType) : Answer → Prop
  | chain {rd : Rdata} {target : Name} (chased : Chased qtype node)
      (link : linkAt node = some (rd, target)) :
      AnswersAt z owner shown node qtype
        { answers := ⟨shown, RRType.cname, RRClass.in, z.ttlOf owner RRType.cname, rd⟩ ::
            z.follow (z.ownNode qtype) qtype (maxCnameChain - 1) [owner] target }
  | data {rds : List Rdata} (direct : ¬ Chased qtype node) (there : node.get? qtype = some rds) :
      AnswersAt z owner shown node qtype { answers := rrset shown qtype (z.ttlOf owner qtype) rds }
  | selection {rrs : List RR} (direct : ¬ Chased qtype node) (lacks : node.contains qtype = false)
      (some : rrs ≠ []) (each : ∀ rr ∈ rrs, Matches z owner shown node qtype rr) :
      AnswersAt z owner shown node qtype { answers := rrs }
  | nodata (direct : ¬ Chased qtype node) (none : ∀ rr, ¬ Matches z owner shown node qtype rr) :
      AnswersAt z owner shown node qtype (z.negative noError)

/-- The steps of the lookup algorithm, in their order. -/
inductive Resolves (z : Zone) (qname : Name) (qtype : RRType) : Answer → Prop
  | referral {cut : Name} {ans : Answer} (top : z.topCut qname qtype = some cut)
      (refers : z.referral cut = .ok ans) : Resolves z qname qtype ans
  | held {node : Node} {ans : Answer} (uncut : z.topCut qname qtype = none)
      (there : z.realNode qname = some node) (answers : z.AnswersAt qname qname node qtype ans) :
      Resolves z qname qtype ans
  | emptyNonTerminal (uncut : z.topCut qname qtype = none) (bare : z.realNode qname = none)
      (found : z.Exists qname) : Resolves z qname qtype (z.negative noError)
  | synthesized {e : Name} {node : Node} {ans : Answer} (uncut : z.topCut qname qtype = none)
      (absent : ¬ z.Exists qname) (closest : z.Closest qname e)
      (there : z.realNode (wildcardOf e) = some node)
      (answers : z.AnswersAt (wildcardOf e) qname node qtype ans) : Resolves z qname qtype ans
  | emptyWildcard {e : Name} (uncut : z.topCut qname qtype = none) (absent : ¬ z.Exists qname)
      (closest : z.Closest qname e) (bare : z.realNode (wildcardOf e) = none)
      (found : z.Exists (wildcardOf e)) : Resolves z qname qtype (z.negative noError)
  | missing {e : Name} (uncut : z.topCut qname qtype = none) (absent : ¬ z.Exists qname)
      (closest : z.Closest qname e) (none : ¬ z.Exists (wildcardOf e)) :
      Resolves z qname qtype (z.negative nxDomain)

/-! ### When the lookup gives them -/

/-- The records at an owner are answered as asked: a CNAME chain stays at the zone's
own records, and what matches stands in the slot of the type. -/
structure Upright (z : Zone) (owner shown : Name) (node : Node) (qtype : RRType) : Prop where
  chain : ∀ rd target, Chased qtype node → linkAt node = some (rd, target) →
    ∀ left seen last, Reached z (z.ownNode qtype) qtype (maxCnameChain - 1) [owner] target left seen
      last → ¬ z.Strays qtype left seen last
  slot : ¬ Chased qtype node → (∃ rr, Matches z owner shown node qtype rr) →
    node.contains qtype = true

/-- The wildcard below an encloser has records that are answered as asked, or does not
exist at all. One that only hashed records stand at may exist as an empty non-terminal. -/
structure UprightWildcard (z : Zone) (qname wild : Name) (qtype : RRType) : Prop where
  real : ∀ node, z.realNode wild = some node → z.Upright wild qname node qtype
  empty : z.records.get? wild = none → ¬ z.Exists wild
  hashed : ∀ node, z.records.get? wild = some node → nsec3Only node = true →
    z.Exists wild ∧ node.contains qtype = false

/-- One cut at most on the way, and records that are answered as asked. -/
structure Regular (z : Zone) (qname : Name) (qtype : RRType) : Prop where
  single : ∀ m ∈ z.way qname qtype, ∀ n ∈ z.way qname qtype,
    z.isCut m = true → z.isCut n = true → m = n
  held : z.topCut qname qtype = none →
    ∀ node, z.realNode qname = some node → z.Upright qname qname node qtype
  wildcard : z.topCut qname qtype = none → ¬ z.Exists qname →
    ∀ e, z.Closest qname e → z.UprightWildcard qname (wildcardOf e) qtype

/-! ### What the code answers -/

/-- `_answer_at` without signatures. -/
def plainAt (z : Zone) (owner shown : Name) (node : Node) (qtype : RRType) : Answer :=
  if Chased qtype node then
    match linkAt node with
    | none => {}
    | some (rd, target) =>
        { answers := ⟨shown, RRType.cname, RRClass.in, z.ttlOf owner RRType.cname, rd⟩ ::
            z.follow z.records.get? qtype (maxCnameChain - 1) [owner] target }
  else
    match node.get? qtype with
    | none => z.negative noError
    | some rds => { answers := rrset shown qtype (z.ttlOf owner qtype) rds }

section

variable (sha1 : Octets → Octets)

theorem nodata_plain (z : Zone) (qname : Name) (wildcard encloser : Option Name) :
    z.nodata sha1 false qname wildcard encloser = .ok (z.negative noError) := by
  rw [negative, ← List.append_nil (z.soaRr false)]
  cases wildcard <;> rfl

theorem nxdomain_plain (z : Zone) (qname encloser : Name) :
    z.nxdomain sha1 false qname encloser = .ok (z.negative nxDomain) := by
  rw [negative, ← List.append_nil (z.soaRr false)]
  rfl

theorem withExpansion_plain (z : Zone) (owner : Name) (synth encloser : Option Name) (out : Answer) :
    z.withExpansion sha1 false owner synth encloser out = .ok out := by
  cases synth with
  | none => rfl
  | some qname =>
      change Except.ok { out with authority := out.authority ++ [] } = _
      rw [List.append_nil]

theorem Formed.answerAt {z : Zone} (formed : z.Formed) {owner : Name} {node : Node}
    (held : z.records.get? owner = some node) (qtype : RRType) (synth encloser : Option Name) :
    z.answerAt sha1 owner node qtype false synth encloser =
      .ok (z.plainAt owner (synth.getD owner) node qtype) := by
  rw [Zone.answerAt, plainAt]
  by_cases chased : Chased qtype node
  · obtain ⟨rd, rest, target, chained, leads, link⟩ := formed.linkAt held chased.2
    have walked := formed.chase qtype (maxCnameChain - 1) [] [] owner (synth.getD owner) target node rd
      rest chained leads rfl rfl
    rw [if_pos chased, if_pos chased, link]
    change (z.chase qtype false (maxCnameChain - 1 + 1) [] [] owner node (synth.getD owner) >>= _) = _
    rw [walked]
    exact withExpansion_plain sha1 z owner synth encloser _
  · rw [if_neg chased, if_neg chased]
    cases node.get? qtype with
    | none => exact nodata_plain sha1 z _ _ _
    | some rds => exact withExpansion_plain sha1 z owner synth encloser _

theorem realNode_eq {z : Zone} {name : Name} {node : Node} (real : z.realNode name = some node) :
    z.records.get? name = some node ∧ nsec3Only node = false := by
  obtain ⟨held, shown⟩ := Option.filter_eq_some_iff.mp real
  exact ⟨held, by simpa using shown⟩

/-- The answer where no delegation is on the way. -/
def plainAnswer (z : Zone) (qname : Name) (qtype : RRType) : Answer :=
  match z.realNode qname with
  | some node => z.plainAt qname qname node qtype
  | none =>
      if z.closestEncloser qname == qname then z.negative noError
      else
        match z.records.get? (wildcardOf (z.closestEncloser qname)) with
        | some node => z.plainAt (wildcardOf (z.closestEncloser qname)) qname node qtype
        | none => z.negative nxDomain

theorem Formed.lookup {z : Zone} (formed : z.Formed) (qname : Name) (qtype : RRType) :
    z.lookup sha1 qname qtype =
      match (z.way qname qtype).reverse.find? z.isCut with
      | some cut => z.referral cut
      | none => .ok (z.plainAnswer qname qtype) := by
  rw [Zone.lookup, delegation, cutFrom_way]
  cases found : (z.way qname qtype).reverse.find? z.isCut with
  | some cut =>
      obtain ⟨ans, first, rest, refers, _⟩ := formed.referral (List.find?_some found)
      simp only [refers]
      rfl
  | none =>
      change (match z.realNode qname with
        | some node => z.answerAt sha1 qname node qtype false
        | none => _) = Except.ok (z.plainAnswer qname qtype)
      rw [plainAnswer]
      cases real : z.realNode qname with
      | some node => exact formed.answerAt sha1 (realNode_eq real).1 qtype none none
      | none =>
          by_cases here : (z.closestEncloser qname == qname) = true
          · simp only [if_pos here]
            exact nodata_plain sha1 z qname none _
          · simp only [if_neg here]
            cases held : z.records.get? (wildcardOf (z.closestEncloser qname)) with
            | some node => exact formed.answerAt sha1 held qtype (some qname) _
            | none => exact nxdomain_plain sha1 z qname _

end

/-! ### The two compared -/

theorem negative_answers (z : Zone) (rcode : Nat) : (z.negative rcode).answers = [] := rfl

theorem linkAt_contains {node : Node} {link : Rdata × Name} (found : linkAt node = some link) :
    node.contains RRType.cname = true := by
  by_contra absent
  rw [Bool.not_eq_true] at absent
  rw [linkAt_of_lacks absent] at found
  cases found

/-- The records at one owner are answered as asked exactly under the condition. -/
theorem Formed.answersAt_iff {z : Zone} (formed : z.Formed) {owner : Name} {node : Node}
    (held : z.records.get? owner = some node) (shown : Name) (qtype : RRType) :
    z.AnswersAt owner shown node qtype (z.plainAt owner shown node qtype) ↔
      z.Upright owner shown node qtype := by
  by_cases chased : Chased qtype node
  · obtain ⟨rd, rest, target, chained, leads, link⟩ := formed.linkAt held chased.2
    have answer : z.plainAt owner shown node qtype =
        { answers := ⟨shown, RRType.cname, RRClass.in, z.ttlOf owner RRType.cname, rd⟩ ::
            z.follow z.records.get? qtype (maxCnameChain - 1) [owner] target } := by
      rw [plainAt, if_pos chased, link]
    have follows := formed.follow_eq_iff qtype (maxCnameChain - 1) [owner] target
    rw [answer]
    constructor
    · intro answers
      refine ⟨?_, fun direct => absurd chased direct⟩
      intro rd' target' _ link'
      rw [link, Option.some.injEq, Prod.mk.injEq] at link'
      obtain ⟨rfl, rfl⟩ := link'
      generalize same : Answer.mk noError true (_ :: _) [] [] = ans at answers
      cases answers with
      | chain _ link' =>
          rw [link, Option.some.injEq, Prod.mk.injEq] at link'
          obtain ⟨rfl, rfl⟩ := link'
          simp only [Answer.mk.injEq, List.cons.injEq, true_and, and_true] at same
          exact follows.mp same
      | data direct _ => exact absurd chased direct
      | selection direct _ _ _ => exact absurd chased direct
      | nodata direct _ => exact absurd chased direct
    · intro upright
      rw [follows.mpr (upright.chain rd target chased link)]
      exact .chain chased link
  · cases found : node.get? qtype with
    | some rds =>
        have holds : node.contains qtype = true := Dict.contains_iff.mpr (by rw [found]; rfl)
        have answer : z.plainAt owner shown node qtype =
            { answers := rrset shown qtype (z.ttlOf owner qtype) rds } := by
          rw [plainAt, if_neg chased, found]
        rw [answer]
        refine iff_of_true (.data chased found) ⟨?_, fun _ _ => holds⟩
        intro rd target follows
        exact absurd follows chased
    | none =>
        have lacks : node.contains qtype = false := by
          rw [← Bool.not_eq_true, Dict.contains_iff, found]
          decide
        have answer : z.plainAt owner shown node qtype = z.negative noError := by
          rw [plainAt, if_neg chased, found]
        rw [answer]
        constructor
        · intro answers
          refine ⟨fun rd target follows => absurd follows chased, ?_⟩
          intro _ ⟨rr, asked⟩
          generalize same : z.negative noError = ans at answers
          have bare := congrArg Answer.answers same
          rw [negative_answers] at bare
          cases answers with
          | chain follows _ => exact absurd follows chased
          | data _ there =>
              rw [found] at there
              cases there
          | selection _ _ some _ => exact absurd bare.symm some
          | nodata _ none => exact absurd asked (none rr)
        · intro upright
          apply AnswersAt.nodata chased
          intro rr asked
          rw [upright.slot chased ⟨rr, asked⟩] at lacks
          cases lacks

theorem exists_of_real {z : Zone} {name : Name} {node : Node} (real : z.realNode name = some node) :
    z.Exists name := by
  obtain ⟨held, shown⟩ := realNode_eq real
  obtain ⟨entry, there, same, rfl⟩ := Dict.get?_eq_some.mp held
  refine .inr ⟨entry, there, shown, ?_⟩
  rw [Name.isSubdomainOf_iff, ← Name.beq_iff.mp same]

/-- Hashed records only: no CNAME among them. -/
theorem not_chased_of_hashed {node : Node} (hashed : nsec3Only node = true) (qtype : RRType) :
    ¬ Chased qtype node := by
  intro ⟨_, chained⟩
  rw [nsec3Only, Bool.and_eq_true] at hashed
  obtain ⟨entry, held, same⟩ := List.any_eq_true.mp chained
  have only := List.all_eq_true.mp hashed.2 entry held
  rw [beq_iff_eq] at same
  rw [same] at only
  exact absurd only (by decide)

theorem realNode_eq_none_iff {z : Zone} {name : Name} : z.realNode name = none ↔
    z.records.get? name = none ∨
      ∃ node, z.records.get? name = some node ∧ nsec3Only node = true := by
  rw [realNode]
  cases held : z.records.get? name with
  | none => simp
  | some node => simp [Option.filter]

/-- Below a name that does not exist the wildcard decides. -/
theorem resolves_absent_iff {z : Zone} {qname e : Name} {qtype : RRType}
    (uncut : z.topCut qname qtype = none) (absent : ¬ z.Exists qname)
    (only : ∀ other, z.Closest qname other ↔ other = e) (ans : Answer) :
    z.Resolves qname qtype ans ↔
      (∃ node, z.realNode (wildcardOf e) = some node ∧
        z.AnswersAt (wildcardOf e) qname node qtype ans) ∨
      (z.realNode (wildcardOf e) = none ∧ z.Exists (wildcardOf e) ∧ ans = z.negative noError) ∨
      (¬ z.Exists (wildcardOf e) ∧ ans = z.negative nxDomain) := by
  have closest : z.Closest qname e := (only e).mpr rfl
  constructor
  · intro resolves
    cases resolves with
    | referral top _ =>
        rw [uncut] at top
        cases top
    | held _ there _ => exact absurd (exists_of_real there) absent
    | emptyNonTerminal _ _ found => exact absurd found absent
    | synthesized _ _ near there answers =>
        rw [(only _).mp near] at there answers
        exact .inl ⟨_, there, answers⟩
    | emptyWildcard _ _ near bare found =>
        rw [(only _).mp near] at bare found
        exact .inr (.inl ⟨bare, found, rfl⟩)
    | missing _ _ near none =>
        rw [(only _).mp near] at none
        exact .inr (.inr ⟨none, rfl⟩)
  · intro outcome
    rcases outcome with ⟨node, there, answers⟩ | ⟨bare, found, rfl⟩ | ⟨none, rfl⟩
    · exact .synthesized uncut absent closest there answers
    · exact .emptyWildcard uncut absent closest bare found
    · exact .missing uncut absent closest none

theorem negative_inj {z : Zone} {left right : Nat} (same : z.negative left = z.negative right) :
    left = right := congrArg Answer.rcode same

/-- A wildcard without records. -/
theorem resolves_nxdomain_iff {z : Zone} {qname e : Name} {qtype : RRType}
    (uncut : z.topCut qname qtype = none) (absent : ¬ z.Exists qname)
    (only : ∀ other, z.Closest qname other ↔ other = e)
    (missing : z.records.get? (wildcardOf e) = none) :
    z.Resolves qname qtype (z.negative nxDomain) ↔
      z.UprightWildcard qname (wildcardOf e) qtype := by
  have unreal : z.realNode (wildcardOf e) = none := realNode_eq_none_iff.mpr (.inl missing)
  rw [resolves_absent_iff uncut absent only]
  constructor
  · intro outcome
    refine ⟨fun node real => ?_, fun _ => ?_, fun node there => ?_⟩
    · rw [unreal] at real
      cases real
    · rcases outcome with ⟨node, there, _⟩ | ⟨_, _, same⟩ | ⟨none, _⟩
      · rw [unreal] at there
        cases there
      · exact absurd (negative_inj same) (by decide)
      · exact none
    · rw [missing] at there
      cases there
  · intro upright
    exact .inr (.inr ⟨upright.empty missing, rfl⟩)

/-- A wildcard with hashed records only. -/
theorem Formed.resolves_hashed_iff {z : Zone} (formed : z.Formed) {qname e : Name} {qtype : RRType}
    {node : Node} (uncut : z.topCut qname qtype = none) (absent : ¬ z.Exists qname)
    (only : ∀ other, z.Closest qname other ↔ other = e)
    (held : z.records.get? (wildcardOf e) = some node) (hashed : nsec3Only node = true) :
    z.Resolves qname qtype (z.plainAt (wildcardOf e) qname node qtype) ↔
      z.UprightWildcard qname (wildcardOf e) qtype := by
  have unreal : z.realNode (wildcardOf e) = none :=
    realNode_eq_none_iff.mpr (.inr ⟨node, held, hashed⟩)
  have rest (condition : z.Exists (wildcardOf e) ∧ node.contains qtype = false) :
      z.UprightWildcard qname (wildcardOf e) qtype := by
    refine ⟨fun other real => ?_, fun missing => ?_, fun other there _ => ?_⟩
    · rw [unreal] at real
      cases real
    · rw [held] at missing
      cases missing
    · rw [held, Option.some.injEq] at there
      exact there ▸ condition
  rw [resolves_absent_iff uncut absent only, plainAt, if_neg (not_chased_of_hashed hashed qtype)]
  cases found : node.get? qtype with
  | none =>
      have lacks : node.contains qtype = false := by
        rw [← Bool.not_eq_true, Dict.contains_iff, found]
        decide
      constructor
      · intro outcome
        rcases outcome with ⟨other, there, _⟩ | ⟨_, exists_, _⟩ | ⟨_, same⟩
        · rw [unreal] at there
          cases there
        · exact rest ⟨exists_, lacks⟩
        · exact absurd (negative_inj same) (by decide)
      · intro upright
        exact .inr (.inl ⟨unreal, (upright.hashed node held hashed).1, rfl⟩)
  | some rds =>
      have holds : node.contains qtype = true := Dict.contains_iff.mpr (by rw [found]; rfl)
      have filled : rrset qname qtype (z.ttlOf (wildcardOf e) qtype) rds ≠ [] := by
        simpa [rrset] using formed.filled (wildcardOf e) node qtype rds held found
      constructor
      · intro outcome
        rcases outcome with ⟨other, there, _⟩ | ⟨_, _, same⟩ | ⟨_, same⟩
        · rw [unreal] at there
          cases there
        · exact absurd (congrArg Answer.answers same) filled
        · exact absurd (congrArg Answer.answers same) filled
      · intro upright
        rw [(upright.hashed node held hashed).2] at holds
        cases holds

/-- A wildcard with records of the zone. -/
theorem Formed.resolves_real_iff {z : Zone} (formed : z.Formed) {qname e : Name} {qtype : RRType}
    {node : Node} (uncut : z.topCut qname qtype = none) (absent : ¬ z.Exists qname)
    (only : ∀ other, z.Closest qname other ↔ other = e)
    (real : z.realNode (wildcardOf e) = some node) :
    z.Resolves qname qtype (z.plainAt (wildcardOf e) qname node qtype) ↔
      z.UprightWildcard qname (wildcardOf e) qtype := by
  obtain ⟨held, shown⟩ := realNode_eq real
  rw [resolves_absent_iff uncut absent only]
  constructor
  · intro outcome
    rcases outcome with ⟨other, there, answers⟩ | ⟨unreal, _⟩ | ⟨none, _⟩
    · rw [real, Option.some.injEq] at there
      rw [← there] at answers
      refine ⟨fun another found => ?_, fun missing => ?_, fun another found hashed => ?_⟩
      · rw [real, Option.some.injEq] at found
        exact found ▸ (formed.answersAt_iff held qname qtype).mp answers
      · rw [held] at missing
        cases missing
      · rw [held, Option.some.injEq] at found
        rw [← found, shown] at hashed
        cases hashed
    · rw [real] at unreal
      cases unreal
    · exact absurd (exists_of_real real) none
  · intro upright
    exact .inl ⟨node, real, (formed.answersAt_iff held qname qtype).mpr (upright.real node real)⟩

/-- Where a delegation is on the way, the topmost one has to be answered from. -/
theorem resolves_cut_iff {z : Zone} {qname cut : Name} {qtype : RRType}
    (top : z.topCut qname qtype = some cut) (ans : Answer) :
    z.Resolves qname qtype ans ↔ z.referral cut = .ok ans := by
  constructor
  · intro resolves
    cases resolves with
    | referral other refers =>
        rw [top, Option.some.injEq] at other
        exact other ▸ refers
    | held uncut | emptyNonTerminal uncut | synthesized uncut | emptyWildcard uncut | missing uncut =>
        rw [top] at uncut
        cases uncut
  · intro refers
    exact .referral top refers

theorem resolves_held_iff {z : Zone} {qname : Name} {qtype : RRType} {node : Node}
    (uncut : z.topCut qname qtype = none) (real : z.realNode qname = some node) (ans : Answer) :
    z.Resolves qname qtype ans ↔ z.AnswersAt qname qname node qtype ans := by
  constructor
  · intro resolves
    cases resolves with
    | referral top _ =>
        rw [uncut] at top
        cases top
    | held _ there answers =>
        rw [real, Option.some.injEq] at there
        exact there ▸ answers
    | emptyNonTerminal _ bare _ =>
        rw [real] at bare
        cases bare
    | synthesized _ absent | emptyWildcard _ absent | missing _ absent =>
        exact absurd (exists_of_real real) absent
  · intro answers
    exact .held uncut real answers

/-- Where no delegation is on the way, the name or its wildcard is answered as asked
exactly under their conditions. -/
theorem Formed.resolves_plain_iff {z : Zone} (formed : z.Formed) (below : z.Below) {qname : Name}
    {qtype : RRType} (inside : qname.isSubdomainOf z.origin = true)
    (uncut : z.topCut qname qtype = none) :
    z.Resolves qname qtype (z.plainAnswer qname qtype) ↔
      (∀ node, z.realNode qname = some node → z.Upright qname qname node qtype) ∧
        (¬ z.Exists qname → ∀ e, z.Closest qname e →
          z.UprightWildcard qname (wildcardOf e) qtype) := by
  rw [plainAnswer]
  cases real : z.realNode qname with
  | some node =>
      simp only
      rw [resolves_held_iff uncut real, formed.answersAt_iff (realNode_eq real).1]
      constructor
      · intro upright
        refine ⟨fun other same => ?_, fun absent => absurd (exists_of_real real) absent⟩
        rw [← Option.some.inj same]
        exact upright
      · intro both
        exact both.1 node rfl
  | none =>
      by_cases found : z.Exists qname
      · simp only [(closestEncloser_beq_iff below inside).mpr found, ↓reduceIte]
        refine iff_of_true (.emptyNonTerminal uncut real found) ⟨fun node there => ?_, ?_⟩
        · cases there
        · exact fun absent => absurd found absent
      · have other : ¬ (z.closestEncloser qname == qname) = true := fun same =>
          found ((closestEncloser_beq_iff below inside).mp same)
        have only := fun e => closest_iff (z := z) (e := e) below inside
        have wildcard : z.Resolves qname qtype
            (match z.records.get? (wildcardOf (z.closestEncloser qname)) with
              | some node => z.plainAt (wildcardOf (z.closestEncloser qname)) qname node qtype
              | none => z.negative nxDomain) ↔
            z.UprightWildcard qname (wildcardOf (z.closestEncloser qname)) qtype := by
          cases held : z.records.get? (wildcardOf (z.closestEncloser qname)) with
          | none => exact resolves_nxdomain_iff uncut found only held
          | some node =>
              by_cases hashed : nsec3Only node = true
              · exact formed.resolves_hashed_iff uncut found only held hashed
              · rw [Bool.not_eq_true] at hashed
                apply formed.resolves_real_iff uncut found only
                rw [realNode, held, Option.filter_some, hashed]
                rfl
        simp only [if_neg other]
        rw [wildcard]
        constructor
        · intro upright
          refine ⟨fun node there => (by cases there), fun _ e closest => ?_⟩
          rw [(only e).mp closest]
          exact upright
        · intro both
          exact both.2 found _ ((only _).mpr rfl)

/-- A lookup without signatures gives an answer that the algorithm asks for. -/
def Implements (z : Zone) (qname : Name) (qtype : RRType) : Prop :=
  ∀ sha1, ∃ ans, z.lookup sha1 qname qtype = .ok ans ∧ z.Resolves qname qtype ans

end Zone

/-- A zone as the program builds it, with its owners where they belong. -/
structure WholeZone where
  zone : Zone
  formed : zone.Formed
  below : zone.Below

/-- The lookup is the algorithm of the specification exactly where at most one
delegation is on the way, CNAME chains stay at the zone's own records, a wildcard has
records of its own or does not exist, and no question asks for more than one slot. -/
theorem lookup_implements (w : WholeZone) (qname : Name) (qtype : RRType)
    (inside : qname.isSubdomainOf w.zone.origin = true) :
    w.zone.Implements qname qtype ↔ w.zone.Regular qname qtype := by
  obtain ⟨z, formed, below⟩ := w
  have single := Zone.find?_reverse_eq_iff (p := z.isCut) (z.way_nodup qname qtype)
  cases top : z.topCut qname qtype with
  | none =>
      have uncut : (z.way qname qtype).reverse.find? z.isCut = none := by
        apply List.find?_eq_none.mpr
        intro n held
        exact List.find?_eq_none.mp top n (List.mem_reverse.mp held)
      have looked (sha1 : Octets → Octets) :
          z.lookup sha1 qname qtype = .ok (z.plainAnswer qname qtype) := by
        rw [formed.lookup sha1, uncut]
      have plain := formed.resolves_plain_iff below inside top
      constructor
      · intro implements
        obtain ⟨ans, found, resolves⟩ := implements id
        rw [looked, Except.ok.injEq] at found
        rw [← found] at resolves
        obtain ⟨held, wildcard⟩ := plain.mp resolves
        exact ⟨single.mp (uncut.trans top.symm), fun _ => held, fun _ => wildcard⟩
      · intro regular sha1
        exact ⟨_, looked sha1, plain.mpr ⟨regular.held top, regular.wildcard top⟩⟩
  | some cut =>
      have topmost := List.find?_some top
      have onWay := List.mem_of_find?_eq_some top
      cases bottom : (z.way qname qtype).reverse.find? z.isCut with
      | none => exact absurd topmost (List.find?_eq_none.mp bottom cut (List.mem_reverse.mpr onWay))
      | some deepest =>
          have looked (sha1 : Octets → Octets) : z.lookup sha1 qname qtype = z.referral deepest := by
            rw [formed.lookup sha1, bottom]
          constructor
          · intro implements
            obtain ⟨ans, found, resolves⟩ := implements id
            rw [looked] at found
            rw [Zone.resolves_cut_iff top] at resolves
            have same := formed.referral_inj (List.find?_some bottom) topmost
              (found.trans resolves.symm)
            refine ⟨single.mp ?_, fun uncut => ?_, fun uncut => ?_⟩
            · rw [bottom, same]
              exact top.symm
            · rw [top] at uncut
              cases uncut
            · rw [top] at uncut
              cases uncut
          · intro regular sha1
            have same := single.mpr regular.single
            rw [bottom] at same
            have equal : deepest = cut := Option.some.inj (same.trans top)
            obtain ⟨ans, first, rest, refers, _⟩ := formed.referral topmost
            refine ⟨ans, ?_, (Zone.resolves_cut_iff top ans).mpr refers⟩
            rw [looked, equal, refers]

theorem apex_nonempty : 0 < List.length [0x65, 0x78, 0x61, 0x6D, 0x70, 0x6C, (0x65 : UInt8)] := by decide

theorem apex_bounded : List.length [0x65, 0x78, 0x61, 0x6D, 0x70, 0x6C, (0x65 : UInt8)] ≤ maxLabel := by
  decide

/-- The name `example.`, the apex. -/
def apexName : Name := ⟨[⟨[0x65, 0x78, 0x61, 0x6D, 0x70, 0x6C, 0x65], apex_nonempty, apex_bounded⟩]⟩

theorem letter_nonempty (c : UInt8) : 0 < [c].length := Nat.zero_lt_one

theorem letter_bounded (c : UInt8) : [c].length ≤ maxLabel := show 1 ≤ maxLabel by decide

/-- The label of one letter. -/
def letter (c : UInt8) : Label := ⟨[c], letter_nonempty c, letter_bounded c⟩

/-- The name of some one-letter labels below the apex. -/
def under (letters : List UInt8) : Name := ⟨letters.map letter ++ apexName.labels⟩

def apexSoa : SoaData := ⟨apexName, apexName, 1, 3600, 600, 86400, 300⟩

/-- An address at `w`, a delegation at `s`, and another one at `d.s` below it. -/
def nestedZone : Zone :=
  ((((Zone.make apexName).add apexName RRType.soa (.soa apexSoa)).add (under [0x77]) RRType.a
    (.a "192.0.2.1".toList)).add (under [0x73]) RRType.ns (.ns (under [0x6E, 0x73]))).add
    (under [0x64, 0x73]) RRType.ns (.ns (under [0x6E, 0x73]))

theorem nestedZone_formed : nestedZone.Formed := by
  unfold nestedZone
  refine (((Zone.Formed.make apexName).add ?_).add ?_).add ?_ |>.add ?_
  all_goals decide

def wholeNestedZone : WholeZone := ⟨nestedZone, nestedZone_formed, by unfold Zone.Below; decide +kernel⟩

theorem implements_nestedZone : nestedZone.Implements (under [0x77]) RRType.a := by
  apply (lookup_implements wholeNestedZone (under [0x77]) RRType.a (by decide +kernel)).mpr
  have known : (nestedZone.realNode (under [0x77])).map (fun node =>
      (node.contains RRType.a, node.contains RRType.cname)) = some (true, false) := by decide +kernel
  refine ⟨by decide +kernel, fun _ node real => ?_, fun _ absent => ?_⟩
  · change nestedZone.realNode (under [0x77]) = some node at real
    rw [real, Option.map_some, Option.some.injEq, Prod.mk.injEq] at known
    refine ⟨fun rd target chased => ?_, fun _ _ => known.1⟩
    exact absurd chased.2 (by rw [known.2]; decide)
  · refine absurd ?_ absent
    change nestedZone.Exists (under [0x77])
    decide +kernel

/-- The inner delegation is answered from, which is not this zone's to give. -/
theorem not_implements_nestedZone :
    ¬ nestedZone.Implements (under [0x78, 0x64, 0x73]) RRType.a := by
  intro implements
  obtain ⟨ans, found, resolves⟩ := implements id
  have top : nestedZone.topCut (under [0x78, 0x64, 0x73]) RRType.a = some (under [0x73]) := by
    decide +kernel
  rw [Zone.resolves_cut_iff top] at resolves
  have owners (ans : Answer) (referred : nestedZone.referral (under [0x73]) = .ok ans) :
      ans.authority.map RR.name = [under [0x73]] := by
    have owner : (nestedZone.referral (under [0x73])).toOption.map
        (fun ans => ans.authority.map RR.name) = some [under [0x73]] := by decide +kernel
    rw [referred] at owner
    exact Option.some.inj owner
  have inner : (nestedZone.lookup id (under [0x78, 0x64, 0x73]) RRType.a).toOption.map
      (fun ans => ans.authority.map RR.name) = some [under [0x64, 0x73]] := by decide +kernel
  rw [found] at inner
  have other : ans.authority.map RR.name = [under [0x64, 0x73]] := Option.some.inj inner
  rw [owners ans resolves] at other
  exact absurd other (by decide)

end Trench.AuthZone
