import Mathlib
import Trench.AuthZone.Secondary
import Trench.AuthZone.UpdateKeeps

set_option autoImplicit false

/- What refreshes keep of the zone that a secondary holds. -/
namespace Trench.AuthZone

open Wire
open Rdata (TextError)

/-! ### The zone held -/

namespace Zone

/-- No SOA but one at the origin, which is there once `seen`; no owner outside. -/
structure Holding (origin : Name) (seen : Bool) (z : Zone) : Prop where
  origin_eq : z.origin = origin
  soaOne : seen = true → ∃ soa, z.slot origin RRType.soa = [.soa soa]
  soaOnly : ∀ name, z.slot name RRType.soa ≠ [] → seen = true ∧ (name == origin) = true
  inside : ∀ name, z.records.get? name ≠ none → name.isSubdomainOf origin = true
  signatures : ∀ name rtype, z.rrsigs.get? (name, rtype) ≠ none → name.isSubdomainOf origin = true

/-- Exactly one SOA, at the origin, and no owner outside. -/
abbrev Mirrors (origin : Name) (z : Zone) : Prop := z.Holding origin true

variable {origin : Name} {seen : Bool} {z w : Zone}

theorem isSubdomainOf_congr {a b : Name} (same : (a == b) = true) (other : Name) :
    a.isSubdomainOf other = b.isSubdomainOf other := by
  have keys : a.key = b.key := beq_iff_eq.mp same
  rw [Name.isSubdomainOf, Name.isSubdomainOf, keys]

theorem Holding.make (origin : Name) : (Zone.make origin).Holding origin false where
  origin_eq := rfl
  soaOne := fun no => absurd no Bool.false_ne_true
  soaOnly := fun _ filled => absurd rfl filled
  inside := fun _ present => absurd rfl present
  signatures := fun _ _ present => absurd rfl present

theorem Holding.congr (held : z.Holding origin seen) (apex : w.origin = z.origin)
    (records : w.records = z.records) (rrsigs : w.rrsigs = z.rrsigs) : w.Holding origin seen := by
  obtain ⟨equal, one, only, inside, signatures⟩ := held
  have slots (name : Name) (rtype : RRType) : w.slot name rtype = z.slot name rtype := by
    rw [slot, slot, node, node, records]
  refine ⟨apex.trans equal, ?_, ?_, ?_, ?_⟩
  · intro there
    rw [slots]
    exact one there
  · intro name filled
    rw [slots] at filled
    exact only name filled
  · rw [records]
    exact inside
  · rw [rrsigs]
    exact signatures

/-- Another node at a name inside, with the SOA set that was there. -/
theorem Holding.putNode (held : z.Holding origin seen) {name : Name} {node : Node}
    (within : name.isSubdomainOf origin = true)
    (soas : (node.get? RRType.soa).getD [] = z.slot name RRType.soa) :
    (z.putNode name node).Holding origin seen := by
  have slots (other : Name) : (z.putNode name node).slot other RRType.soa = z.slot other RRType.soa := by
    rw [slot_putNode]
    split
    · next same => rw [soas, slot_congr z same]
    · rfl
  refine ⟨held.origin_eq, ?_, ?_, ?_, held.signatures⟩
  · intro there
    rw [slots]
    exact held.soaOne there
  · intro other filled
    rw [slots] at filled
    exact held.soaOnly other filled
  · intro other present
    rw [get?_putNode] at present
    by_cases same : (name == other) = true
    · rw [← isSubdomainOf_congr same]
      exact within
    · rw [if_neg same] at present
      exact held.inside other present

theorem Holding.add (held : z.Holding origin seen) {rr : RR} (plain : rr.rtype ≠ RRType.soa)
    (within : rr.name.isSubdomainOf origin = true) :
    (z.add rr.name rr.rtype rr.rdata rr.ttl).Holding origin seen := by
  have put : (z.putNode rr.name ((z.node rr.name).set rr.rtype
      (z.slot rr.name rr.rtype ++ [rr.rdata]))).Holding origin seen := by
    apply held.putNode within
    rw [Dict.get?_set, beq_eq_false_iff_ne.mpr plain, if_neg Bool.false_ne_true]
    rfl
  rw [putNode_set] at put
  exact put.congr rfl rfl rfl

/-- The first SOA of a stream, owned by the origin. -/
theorem Holding.addSoa (held : z.Holding origin false) {name : Name} {soa : SoaData} (ttl : Int)
    (apex : (name == origin) = true) (within : name.isSubdomainOf origin = true) :
    (z.add name RRType.soa (.soa soa) ttl).Holding origin true := by
  have empty (other : Name) : z.slot other RRType.soa = [] := by
    by_contra filled
    exact Bool.false_ne_true (held.soaOnly other filled).1
  refine ⟨held.origin_eq, ?_, ?_, ?_, held.signatures⟩
  · intro _
    refine ⟨soa, ?_⟩
    rw [slot_add, empty, apex, beq_self_eq_true]
    rfl
  · intro other filled
    rw [slot_add, empty, List.nil_append] at filled
    refine ⟨rfl, ?_⟩
    by_contra apart
    have differ : (name == other) = false := by
      rw [Bool.eq_false_iff]
      intro same
      exact apart (BEq.trans (BEq.symm same) apex)
    rw [differ] at filled
    exact filled rfl
  · intro other present
    change (z.records.set name _).get? other ≠ none at present
    rw [Dict.get?_set] at present
    by_cases same : (name == other) = true
    · rw [← isSubdomainOf_congr same]
      exact within
    · rw [if_neg same] at present
      exact held.inside other present

/-! ### A whole zone assembled -/

theorem Holding.takeRecord (held : z.Holding origin true) {rr : RR} {next : Bool}
    (within : rr.rtype ≠ RRType.soa → rr.name.isSubdomainOf origin = true)
    (taken : z.takeRecord true rr = .ok (w, next)) : w.Holding origin true ∧ next = true := by
  rw [Zone.takeRecord] at taken
  split at taken
  · cases taken
    exact ⟨held, rfl⟩
  · next plain =>
      split at taken
      · split at taken
        · next sig _ =>
            cases taken
            refine ⟨⟨held.origin_eq, held.soaOne, held.soaOnly, held.inside, ?_⟩, rfl⟩
            intro name rtype present
            change (z.rrsigs.set (rr.name, sig.typeCovered) sig).get? (name, rtype) ≠ none at present
            rw [Dict.get?_set] at present
            by_cases same : ((rr.name, sig.typeCovered) == (name, rtype)) = true
            · rw [← isSubdomainOf_congr (setKey_beq_iff.mp same).1]
              exact within plain
            · rw [if_neg same] at present
              exact held.signatures name rtype present
        · cases taken
      · cases taken
        exact ⟨held.add plain (within plain), rfl⟩

theorem Holding.takeRecords {records : List RR} (held : z.Holding origin true)
    (within : ∀ rr ∈ records, rr.rtype ≠ RRType.soa → rr.name.isSubdomainOf origin = true)
    (taken : takeRecords z true records = .ok w) : w.Holding origin true := by
  induction records generalizing z with
  | nil =>
      cases taken
      exact held
  | cons rr rest ih =>
      rw [Zone.takeRecords] at taken
      obtain ⟨⟨next, seen⟩, step, taken⟩ := bind_eq_ok.mp taken
      obtain ⟨kept, rfl⟩ := held.takeRecord (within rr List.mem_cons_self) step
      exact ih kept (fun later inside => within later (List.mem_cons_of_mem _ inside)) taken

/-! ### A delta applied -/

theorem Holding.removeRr (held : z.Holding origin seen) {rr : RR} (plain : rr.rtype ≠ RRType.soa)
    (removed : z.removeRr rr = .ok w) : w.Holding origin seen := by
  rw [Zone.removeRr] at removed
  split at removed
  · cases removed
    exact held
  · next node there =>
      split at removed
      · cases removed
        exact held
      · next rds found =>
          obtain ⟨text, _, removed⟩ := bind_eq_ok.mp removed
          obtain ⟨keep, _, removed⟩ := bind_eq_ok.mp removed
          cases removed
          have within : rr.name.isSubdomainOf origin = true := by
            apply held.inside
            rw [there]
            exact Option.some_ne_none node
          have soas : (node.get? RRType.soa).getD [] = z.slot rr.name RRType.soa := by
            rw [slot, Zone.node, there, Option.getD_some]
          have apart : (rr.rtype == RRType.soa) = false := beq_eq_false_iff_ne.mpr plain
          split
          · apply held.putNode within
            rw [Dict.get?_erase, apart, if_neg Bool.false_ne_true, soas]
          · rw [← putNode_set]
            apply held.putNode within
            rw [Dict.get?_set, apart, if_neg Bool.false_ne_true, soas]

theorem Holding.setSerial (held : z.Holding origin true) (serial : Int) :
    (z.setSerial serial).Holding origin true := by
  have apex := held.origin_eq
  subst apex
  rw [Zone.setSerial]
  split
  · next data rest there =>
      change ({ z with records := z.records.set z.origin ((z.node z.origin).set RRType.soa
        (.soa { data with serial } :: rest)) } : Zone).Holding z.origin true
      obtain ⟨soa, only⟩ := held.soaOne rfl
      rw [only] at there
      cases there
      rw [← putNode_set]
      have set (other : Name) : (z.putNode z.origin ((z.node z.origin).set RRType.soa
          [.soa { data with serial }])).slot other RRType.soa =
          if (z.origin == other) = true then [.soa { data with serial }]
          else z.slot other RRType.soa := by
        rw [slot_putNode, Dict.get?_set, if_pos BEq.rfl]
        rfl
      refine ⟨rfl, ?_, ?_, ?_, held.signatures⟩
      · intro _
        refine ⟨{ data with serial }, ?_⟩
        rw [set, if_pos BEq.rfl]
      · intro other filled
        rw [set] at filled
        by_cases same : (z.origin == other) = true
        · exact ⟨rfl, BEq.symm same⟩
        · rw [if_neg same] at filled
          exact held.soaOnly other filled
      · intro other present
        rw [get?_putNode] at present
        by_cases same : (z.origin == other) = true
        · rw [← isSubdomainOf_congr same]
          apply held.inside
          intro missing
          rw [slot, Zone.node, missing] at only
          cases only
        · rw [if_neg same] at present
          exact held.inside other present
  · exact held

end Zone

/-- The records that a delta adds. -/
def additions (serial : Int) : Bool → List RR → List RR
  | _, [] => []
  | true, rr :: rest =>
      if rr.rtype = RRType.soa then additions serial false rest else additions serial true rest
  | false, rr :: rest =>
      if rr.rtype = RRType.soa then
        if serialOf rr = .ok serial then [] else additions serial true rest
      else rr :: additions serial false rest

namespace Zone

variable {origin : Name} {seen : Bool} {z w : Zone}

theorem liftText_eq_ok {α : Type} {x : Except TextError α} {v : α} (h : liftText x = .ok v) :
    x = .ok v := by
  cases x with
  | error e => cases h
  | ok w =>
      cases h
      rfl

theorem liftLookup_eq_ok {α : Type} {x : Except LookupError α} {v : α} (h : liftLookup x = .ok v) :
    x = .ok v := by
  cases x with
  | error e => cases h
  | ok w =>
      cases h
      rfl

theorem Holding.applySteps {serial : Int} {deleting : Bool} {steps : List RR}
    (held : z.Holding origin seen)
    (within : ∀ rr ∈ additions serial deleting steps, rr.name.isSubdomainOf origin = true)
    (applied : z.applySteps serial deleting steps = .ok w) : w.Holding origin seen := by
  induction steps generalizing z deleting with
  | nil =>
      cases deleting with
      | true => cases applied
      | false =>
          cases applied
          exact held
  | cons rr rest ih =>
      cases deleting with
      | true =>
          rw [Zone.applySteps] at applied
          rw [additions] at within
          split at applied
          · next isSoa =>
              rw [if_pos isSoa] at within
              exact ih held within applied
          · next plain =>
              rw [if_neg plain] at within
              obtain ⟨less, removed, applied⟩ := bind_eq_ok.mp applied
              exact ih (held.removeRr plain (liftText_eq_ok removed)) within applied
      | false =>
          rw [Zone.applySteps] at applied
          rw [additions] at within
          split at applied
          · next isSoa =>
              rw [if_pos isSoa] at within
              obtain ⟨here, known, applied⟩ := bind_eq_ok.mp applied
              rw [liftLookup_eq_ok known] at within
              split at applied
              · cases applied
                exact held
              · next other =>
                  rw [if_neg fun same => other (Except.ok.inj same)] at within
                  exact ih held within applied
          · next plain =>
              rw [if_neg plain] at within
              have kept := held.add plain (within rr List.mem_cons_self)
              exact ih kept (fun later inside => within later (List.mem_cons_of_mem _ inside)) applied

theorem Holding.applyDelta {serial : Int} {steps : List RR} (held : z.Holding origin true)
    (within : ∀ rr ∈ additions serial false steps, rr.name.isSubdomainOf origin = true)
    (applied : z.applyDelta serial steps = .ok w) : w.Holding origin true := by
  rw [Zone.applyDelta] at applied
  obtain ⟨stepped, steps, applied⟩ := bind_eq_ok.mp applied
  split at applied
  · cases applied
  · cases applied
    exact (held.applySteps within steps).setSerial serial

end Zone

/-! ### The streams that are safe -/

/-- A response for a zone held that lists what changed. -/
def IsDelta (records : List RR) : Prop :=
  ∃ head second rest, records = head :: second :: rest ∧ second.rtype = RRType.soa ∧
    serialOf second ≠ serialOf head

/-- What is taken over as a whole zone: the first SOA is the origin's, the other records
are of names inside. -/
structure WholeInside (origin : Name) (records : List RR) : Prop where
  apex : ∀ head ∈ records.head?, (head.name == origin) = true
  inside : ∀ rr ∈ records, rr.rtype ≠ RRType.soa → rr.name.isSubdomainOf origin = true

/-- What is taken over of a delta. -/
def DeltaInside (origin : Name) (records : List RR) : Prop :=
  ∀ head rest serial, records = head :: rest → serialOf head = .ok serial →
    ∀ rr ∈ additions serial false rest, rr.name.isSubdomainOf origin = true

/-- What is entered of a stream belongs to the origin; a lone SOA says that the zone held
is current. -/
def Proper (held : Option Zone) (origin : Name) (records : List RR) : Prop :=
  match held with
  | none => WholeInside origin records
  | some _ => (IsDelta records → DeltaInside origin records) ∧
      (¬ IsDelta records → records.length ≠ 1 → WholeInside origin records)

/-- A response that is whole starts with an SOA. -/
theorem complete_head {records : List RR} (complete : ixfrComplete records = .ok true) :
    ∃ head rest soa, records = head :: rest ∧ head.rtype = RRType.soa ∧ head.rdata = .soa soa := by
  unfold ixfrComplete at complete
  split at complete
  · cases complete
  · next head rest =>
      split at complete
      · cases complete
      · next isSoa =>
          obtain ⟨first, known, _⟩ := bind_eq_ok.mp complete
          rw [serialOf] at known
          split at known
          · next data held => exact ⟨head, rest, data, rfl, not_not.mp isSoa, held⟩
          · cases known

theorem raised_eq_ok {ε α : Type} {wrap : ε → RefreshError} {x : Except ε α} {v : α}
    (h : raised wrap x = .ok v) : x = .ok v := by
  cases x with
  | error e => cases h
  | ok w =>
      cases h
      rfl

theorem done_complete {i : Intake} (done : i.done = .ok true) : ixfrComplete i.records = .ok true := by
  rw [Intake.done] at done
  obtain ⟨complete, known, done⟩ := bind_eq_ok.mp done
  cases complete with
  | true => exact raised_eq_ok known
  | false =>
      simp only [Bool.false_eq_true, ↓reduceIte] at done
      split at done <;> cases done

theorem collect_complete {hmac : Hmac} {key : Option TsigKey} {msgid : UInt16} {origin : Name}
    {qtype : RRType} {i : Intake} {arrivals : List Arrival} {records : List RR}
    (collected : collect hmac key msgid origin qtype i arrivals = .ok records) :
    ixfrComplete records = .ok true := by
  induction arrivals generalizing i with
  | nil =>
      rw [collect] at collected
      obtain ⟨done, known, collected⟩ := bind_eq_ok.mp collected
      cases done with
      | true =>
          cases collected
          exact done_complete known
      | false => cases collected
  | cons a rest ih =>
      rw [collect] at collected
      obtain ⟨done, known, collected⟩ := bind_eq_ok.mp collected
      cases done with
      | true =>
          cases collected
          exact done_complete known
      | false =>
          obtain ⟨next, _, collected⟩ := bind_eq_ok.mp collected
          exact ih collected

theorem transferRecords_complete {hmac : Hmac} {key : Option TsigKey} {origin : Name}
    {qtype : RRType} {clientSerial : Option Int} {x : Exchange} {records : List RR}
    (received : transferRecords hmac key origin qtype clientSerial x = .ok records) :
    ixfrComplete records = .ok true := by
  rw [transferRecords] at received
  obtain ⟨_, _, received⟩ := bind_eq_ok.mp received
  obtain ⟨_, _, received⟩ := bind_eq_ok.mp received
  exact collect_complete received

open Zone (Mirrors Holding)

theorem zoneFromRecords_mirrors {origin : Name} {records : List RR} {w : Zone}
    (complete : ixfrComplete records = .ok true) (proper : WholeInside origin records)
    (assembled : Zone.zoneFromRecords records origin = .ok w) : w.Mirrors origin := by
  obtain ⟨head, rest, soa, rfl, isSoa, held⟩ := complete_head complete
  have apex := proper.apex head rfl
  have within : head.name.isSubdomainOf origin = true := by
    rw [Zone.isSubdomainOf_congr apex, Name.isSubdomainOf_iff]
  rw [Zone.zoneFromRecords, Zone.takeRecords, Zone.takeRecord, if_pos isSoa, isSoa, held] at assembled
  have started : ((Zone.make origin).add head.name RRType.soa (.soa soa) head.ttl).Holding origin true :=
    (Holding.make origin).addSoa head.ttl apex within
  exact started.takeRecords (fun rr inside => proper.inside rr (List.mem_cons_of_mem _ inside)) assembled

theorem opensDelta_iff {head second : RR} {delta : Bool} (rest : List RR)
    (decided : opensDelta head second = .ok delta) :
    delta = true ↔ IsDelta (head :: second :: rest) := by
  rw [opensDelta] at decided
  split at decided
  · next plain =>
      cases decided
      refine ⟨fun no => absurd no Bool.false_ne_true, ?_⟩
      intro ⟨_, _, _, same, isSoa, _⟩
      cases same
      exact absurd isSoa plain
  · next again =>
      obtain ⟨here, known, decided⟩ := bind_eq_ok.mp decided
      obtain ⟨start, knownStart, decided⟩ := bind_eq_ok.mp decided
      cases decided
      rw [decide_eq_true_iff]
      constructor
      · intro differ
        refine ⟨head, second, rest, rfl, not_not.mp again, ?_⟩
        rw [known, knownStart]
        exact fun same => differ (Except.ok.inj same)
      · intro ⟨_, _, _, same, _, differ⟩
        cases same
        rw [known, knownStart] at differ
        exact fun same => differ (congrArg _ same)

/-- An accepted response leaves the zone held as it is, or leaves one that mirrors. -/
theorem applyIxfr_mirrors {origin : Name} {z w : Zone} {records : List RR}
    (held : z.Mirrors origin) (complete : ixfrComplete records = .ok true)
    (proper : Proper (some z) origin records) (applied : applyIxfr (some z) records origin = .ok w) :
    w.Mirrors origin := by
  obtain ⟨head, rest, soa, rfl, isSoa, data⟩ := complete_head complete
  have first : serialOf head = .ok soa.serial := by rw [serialOf, data]
  simp only [applyIxfr, if_neg (not_not.mpr isSoa)] at applied
  cases rest with
  | nil =>
      cases applied
      exact held
  | cons second rest =>
      have two : (head :: second :: rest).length ≠ 1 := by
        rw [List.length_cons, List.length_cons]
        omega
      obtain ⟨delta, decided, applied⟩ := bind_eq_ok.mp applied
      have shape := opensDelta_iff rest (Zone.liftLookup_eq_ok decided)
      cases delta with
      | false =>
          have whole : ¬ IsDelta (head :: second :: rest) := fun is => Bool.false_ne_true (shape.mpr is)
          exact zoneFromRecords_mirrors complete (proper.2 whole two) (Zone.liftLookup_eq_ok applied)
      | true =>
          obtain ⟨serial, known, applied⟩ := bind_eq_ok.mp applied
          have known := Zone.liftLookup_eq_ok known
          exact held.applyDelta (proper.1 (shape.mp rfl) head (second :: rest) serial rfl known) applied

/-! ### Refreshes -/

namespace Secondary

/-- What a refresh must do: raise nothing, leave the zone alone where it fails, and put only
a zone that mirrors the origin in its place. -/
structure Kept (hmac : Hmac) (s : Secondary) (x : Exchange) : Prop where
  quiet : ∀ e, (s.refreshOnce hmac x).2 ≠ .raised e
  spared : ∀ e, (s.refreshOnce hmac x).2 = .failed e → (s.refreshOnce hmac x).1 = s
  mirrors : ∀ z, (s.refreshOnce hmac x).1.zone = some z → s.zone = some z ∨ z.Mirrors s.origin

/-- Every refresh of a run keeps to it. -/
def KeepsZone (hmac : Hmac) : Secondary → List Exchange → Prop
  | _, [] => True
  | s, x :: rest => s.Kept hmac x ∧ KeepsZone hmac (s.refreshOnce hmac x).1 rest

/-- Every stream that the primary completes is proper for the zone held then. -/
def ProperRun (hmac : Hmac) : Secondary → List Exchange → Prop
  | _, [] => True
  | s, x :: rest =>
      (∀ records, s.stream hmac x = .ok records → Proper s.zone s.origin records) ∧
        ProperRun hmac (s.refreshOnce hmac x).1 rest

/-- The zone held, if any, mirrors the origin. -/
def Sound (s : Secondary) : Prop := ∀ z, s.zone = some z → z.Mirrors s.origin

theorem stream_complete {s : Secondary} {hmac : Hmac} {x : Exchange} {records : List RR}
    (received : s.stream hmac x = .ok records) : ixfrComplete records = .ok true := by
  rw [stream] at received
  split at received
  · exact transferRecords_complete received
  · exact transferRecords_complete received

theorem pull_mirrors {s : Secondary} {hmac : Hmac} {x : Exchange} {new : Zone} (sound : s.Sound)
    (proper : ∀ records, s.stream hmac x = .ok records → Proper s.zone s.origin records)
    (pulled : s.pull hmac x = .ok new) : new.Mirrors s.origin := by
  rw [pull] at pulled
  obtain ⟨records, received, pulled⟩ := bind_eq_ok.mp pulled
  have complete := stream_complete received
  have fine := proper records received
  cases held : s.zone with
  | none =>
      rw [held] at pulled fine
      exact zoneFromRecords_mirrors complete fine (raised_eq_ok pulled)
  | some z =>
      rw [held] at pulled fine
      exact applyIxfr_mirrors (sound z held) complete fine (raised_eq_ok pulled)

theorem soa_of_mirrors {origin : Name} {z : Zone} (mirrors : z.Mirrors origin) : z.soa ≠ none := by
  obtain ⟨soa, one⟩ := mirrors.soaOne rfl
  rw [Zone.soa, mirrors.origin_eq, one]
  exact Option.some_ne_none soa

/-- One refresh. -/
theorem refreshOnce_kept {s : Secondary} {hmac : Hmac} {x : Exchange} (sound : s.Sound)
    (proper : ∀ records, s.stream hmac x = .ok records → Proper s.zone s.origin records) :
    s.Kept hmac x ∧ (s.refreshOnce hmac x).1.Sound := by
  cases pulled : s.pull hmac x with
  | error e =>
      have run : s.refreshOnce hmac x = (s, .failed e) := by rw [refreshOnce, pulled]
      refine ⟨⟨?_, ?_, ?_⟩, ?_⟩
      · intro other
        rw [run]
        exact nofun
      · intro other _
        rw [run]
      · intro z held
        rw [run] at held
        exact .inl held
      · rw [run]
        exact sound
  | ok new =>
      have mirrors := pull_mirrors sound proper pulled
      obtain ⟨changed, run⟩ : ∃ changed,
          s.refreshOnce hmac x = ({ s with zone := some new }, .refreshed changed) := by
        rw [refreshOnce, pulled]
        cases held : s.zone with
        | none => exact ⟨true, rfl⟩
        | some z =>
            obtain ⟨soa, there⟩ := Option.ne_none_iff_exists'.mp (soa_of_mirrors mirrors)
            simp only [there]
            exact ⟨_, rfl⟩
      refine ⟨⟨?_, ?_, ?_⟩, ?_⟩
      · intro other
        rw [run]
        exact nofun
      · intro other failed
        rw [run] at failed
        cases failed
      · intro z held
        rw [run] at held
        cases held
        exact .inr mirrors
      · rw [run]
        intro z held
        cases held
        exact mirrors

theorem keepsZone_of_proper {s : Secondary} {hmac : Hmac} {xs : List Exchange} (sound : s.Sound)
    (proper : ProperRun hmac s xs) : KeepsZone hmac s xs := by
  induction xs generalizing s with
  | nil => exact True.intro
  | cons x rest ih =>
      obtain ⟨kept, after⟩ := refreshOnce_kept sound proper.1
      exact ⟨kept, ih after proper.2⟩

/-- A new secondary never loses its zone to a run of proper streams. -/
theorem fresh_keepsZone (hmac : Hmac) (origin : Name) (key : Option TsigKey) (xs : List Exchange)
    (proper : ProperRun hmac (fresh origin key) xs) : KeepsZone hmac (fresh origin key) xs :=
  keepsZone_of_proper (fun _ none => (by cases none)) proper

/-- A response of `count` SOA records with one owner and one serial. -/
def soaResponse (owner : Octets) (serial : UInt8) (count : Nat) : Octets :=
  [0, 0, 0x84, 0, 0, 0, 0, UInt8.ofNat count, 0, 0, 0, 0] ++ (List.range count).flatMap fun i =>
    (if i = 0 then owner else [0xC0, 12]) ++ [0, 6, 0, 1, 0, 0, 0x0E, 0x10, 0, 24, 0xC0, 12, 0xC0, 12] ++
      [0, 0, 0, serial] ++ List.replicate 16 0

def apexOctets : Octets := [7, 0x65, 0x78, 0x61, 0x6D, 0x70, 0x6C, 0x65, 0]

/-- One message, without a signature. -/
def exchangeOf (wire : Octets) : Exchange := ⟨0, 0, [⟨wire, 0, 0⟩]⟩

/-- The SOA record of these responses, where the owner is the apex. -/
def currentSoa : RR :=
  ⟨apexName, RRType.soa, RRClass.in, 3600, .soa ⟨apexName, apexName, 1, 0, 0, 0, 0⟩⟩

/-- The zone is loaded, and then found to be current. -/
theorem fresh_keepsZone_current :
    KeepsZone updateHmac (fresh apexName none)
      [exchangeOf (soaResponse apexOctets 1 2), exchangeOf (soaResponse apexOctets 1 1)] := by
  apply fresh_keepsZone
  refine ⟨?_, ?_, True.intro⟩
  · intro records received
    have known : (fresh apexName none).stream updateHmac (exchangeOf (soaResponse apexOctets 1 2)) =
        .ok [currentSoa, currentSoa] := by decide +kernel
    rw [known] at received
    cases received
    refine ⟨fun head first => ?_, fun rr inside plain => ?_⟩
    · cases first
      exact BEq.rfl
    · simp only [List.mem_cons, List.not_mem_nil, or_false, or_self] at inside
      exact absurd (congrArg RR.rtype inside) plain
  · intro records received
    have known : ((fresh apexName none).refreshOnce updateHmac
        (exchangeOf (soaResponse apexOctets 1 2))).1.stream updateHmac
          (exchangeOf (soaResponse apexOctets 1 1)) = .ok [currentSoa] := by decide +kernel
    have held : ((fresh apexName none).refreshOnce updateHmac
        (exchangeOf (soaResponse apexOctets 1 2))).1.zone.isSome = true := by decide +kernel
    rw [known] at received
    cases received
    obtain ⟨z, there⟩ := Option.isSome_iff_exists.mp held
    rw [there]
    refine ⟨?_, fun _ lone => absurd rfl lone⟩
    intro ⟨_, _, _, same, _⟩
    cases same

/-- After a load, an SOA of another zone is taken over, and raises. -/
theorem strange_soa_raises : ¬ KeepsZone updateHmac (fresh apexName none)
    [exchangeOf (soaResponse apexOctets 1 2), exchangeOf (soaResponse [1, 0x6F, 0] 2 2)] := by
  intro ⟨_, kept, _⟩
  apply kept.quiet .attribute
  decide +kernel

end Secondary

end Trench.AuthZone
