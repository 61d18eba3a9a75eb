import Mathlib
import Trench.AuthZone.ZoneAgree

set_option autoImplicit false

/- Full zone transfer: the stream of a zone's records, and the zone assembled from it. -/
namespace Trench.AuthZone

open Wire

namespace Zone

/-! ### The stream -/

/-- The apex SOA; a zone without one would stream a record without data. -/
def soaRecord (z : Zone) : Option RR :=
  z.soa.map fun soa => ⟨z.origin, RRType.soa, RRClass.in, z.ttlOf z.origin RRType.soa, .soa soa⟩

def sigRecord (z : Zone) (name : Name) (rtype : RRType) (ttl : Int) : List RR :=
  match z.rrsigs.get? (name, rtype) with
  | some sig => [⟨name, RRType.rrsig, RRClass.in, ttl, .rrsig sig⟩]
  | none => []

/-- One record set with its signature; the apex SOA is sent apart. -/
def setRecords (z : Zone) (name : Name) (rtype : RRType) : List RR :=
  if (name == z.origin) = true ∧ rtype = RRType.soa then []
  else rrset name rtype (z.ttlOf name rtype) (z.slot name rtype) ++
    z.sigRecord name rtype (z.ttlOf name rtype)

def nodeRecords (z : Zone) (name : Name) : List RR :=
  (((z.node name).entries.map Prod.fst).insertionSort (· ≤ ·)).flatMap (z.setRecords name)

def axfrRecords (z : Zone) : Option (List RR) :=
  z.soaRecord.map fun soa =>
    soa :: (z.names.flatMap z.nodeRecords ++
      z.sigRecord z.origin RRType.soa (z.ttlOf z.origin RRType.soa) ++ [soa])

/-! ### The zone assembled -/

/-- One record of a stream; of the SOA records only the first is kept. -/
def takeRecord (z : Zone) (seenSoa : Bool) (rr : RR) : Except LookupError (Zone × Bool) :=
  if rr.rtype = RRType.soa then
    .ok (if seenSoa then z else z.add rr.name rr.rtype rr.rdata rr.ttl, true)
  else if rr.rtype = RRType.rrsig then
    match rr.rdata with
    | .rrsig sig =>
        .ok ({ z with rrsigs := z.rrsigs.set (rr.name, sig.typeCovered) sig, signed := true }, seenSoa)
    | _ => .error .attribute
  else .ok (z.add rr.name rr.rtype rr.rdata rr.ttl, seenSoa)

def takeRecords : Zone → Bool → List RR → Except LookupError Zone
  | z, _, [] => .ok z
  | z, seenSoa, rr :: rest => do
      let (z, seenSoa) ← z.takeRecord seenSoa rr
      takeRecords z seenSoa rest

def zoneFromRecords (records : List RR) (origin : Name) : Except LookupError Zone :=
  takeRecords (Zone.make origin) false records

/-! ### What the assembled zone holds -/

/-- A record that goes among the zone's records, after the first SOA. -/
def Plain (rr : RR) : Prop := rr.rtype ≠ RRType.soa ∧ rr.rtype ≠ RRType.rrsig

instance (rr : RR) : Decidable (Plain rr) := by
  unfold Plain
  infer_instance

/-- The records of a stream that go into one slot. -/
def addedAt (name : Name) (rtype : RRType) (rrs : List RR) : List RR :=
  rrs.filter fun rr => decide (Plain rr) && (rr.name == name && rr.rtype == rtype)

/-- The signatures of a stream that are filed under one record set. -/
def sigsAt (name : Name) (rtype : RRType) (rrs : List RR) : List RrsigData :=
  rrs.filterMap fun rr =>
    match rr.rdata with
    | .rrsig sig =>
        if rr.rtype = RRType.rrsig ∧ (rr.name == name && sig.typeCovered == rtype) = true then some sig
        else none
    | _ => none

/-- A record of a stream after the first SOA, where signatures are signature data. -/
structure Streamed (rr : RR) : Prop where
  suits : Suits rr.rtype rr.rdata
  signature : rr.rtype = RRType.rrsig → ∃ sig, rr.rdata = .rrsig sig

theorem slot_add (z : Zone) (name other : Name) (rtype rt : RRType) (rd : Rdata) (ttl : Int) :
    (z.add name rtype rd ttl).slot other rt =
      z.slot other rt ++ if (name == other && rtype == rt) = true then [rd] else [] := by
  rw [slot, node, add]
  simp only [Dict.get?_set]
  by_cases same : (name == other) = true
  · rw [if_pos same, Option.getD_some, Dict.get?_set, same, Bool.true_and]
    by_cases equal : (rtype == rt) = true
    · rw [if_pos equal, if_pos equal, Option.getD_some, beq_iff_eq.mp equal, slot_congr z same]
    · rw [if_neg equal, if_neg equal, List.append_nil, slot, node, node,
        Dict.get?_congr z.records same]
  · rw [if_neg same, Bool.eq_false_iff.mpr same, Bool.false_and, if_neg Bool.false_ne_true,
      List.append_nil]
    rfl

theorem ttlOf_add (z : Zone) (name other : Name) (rtype rt : RRType) (rd : Rdata) (ttl : Int) :
    (z.add name rtype rd ttl).ttlOf other rt =
      if (name == other && rtype == rt) = true then ttl else z.ttlOf other rt := by
  rw [ttlOf, add]
  simp only [Dict.get?_set]
  change Option.getD (if (name == other && rtype == rt) = true then some ttl
    else z.ttls.get? (other, rt)) defaultTtl = _
  split
  · rfl
  · rfl

/-- What a stream leaves behind once an SOA has been seen. -/
structure Taken (z w : Zone) (rrs : List RR) : Prop where
  origin : w.origin = z.origin
  formed : w.Formed
  params : w.signParams = z.signParams
  signed : w.signed = (z.signed || rrs.any fun rr => rr.rtype == RRType.rrsig)
  slots : ∀ name rtype, w.slot name rtype =
    z.slot name rtype ++ (addedAt name rtype rrs).map RR.rdata
  ttls : ∀ name rtype ttl, (∀ rr ∈ addedAt name rtype rrs, rr.ttl = ttl) →
    (z.ttlOf name rtype = ttl ∨ addedAt name rtype rrs ≠ []) → w.ttlOf name rtype = ttl
  sigs : ∀ name rtype, w.rrsigs.get? (name, rtype) =
    (sigsAt name rtype rrs).getLast?.or (z.rrsigs.get? (name, rtype))

theorem addedAt_append (name : Name) (rtype : RRType) (xs ys : List RR) :
    addedAt name rtype (xs ++ ys) = addedAt name rtype xs ++ addedAt name rtype ys :=
  List.filter_append ..

theorem sigsAt_append (name : Name) (rtype : RRType) (xs ys : List RR) :
    sigsAt name rtype (xs ++ ys) = sigsAt name rtype xs ++ sigsAt name rtype ys :=
  List.filterMap_append ..

theorem Taken.nil {z : Zone} (formed : z.Formed) : Taken z z [] where
  origin := rfl
  formed := formed
  params := rfl
  signed := by rw [List.any_nil, Bool.or_false]
  slots name rtype := by rw [addedAt, List.filter_nil, List.map_nil, List.append_nil]
  ttls name rtype ttl _ either := by
    rcases either with same | more
    · exact same
    · exact absurd rfl more
  sigs name rtype := rfl

theorem Taken.trans {z m w : Zone} {xs ys : List RR} (first : Taken z m xs) (second : Taken m w ys) :
    Taken z w (xs ++ ys) where
  origin := second.origin.trans first.origin
  formed := second.formed
  params := second.params.trans first.params
  signed := by rw [second.signed, first.signed, List.any_append, Bool.or_assoc]
  slots name rtype := by
    rw [second.slots, first.slots, addedAt_append, List.map_append, List.append_assoc]
  ttls name rtype ttl each either := by
    rw [addedAt_append] at each either
    have left : ∀ rr ∈ addedAt name rtype xs, rr.ttl = ttl := fun rr held =>
      each rr (List.mem_append_left _ held)
    apply second.ttls name rtype ttl (fun rr held => each rr (List.mem_append_right _ held))
    rcases either with same | more
    · exact .inl (first.ttls name rtype ttl left (.inl same))
    · by_cases empty : addedAt name rtype xs = []
      · rw [empty, List.nil_append] at more
        exact .inr more
      · exact .inl (first.ttls name rtype ttl left (.inr empty))
  sigs name rtype := by
    rw [second.sigs, first.sigs, sigsAt_append, List.getLast?_append, Option.or_assoc]

/-- A record that is added to its slot. -/
theorem Taken.plain {z : Zone} (formed : z.Formed) {rr : RR} (plain : Plain rr)
    (suits : Suits rr.rtype rr.rdata) : Taken z (z.add rr.name rr.rtype rr.rdata rr.ttl) [rr] where
  origin := rfl
  formed := formed.add suits
  params := rfl
  signed := by
    have other : (rr.rtype == RRType.rrsig) = false := beq_eq_false_iff_ne.mpr plain.2
    rw [List.any_cons, List.any_nil, other, Bool.or_false, Bool.or_false]
    rfl
  slots name rtype := by
    rw [slot_add, addedAt, List.filter_cons, decide_eq_true plain, Bool.true_and, List.filter_nil]
    split <;> rfl
  ttls name rtype ttl each either := by
    rw [ttlOf_add]
    rw [addedAt, List.filter_cons, decide_eq_true plain, Bool.true_and, List.filter_nil] at each either
    by_cases here : (rr.name == name && rr.rtype == rtype) = true
    · rw [if_pos here] at each
      rw [if_pos here]
      exact each rr List.mem_cons_self
    · rw [if_neg here] at either
      rw [if_neg here]
      rcases either with same | more
      · exact same
      · exact absurd rfl more
  sigs name rtype := by
    have none : sigsAt name rtype [rr] = [] := by
      rw [sigsAt, List.filterMap_cons]
      cases rr.rdata <;> simp [plain.2]
    rw [none]
    rfl

/-- A record that is passed over. -/
theorem Taken.skipped {z : Zone} (formed : z.Formed) {rr : RR} (isSoa : rr.rtype = RRType.soa) :
    Taken z z [rr] where
  origin := rfl
  formed := formed
  params := rfl
  signed := by
    rw [List.any_cons, List.any_nil, isSoa]
    simp only [Bool.or_false]
    exact (Bool.or_false _).symm
  slots name rtype := by
    have none : addedAt name rtype [rr] = [] := by simp [addedAt, Plain, isSoa]
    rw [none, List.map_nil, List.append_nil]
  ttls name rtype ttl _ either := by
    have none : addedAt name rtype [rr] = [] := by simp [addedAt, Plain, isSoa]
    rw [none] at either
    rcases either with same | more
    · exact same
    · exact absurd rfl more
  sigs name rtype := by
    have none : sigsAt name rtype [rr] = [] := by
      rw [sigsAt, List.filterMap_cons]
      have other : ¬ rr.rtype = RRType.rrsig := by
        rw [isSoa]
        decide
      cases rr.rdata <;> simp [other]
    rw [none]
    rfl

/-- A signature that is filed. -/
theorem Taken.signature {z : Zone} (formed : z.Formed) {rr : RR} {sig : RrsigData}
    (isSig : rr.rtype = RRType.rrsig) (data : rr.rdata = .rrsig sig) :
    Taken z { z with rrsigs := z.rrsigs.set (rr.name, sig.typeCovered) sig, signed := true } [rr] where
  origin := rfl
  formed := ⟨formed.owning, formed.filled, formed.suits⟩
  params := rfl
  signed := by
    rw [List.any_cons, isSig, BEq.rfl, Bool.true_or, Bool.or_true]
  slots name rtype := by
    have none : addedAt name rtype [rr] = [] := by simp [addedAt, Plain, isSig]
    rw [none, List.map_nil, List.append_nil]
    rfl
  ttls name rtype ttl _ either := by
    have none : addedAt name rtype [rr] = [] := by simp [addedAt, Plain, isSig]
    rw [none] at either
    rcases either with same | more
    · exact same
    · exact absurd rfl more
  sigs name rtype := by
    simp only [Dict.get?_set, sigsAt, List.filterMap_cons, List.filterMap_nil, data, isSig, true_and]
    change (if (rr.name == name && sig.typeCovered == rtype) = true then _ else _) = _
    by_cases here : (rr.name == name && sig.typeCovered == rtype) = true
    · rw [if_pos here, if_pos here]
      rfl
    · rw [if_neg here, if_neg here]
      rfl

/-- Each record of a stream is taken in its way. -/
theorem takeRecord_seen {z : Zone} {rr : RR} (formed : z.Formed) (streamed : Streamed rr) :
    ∃ w, z.takeRecord true rr = .ok (w, true) ∧ Taken z w [rr] := by
  rw [takeRecord]
  by_cases isSoa : rr.rtype = RRType.soa
  · rw [if_pos isSoa]
    exact ⟨z, rfl, .skipped formed isSoa⟩
  · rw [if_neg isSoa]
    by_cases isSig : rr.rtype = RRType.rrsig
    · obtain ⟨sig, data⟩ := streamed.signature isSig
      rw [if_pos isSig, data]
      exact ⟨_, rfl, .signature formed isSig data⟩
    · rw [if_neg isSig]
      exact ⟨_, rfl, .plain formed ⟨isSoa, isSig⟩ streamed.suits⟩

theorem takeRecords_seen {z : Zone} {rrs : List RR} (formed : z.Formed)
    (streamed : ∀ rr ∈ rrs, Streamed rr) : ∃ w, takeRecords z true rrs = .ok w ∧ Taken z w rrs := by
  induction rrs generalizing z with
  | nil => exact ⟨z, rfl, .nil formed⟩
  | cons rr rest ih =>
      obtain ⟨m, step, first⟩ := takeRecord_seen formed (streamed rr List.mem_cons_self)
      obtain ⟨w, run, second⟩ := ih first.formed fun other held =>
        streamed other (List.mem_cons_of_mem rr held)
      refine ⟨w, ?_, first.trans second⟩
      rw [takeRecords, step]
      exact run

/-! ### What the stream carries -/

theorem flatMap_only {α β : Type} {l : List α} {f : α → List β} {x : α} (distinct : l.Nodup)
    (held : x ∈ l) (others : ∀ y ∈ l, y ≠ x → f y = []) : l.flatMap f = f x := by
  induction l with
  | nil => cases held
  | cons y rest ih =>
      obtain ⟨fresh, more⟩ := List.nodup_cons.mp distinct
      rw [List.flatMap_cons]
      by_cases same : y = x
      · have none : rest.flatMap f = [] := by
          rw [List.flatMap_eq_nil_iff]
          intro z inside
          refine others z (List.mem_cons_of_mem y inside) fun equal => fresh ?_
          rw [same, ← equal]
          exact inside
        rw [none, List.append_nil, same]
      · have inside := (List.mem_cons.mp held).resolve_left fun equal => same equal.symm
        rw [others y List.mem_cons_self same, List.nil_append]
        exact ih more inside fun z within => others z (List.mem_cons_of_mem y within)

theorem mem_names {z : Zone} {name : Name} :
    name ∈ z.names ↔ ∃ entry ∈ z.records.entries, entry.1 = name := by
  rw [names, List.mem_insertionSort, List.mem_map]

theorem names_nodup (z : Zone) : z.names.Nodup := by
  refine (List.perm_insertionSort _ _).nodup_iff.mpr (List.pairwise_map.mpr ?_)
  refine z.records.distinct.imp fun apart same => ?_
  rw [same, BEq.rfl] at apart
  cases apart

/-- An owner is spelled once. -/
theorem names_unique {z : Zone} {a b : Name} (left : a ∈ z.names) (right : b ∈ z.names)
    (same : (a == b) = true) : a = b := by
  obtain ⟨first, inside, rfl⟩ := mem_names.mp left
  obtain ⟨second, within, rfl⟩ := mem_names.mp right
  by_contra differ
  have symmetric : Std.Symm fun a b : Name × Node => (a.1 == b.1) = false := by
    refine ⟨fun a b apart => ?_⟩
    rw [Bool.eq_false_iff] at apart ⊢
    exact fun equal => apart (BEq.symm equal)
  have apart := z.records.distinct.forall inside within fun equal => differ (by rw [equal])
  rw [same] at apart
  cases apart

/-- The types at a name, in their order. -/
def typesAt (z : Zone) (name : Name) : List RRType :=
  ((z.node name).entries.map Prod.fst).insertionSort (· ≤ ·)

theorem Formed.mem_typesAt {z : Zone} (formed : z.Formed) {name : Name} {rtype : RRType} :
    rtype ∈ z.typesAt name ↔ z.slot name rtype ≠ [] := by
  rw [typesAt, List.mem_insertionSort, ← formed.contains_node_iff, Dict.contains, List.any_eq_true,
    List.mem_map]
  simp only [beq_iff_eq]

theorem typesAt_nodup (z : Zone) (name : Name) : (z.typesAt name).Nodup := by
  refine (List.perm_insertionSort _ _).nodup_iff.mpr (List.pairwise_map.mpr ?_)
  refine (z.node name).distinct.imp fun apart same => ?_
  rw [same, BEq.rfl] at apart
  cases apart

theorem Formed.owner_spelled {z : Zone} {name : Name} {rtype : RRType}
    (filled : z.slot name rtype ≠ []) : ∃ owner ∈ z.names, (owner == name) = true := by
  obtain ⟨entry, inside, same, _⟩ := Dict.get?_eq_some.mp (get?_of_slot filled)
  exact ⟨entry.1, mem_names.mpr ⟨entry, inside, rfl⟩, same⟩

theorem addedAt_sigRecord (z : Zone) (name other : Name) (rtype rt : RRType) (ttl : Int) :
    addedAt name rtype (z.sigRecord other rt ttl) = [] := by
  rw [sigRecord]
  split
  · simp [addedAt, Plain]
  · rfl

/-- A set goes to its own slot only. -/
theorem addedAt_setRecords (z : Zone) (name other : Name) (rtype rt : RRType)
    (plain : rtype ≠ RRType.soa ∧ rtype ≠ RRType.rrsig) :
    addedAt name rtype (z.setRecords other rt) =
      if (other == name && rt == rtype) = true then
        rrset other rtype (z.ttlOf other rtype) (z.slot other rtype)
      else [] := by
  rw [setRecords]
  by_cases here : (other == name && rt == rtype) = true
  · rw [if_pos here]
    rw [Bool.and_eq_true] at here
    have same : rt = rtype := beq_iff_eq.mp here.2
    subst same
    rw [if_neg fun apex => plain.1 apex.2, addedAt_append, addedAt_sigRecord, List.append_nil, addedAt,
      List.filter_eq_self.mpr]
    intro rr held
    obtain ⟨rd, _, rfl⟩ := List.mem_map.mp held
    simp [Plain, plain, here.1]
  · rw [if_neg here]
    split
    · rfl
    · rw [addedAt_append, addedAt_sigRecord, List.append_nil, addedAt, List.filter_eq_nil_iff]
      intro rr held
      obtain ⟨rd, _, rfl⟩ := List.mem_map.mp held
      simp only [Bool.and_eq_true, not_and]
      intro _ first second
      exact here (by rw [Bool.and_eq_true]; exact ⟨first, second⟩)

/-- The records between the first SOA and the last. -/
def body (z : Zone) : List RR :=
  z.names.flatMap z.nodeRecords ++
    z.sigRecord z.origin RRType.soa (z.ttlOf z.origin RRType.soa)

theorem addedAt_body {z : Zone} (formed : z.Formed) (name : Name) (rtype : RRType)
    (plain : rtype ≠ RRType.soa ∧ rtype ≠ RRType.rrsig) :
    ∃ owner, (owner == name) = true ∧
      addedAt name rtype z.body = rrset owner rtype (z.ttlOf name rtype) (z.slot name rtype) := by
  have each (l : List Name) : addedAt name rtype (l.flatMap z.nodeRecords) =
      l.flatMap fun other => (z.typesAt other).flatMap fun rt =>
        addedAt name rtype (z.setRecords other rt) := by
    rw [addedAt, List.filter_flatMap]
    refine List.flatMap_congr fun other _ => ?_
    rw [nodeRecords, List.filter_flatMap]
    rfl
  rw [body, addedAt_append, addedAt_sigRecord, List.append_nil, each]
  simp only [addedAt_setRecords _ _ _ _ _ plain]
  by_cases filled : z.slot name rtype = []
  · refine ⟨name, BEq.rfl, ?_⟩
    rw [filled, rrset, List.map_nil, List.flatMap_eq_nil_iff]
    intro other _
    rw [List.flatMap_eq_nil_iff]
    intro rt _
    split
    · next here =>
        rw [Bool.and_eq_true] at here
        rw [slot_congr z here.1, filled]
        rfl
    · rfl
  · obtain ⟨owner, held, same⟩ := Formed.owner_spelled filled
    have sameSlot := slot_congr z same rtype
    have sameTtl : z.ttlOf owner rtype = z.ttlOf name rtype := by
      have key : ((owner, rtype) == (name, rtype)) = true := setKey_beq_iff.mpr ⟨same, rfl⟩
      rw [ttlOf, ttlOf, Dict.get?_congr z.ttls key]
    refine ⟨owner, same, ?_⟩
    rw [flatMap_only z.names_nodup held]
    · rw [flatMap_only (z.typesAt_nodup owner) (formed.mem_typesAt.mpr (sameSlot ▸ filled))]
      · rw [same, BEq.rfl, Bool.and_self, if_pos rfl, sameSlot, sameTtl]
      · intro rt _ differ
        rw [beq_eq_false_iff_ne.mpr differ, Bool.and_false, if_neg Bool.false_ne_true]
    · intro other inside differ
      rw [List.flatMap_eq_nil_iff]
      intro rt _
      have apart : (other == name) = false := by
        rw [Bool.eq_false_iff]
        intro equal
        exact differ (names_unique inside held (BEq.trans equal (BEq.symm same)))
      rw [apart, Bool.false_and, if_neg Bool.false_ne_true]

/-- What a record of the stream is: one of a set's, or a signature that is on file. -/
inductive Carries (z : Zone) (rr : RR) : Prop
  | data (apart : ¬((rr.name == z.origin) = true ∧ rr.rtype = RRType.soa))
      (held : rr.rdata ∈ z.slot rr.name rr.rtype)
  | signature (rtype : RRType) (sig : RrsigData) (isSig : rr.rtype = RRType.rrsig)
      (content : rr.rdata = .rrsig sig) (filed : z.rrsigs.get? (rr.name, rtype) = some sig)

theorem carries_sigRecord {z : Zone} {name : Name} {rtype : RRType} {ttl : Int} {rr : RR}
    (held : rr ∈ z.sigRecord name rtype ttl) : z.Carries rr := by
  rw [sigRecord] at held
  split at held
  · next sig filed =>
      rw [List.mem_singleton] at held
      subst held
      exact .signature rtype sig rfl rfl filed
  · cases held

theorem carries_setRecords {z : Zone} {name : Name} {rtype : RRType} {rr : RR}
    (held : rr ∈ z.setRecords name rtype) : z.Carries rr := by
  rw [setRecords] at held
  split at held
  · cases held
  · next apart =>
      rcases List.mem_append.mp held with inside | inside
      · obtain ⟨rd, within, rfl⟩ := List.mem_map.mp inside
        exact .data apart within
      · exact carries_sigRecord inside

theorem carries_body {z : Zone} {rr : RR} (held : rr ∈ z.body) : z.Carries rr := by
  rw [body] at held
  rcases List.mem_append.mp held with inside | inside
  · obtain ⟨name, _, within⟩ := List.mem_flatMap.mp inside
    obtain ⟨rtype, _, here⟩ := List.mem_flatMap.mp within
    exact carries_setRecords here
  · exact carries_sigRecord inside

/-- A signature on file is sent, where the set it covers has records. -/
theorem Formed.sig_sent {z : Zone} (formed : z.Formed) {name : Name} {rtype : RRType}
    {sig : RrsigData} (filled : z.slot name rtype ≠ [])
    (filed : z.rrsigs.get? (name, rtype) = some sig) :
    ∃ rr ∈ z.body, (rr.name == name) = true ∧ rr.rtype = RRType.rrsig ∧ rr.rdata = .rrsig sig := by
  obtain ⟨owner, held, same⟩ := Formed.owner_spelled filled
  have key : ((owner, rtype) == (name, rtype)) = true := setKey_beq_iff.mpr ⟨same, rfl⟩
  have sent (other : Name) (equal : (other == name) = true) (ttl : Int) :
      (⟨other, RRType.rrsig, RRClass.in, ttl, .rrsig sig⟩ : RR) ∈ z.sigRecord other rtype ttl := by
    have here : ((other, rtype) == (name, rtype)) = true := setKey_beq_iff.mpr ⟨equal, rfl⟩
    rw [sigRecord, Dict.get?_congr z.rrsigs here, filed]
    exact List.mem_singleton_self _
  by_cases apex : (owner == z.origin) = true ∧ rtype = RRType.soa
  · have equal : (z.origin == name) = true := BEq.trans (BEq.symm apex.1) same
    have inside := sent z.origin equal (z.ttlOf z.origin rtype)
    rw [apex.2] at inside
    exact ⟨_, List.mem_append_right _ inside, equal, rfl, rfl⟩
  · have here : rtype ∈ z.typesAt owner := by
      rw [formed.mem_typesAt, slot_congr z same]
      exact filled
    have inside : (⟨owner, RRType.rrsig, RRClass.in, z.ttlOf owner rtype, .rrsig sig⟩ : RR) ∈
        z.setRecords owner rtype := by
      rw [setRecords, if_neg apex]
      exact List.mem_append_right _ (sent owner same _)
    exact ⟨_, List.mem_append_left _ (List.mem_flatMap.mpr ⟨owner, held, List.mem_flatMap.mpr
      ⟨rtype, here, inside⟩⟩), same, rfl, rfl⟩

theorem mem_sigsAt {name : Name} {rtype : RRType} {rrs : List RR} {sig : RrsigData} :
    sig ∈ sigsAt name rtype rrs ↔ ∃ rr ∈ rrs, rr.rtype = RRType.rrsig ∧ rr.rdata = .rrsig sig ∧
      (rr.name == name) = true ∧ sig.typeCovered = rtype := by
  rw [sigsAt, List.mem_filterMap]
  constructor
  · intro ⟨rr, held, found⟩
    split at found
    · next other content =>
        split at found
        · next fits =>
            cases found
            have both := Bool.and_eq_true .. ▸ fits.2
            exact ⟨rr, held, fits.1, content, both.1, beq_iff_eq.mp both.2⟩
        · cases found
    · cases found
  · intro ⟨rr, held, isSig, content, same, covered⟩
    refine ⟨rr, held, ?_⟩
    rw [content]
    simp [isSig, same, covered]

/-! ### What comes back -/

/-- Signatures are filed under the type they cover, and the apex SOA is signed where
anything is. -/
structure Coherent (z : Zone) : Prop where
  formed : z.Formed
  apex : z.slot z.origin RRType.soa ≠ []
  covers : ∀ name rtype sig, z.rrsigs.get? (name, rtype) = some sig → sig.typeCovered = rtype
  unsigned : z.signed = false → ∀ key, z.rrsigs.get? key = none
  signed : z.signed = true → z.rrsigs.get? (z.origin, RRType.soa) ≠ none

/-- What a stream of records can carry: one SOA, no signatures among the plain records,
and hashed denials that need neither salt nor extra rounds. -/
structure Recoverable (z : Zone) : Prop where
  oneSoa : (z.slot z.origin RRType.soa).length ≤ 1
  apexOnly : ∀ name, z.slot name RRType.soa ≠ [] → (name == z.origin) = true
  noSigs : ∀ name, z.slot name RRType.rrsig = []
  unsalted : z.Hashed → z.salt = [] ∧ z.iterations = 0

theorem Formed.slot_suits {z : Zone} (formed : z.Formed) {name : Name} {rtype : RRType} {rd : Rdata}
    (held : rd ∈ z.slot name rtype) : Suits rtype rd := by
  obtain ⟨node, rds, there, found, inside⟩ := mem_slot held
  exact formed.suits name node rtype rds there found rd inside

/-- The stream, from the SOA at its head. -/
theorem Formed.axfrRecords {z : Zone} (formed : z.Formed) (apex : z.slot z.origin RRType.soa ≠ []) :
    ∃ soa rest, z.slot z.origin RRType.soa = .soa soa :: rest ∧
      z.axfrRecords = some (⟨z.origin, RRType.soa, RRClass.in, z.ttlOf z.origin RRType.soa, .soa soa⟩ ::
        (z.body ++ [⟨z.origin, RRType.soa, RRClass.in, z.ttlOf z.origin RRType.soa, .soa soa⟩])) := by
  obtain ⟨rd, rest, held⟩ := List.exists_cons_of_ne_nil apex
  have suits : Suits RRType.soa rd := formed.slot_suits (held ▸ List.mem_cons_self)
  obtain ⟨typed, same⟩ := suits (by decide)
  cases rd with
  | soa soa =>
      refine ⟨soa, rest, held, ?_⟩
      have first : z.soa = some soa := by rw [Zone.soa, held]
      rw [Zone.axfrRecords, soaRecord, first]
      rfl
  | unknown rtype data => exact typed.elim
  | _ => exact absurd same (by rw [Rdata.rdataType]; decide)

namespace Coherent

variable {z : Zone} (coherent : z.Coherent)

include coherent

theorem streamed {rr : RR} (recoverable : z.Recoverable) (held : rr ∈ z.body) : Streamed rr := by
  rcases carries_body held with ⟨_, within⟩ | ⟨rtype, sig, isSig, content, _⟩
  · refine ⟨coherent.formed.slot_suits within, fun isSig => ?_⟩
    rw [isSig, recoverable.noSigs] at within
    cases within
  · refine ⟨fun followed => absurd followed ?_, fun _ => ⟨sig, content⟩⟩
    rw [isSig]
    decide

theorem any_rrsig (recoverable : z.Recoverable) :
    (z.body.any fun rr => rr.rtype == RRType.rrsig) = z.signed := by
  cases signed : z.signed with
  | false =>
      rw [List.any_eq_false]
      intro rr held isSig
      rcases carries_body held with ⟨_, within⟩ | ⟨rtype, sig, _, _, filed⟩
      · rw [beq_iff_eq.mp isSig, recoverable.noSigs] at within
        cases within
      · rw [coherent.unsigned signed] at filed
        cases filed
  | true =>
      obtain ⟨sig, filed⟩ := Option.ne_none_iff_exists'.mp (coherent.signed signed)
      obtain ⟨rr, held, _, isSig, _⟩ := coherent.formed.sig_sent coherent.apex filed
      exact List.any_eq_true.mpr ⟨rr, held, beq_iff_eq.mpr isSig⟩

/-- Every signature of the stream that is filed under a set is the one on file. -/
theorem sigsAt_body (recoverable : z.Recoverable) {name : Name} {rtype : RRType}
    (filled : z.slot name rtype ≠ []) :
    (sigsAt name rtype z.body).getLast? = z.rrsigs.get? (name, rtype) := by
  have each : ∀ sig ∈ sigsAt name rtype z.body, z.rrsigs.get? (name, rtype) = some sig := by
    intro sig held
    obtain ⟨rr, inside, isSig, content, same, covered⟩ := mem_sigsAt.mp held
    rcases carries_body inside with ⟨_, within⟩ | ⟨other, there, _, also, filed⟩
    · rw [isSig, recoverable.noSigs] at within
      cases within
    · rw [content] at also
      cases also
      have equal : other = rtype := (coherent.covers _ _ _ filed).symm.trans covered
      have key : ((rr.name, other) == (name, rtype)) = true := setKey_beq_iff.mpr ⟨same, equal⟩
      rw [← Dict.get?_congr z.rrsigs key]
      exact filed
  cases found : z.rrsigs.get? (name, rtype) with
  | none =>
      have empty : sigsAt name rtype z.body = [] := by
        rw [List.eq_nil_iff_forall_not_mem]
        intro sig held
        have filed := each sig held
        rw [found] at filed
        cases filed
      rw [empty]
      rfl
  | some sig =>
      obtain ⟨rr, held, same, isSig, content⟩ := coherent.formed.sig_sent filled found
      have inside : sig ∈ sigsAt name rtype z.body :=
        mem_sigsAt.mpr ⟨rr, held, isSig, content, same, coherent.covers _ _ _ found⟩
      have last := List.getLast?_eq_some_getLast (List.ne_nil_of_mem inside)
      rw [last]
      have filed := each _ (List.getLast_mem (List.ne_nil_of_mem inside))
      rw [found] at filed
      exact filed.symm

end Coherent

end Zone

end Trench.AuthZone
