import Mathlib
import Trench.Dnssec.Content
import Trench.Dnssec.NsecSound
import Trench.Dnssec.Nsec3

set_option autoImplicit false

/- Any subset of a zone's genuine NSEC3 chain. A match names a node of the chain
because hashes do not collide; a cover without Opt-Out shows that nothing exists
at the covered name, because every node left out lies in a gap that is marked. -/
namespace Trench.Dnssec

open Trench.Wire
open Name (labelOctets)

/-! ### Base 32 keeps the order of digests -/

theorem translated_digit (d : Nat) (small : d < 32) :
    (translateB32Hex (base32Alphabet.getD d 'A')).toLower = base32HexAlphabet.getD d '0' := by
  revert d
  decide

theorem hexDigit_strictMono :
    StrictMonoOn (fun d => base32HexAlphabet.getD d '0') {d | d < 32} := by
  have table : ∀ a < 32, ∀ b < 32, a < b →
      base32HexAlphabet.getD a '0' < base32HexAlphabet.getD b '0' := by decide
  exact fun a left b right below => table a left b right below

theorem value_octets_lt (h : Octets) : Digits.value 256 (h.map UInt8.toNat) < 256 ^ h.length := by
  have bound := Digits.value_lt 256 (h.map UInt8.toNat) fun d held => by
    obtain ⟨c, _, rfl⟩ := List.mem_map.mp held
    exact c.toNat_lt
  rwa [List.length_map] at bound

/-- Shifted to whole digits, the number still fits them. -/
theorem shifted_lt (h : Octets) :
    Digits.value 256 (h.map UInt8.toNat) * 2 ^ (5 * ((8 * h.length + 4) / 5) - 8 * h.length) <
      32 ^ ((8 * h.length + 4) / 5) := by
  have bound := value_octets_lt h
  have power : (32 : Nat) ^ ((8 * h.length + 4) / 5) =
      256 ^ h.length * 2 ^ (5 * ((8 * h.length + 4) / 5) - 8 * h.length) := by
    rw [show (32 : Nat) = 2 ^ 5 from rfl, show (256 : Nat) = 2 ^ 8 from rfl, ← pow_mul, ← pow_mul,
      ← pow_add]
    congr 1
    omega
  rw [power]
  exact Nat.mul_lt_mul_of_pos_right bound (Nat.two_pow_pos _)

theorem base32Digits_lt (h : Octets) : ∀ d ∈ base32Digits h, d < 32 :=
  Digits.spell_lt 32 _ _ (shifted_lt h)

theorem nsec3B32_eq (h : Octets) :
    nsec3B32 h = (base32Digits h).map fun d => base32HexAlphabet.getD d '0' := by
  rw [nsec3B32, b32encode, List.map_map, List.map_map]
  exact List.map_congr_left fun d held => translated_digit d (base32Digits_lt h d held)

theorem toNat_strictMono : StrictMono UInt8.toNat := fun _ _ below => below

/-- Digests of one length are ordered as their base 32 texts are. -/
theorem nsec3B32_lt {a b : Octets} (same : a.length = b.length) :
    nsec3B32 a < nsec3B32 b ↔ a < b := by
  rw [nsec3B32_eq, nsec3B32_eq,
    Digits.map_lt_map hexDigit_strictMono _ _ (base32Digits_lt a) (base32Digits_lt b)]
  have left := shifted_lt a
  have right := shifted_lt b
  rw [same] at left
  simp only [base32Digits, same]
  rw [Digits.spell_lt_spell 32 _ _ _ left right, Nat.mul_lt_mul_right (Nat.two_pow_pos _),
    ← Digits.lt_iff_value 256 _ _ (by simpa using same)
      (fun d held => by obtain ⟨c, _, rfl⟩ := List.mem_map.mp held; exact c.toNat_lt)
      (fun d held => by obtain ⟨c, _, rfl⟩ := List.mem_map.mp held; exact c.toNat_lt)]
  exact Digits.map_lt_map (toNat_strictMono.strictMonoOn Set.univ) a b (fun _ _ => trivial)
    fun _ _ => trivial

theorem nsec3B32_inj {a b : Octets} (same : a.length = b.length)
    (equal : nsec3B32 a = nsec3B32 b) : a = b := by
  rcases lt_trichotomy a b with below | here | above
  · exact absurd equal (ne_of_lt ((nsec3B32_lt same).mpr below))
  · exact here
  · exact absurd equal.symm (ne_of_lt ((nsec3B32_lt same.symm).mpr above))

theorem between_iff {lo x hi : Octets} (left : lo.length = x.length) (right : hi.length = x.length) :
    between (nsec3B32 lo) (nsec3B32 x) (nsec3B32 hi) = true ↔ CyclicChain.Covers lo hi x := by
  simp only [between, CyclicChain.Covers, nsec3B32_lt (left.trans right.symm)]
  split <;> simp only [Bool.and_eq_true, Bool.or_eq_true, decide_eq_true_eq, gt_iff_lt,
    nsec3B32_lt left, nsec3B32_lt right.symm]

/-! ### The chain -/

/-- The octets a name is hashed from, as a function of its path. -/
def pathWire (p : Path) : Octets :=
  (p.reverse.flatMap fun step => UInt8.ofNat step.length :: step) ++ [0]

theorem pathWire_canonKey (name : Name) :
    labelOctets name.canonicalize.labels ++ [0] = pathWire name.canonKey := by
  rw [pathWire, Name.canonKey_eq_lower, List.reverse_reverse]
  congr 1
  change labelOctets name.lower = _
  induction name.lower with
  | nil => rfl
  | cons label rest ih =>
      rw [labelOctets, ih, List.map_cons, List.flatMap_cons, List.cons_append]

/-- How a zone's chain is built: the hash parameters, and the unsigned delegations
left out of it under Opt-Out. -/
structure Nsec3Chain (z : Content) where
  zone : Name
  atApex : zone.canonKey = z.apex
  salt : Octets
  iterations : UInt16
  omitted : Set Path
  unsigned : ∀ p ∈ omitted, z.Cut p ∧ ¬ z.Has p RRType.ds

namespace Nsec3Chain

variable {z : Content} (c : Nsec3Chain z) (sha1 : Octets → Octets)

/-- The names with a record: what is in the zone's own chain and not left out, and
the empty non-terminals above it. -/
def names : Set Path :=
  {p | z.apex <+: p ∧ ∃ member ∈ z.chain, member ∉ c.omitted ∧ p <+: member}

def hash (p : Path) : Octets :=
  (fun digest => sha1 (digest ++ c.salt))^[c.iterations.toNat] (sha1 (pathWire p ++ c.salt))

/-- Something at the name is signed; of a delegation only its DS is. -/
def Signed (z : Content) (p : Path) : Prop :=
  ∃ t, z.Listed p t ∧ (z.Cut p → t = RRType.ds)

/-- The record data of one node: the next hash in the ring, the types there, and
the Opt-Out flag wherever the gap holds a name that was left out. -/
structure RecordOf (p : Path) (rd : Nsec3Data) : Prop where
  node : p ∈ c.names
  link : CyclicChain.Link (c.hash sha1 '' c.names) (c.hash sha1 p) rd.nextHashed
  bits : ∀ t, bitmapHas rd.typeBitmap t = true ↔ z.Listed p t ∨ t = RRType.rrsig ∧ Signed z p
  marked : ∀ q, z.apex <+: q → z.Exists q → q ∉ c.names →
    CyclicChain.Covers (c.hash sha1 p) rd.nextHashed (c.hash sha1 q) → optOut rd = true

/-- A record as published: owned by the hashed name under the zone. -/
structure Genuine (item : Nsec3Item) : Prop where
  algorithm : item.2.hashAlgorithm = 1
  salt : item.2.salt = c.salt
  iterations : item.2.iterations = c.iterations
  published : ∃ p label above, item.1.labels = label :: above ∧
    (Name.mk above).canonKey = z.apex ∧
    label.octets.map lowerLatin1 = nsec3B32 (c.hash sha1 p) ∧ c.RecordOf sha1 p item.2

end Nsec3Chain

section

variable {z : Content} {c : Nsec3Chain z} {sha1 : Octets → Octets}

theorem iterate_length (sha1 : Octets → Octets) (digests : ∀ x, (sha1 x).length = 20)
    (salt : Octets) (n : Nat) (start : Octets) (first : start.length = 20) :
    ((fun digest => sha1 (digest ++ salt))^[n] start).length = 20 := by
  cases n with
  | zero => exact first
  | succ n =>
      rw [Function.iterate_succ_apply']
      exact digests _

theorem Nsec3Chain.length_hash (digests : ∀ x, (sha1 x).length = 20) (p : Path) :
    (c.hash sha1 p).length = 20 :=
  iterate_length sha1 digests c.salt _ _ (digests _)

theorem Nsec3Chain.nsec3Hash_eq (name : Name) :
    nsec3Hash sha1 name c.salt c.iterations.toNat = c.hash sha1 name.canonKey := by
  rw [nsec3Hash, pathWire_canonKey]
  rfl

/-- The records of a response, each with the node it stands for. -/
structure FromChain (c : Nsec3Chain z) (sha1 : Octets → Octets) (s : Nsec3Set) : Prop where
  zone : s.zone.canonKey = z.apex
  salt : s.records ≠ [] → s.salt = c.salt
  iterations : s.records ≠ [] → s.iterations = c.iterations
  nodes : ∀ record ∈ s.records, ∃ p, record.1 = nsec3B32 (c.hash sha1 p) ∧
    c.RecordOf sha1 p record.2

theorem collectNsec3_nodes (zone : Name) (items : List Nsec3Item)
    (genuine : ∀ item ∈ items, c.Genuine sha1 item) :
    ∀ record ∈ (collectNsec3 zone items).1, ∃ p, record.1 = nsec3B32 (c.hash sha1 p) ∧
      c.RecordOf sha1 p record.2 := by
  induction items with
  | nil =>
      intro record held
      cases held
  | cons item rest ih =>
      have tail := ih fun other held => genuine other (List.mem_cons_of_mem _ held)
      obtain ⟨p, label, above, owner, _, text, node⟩ := (genuine item List.mem_cons_self).published
      intro record held
      rw [collectNsec3, owner] at held
      simp only at held
      split at held
      · exact tail record held
      · rcases List.mem_cons.mp held with rfl | held
        · exact ⟨p, text, node⟩
        · exact tail record held

/-- Whatever subset of the chain a response carries, its set stands for nodes. -/
theorem fromChain_make (items : List Nsec3Item) (genuine : ∀ item ∈ items, c.Genuine sha1 item)
    (maxIterations : Nat) : FromChain c sha1 (Nsec3Set.make items c.zone maxIterations) := by
  have nothing : FromChain c sha1 ⟨c.zone, false, [], [], 0⟩ :=
    ⟨c.atApex, fun some => absurd rfl some, fun some => absurd rfl some, fun _ held => by cases held⟩
  cases items with
  | nil => exact nothing
  | cons item rest =>
      have head := genuine item List.mem_cons_self
      simp only [Nsec3Set.make]
      split
      · exact nothing
      · split
        · exact nothing
        · split
          · exact nothing
          · exact ⟨c.atApex, fun _ => head.salt, fun _ => head.iterations,
              collectNsec3_nodes c.zone _ genuine⟩

theorem FromChain.h_eq {s : Nsec3Set} (from_ : FromChain c sha1 s) (some : s.records ≠ [])
    (name : Name) : s.h sha1 name = nsec3B32 (c.hash sha1 name.canonKey) := by
  rw [Nsec3Set.h, from_.salt some, from_.iterations some, Nsec3Chain.nsec3Hash_eq]

/-- A match is the record of a node with the same hash. -/
theorem FromChain.matching_node {s : Nsec3Set} (from_ : FromChain c sha1 s)
    (digests : ∀ x, (sha1 x).length = 20) {name : Name} {rd : Nsec3Data}
    (found : s.matching sha1 name = some rd) :
    ∃ p, c.hash sha1 p = c.hash sha1 name.canonKey ∧ c.RecordOf sha1 p rd := by
  rw [Nsec3Set.matching, Option.map_eq_some_iff] at found
  obtain ⟨record, here, rfl⟩ := found
  have held := List.mem_of_find?_eq_some here
  have text := eq_of_beq (List.find?_some (p := fun record : Text × Nsec3Data =>
    record.1 == s.h sha1 name) here)
  obtain ⟨p, own, node⟩ := from_.nodes record held
  rw [own, from_.h_eq (List.ne_nil_of_mem held)] at text
  refine ⟨p, nsec3B32_inj ?_ text, node⟩
  rw [Nsec3Chain.length_hash digests, Nsec3Chain.length_hash digests]

theorem FromChain.cover_node {s : Nsec3Set} (from_ : FromChain c sha1 s)
    (digests : ∀ x, (sha1 x).length = 20) {name : Name} {rd : Nsec3Data}
    (found : s.cover sha1 name = some rd) :
    ∃ p, CyclicChain.Covers (c.hash sha1 p) rd.nextHashed (c.hash sha1 name.canonKey) ∧
      c.RecordOf sha1 p rd := by
  rw [Nsec3Set.cover, Option.map_eq_some_iff] at found
  obtain ⟨record, here, rfl⟩ := found
  have held := List.mem_of_find?_eq_some here
  have text := List.find?_some here
  obtain ⟨p, own, node⟩ := from_.nodes record held
  simp only [own, from_.h_eq (List.ne_nil_of_mem held)] at text
  obtain ⟨other, _, next⟩ := node.link.high_mem
  refine ⟨p, (between_iff ?_ ?_).mp text, node⟩
  · rw [Nsec3Chain.length_hash digests, Nsec3Chain.length_hash digests]
  · rw [← next, Nsec3Chain.length_hash digests, Nsec3Chain.length_hash digests]

/-- A covered name has no record in the chain. -/
theorem FromChain.not_mem_of_cover {s : Nsec3Set} (from_ : FromChain c sha1 s)
    (digests : ∀ x, (sha1 x).length = 20) {name : Name} {rd : Nsec3Data}
    (found : s.cover sha1 name = some rd) : name.canonKey ∉ c.names := by
  obtain ⟨p, covers, node⟩ := from_.cover_node digests found
  exact fun member => node.link.not_mem_of_covers covers ⟨_, member, rfl⟩

/-- A gap without Opt-Out leaves nothing out. -/
theorem FromChain.absent_of_cover {s : Nsec3Set} (from_ : FromChain c sha1 s)
    (digests : ∀ x, (sha1 x).length = 20) {name : Name} (inside : InZone z name)
    (proven : gapUnproven (s.cover sha1 name) = false) : ¬ z.Exists name.canonKey := by
  cases found : s.cover sha1 name with
  | none =>
      rw [found] at proven
      cases proven
  | some rd =>
      rw [found, gapUnproven] at proven
      intro exact
      obtain ⟨p, covers, node⟩ := from_.cover_node digests found
      have marked := node.marked _ inside exact (from_.not_mem_of_cover digests found) covers
      rw [proven] at marked
      cases marked

/-! ### The closest encloser -/

theorem lastLabels_canonKey (name : Name) (count : Nat) (fits : count ≤ name.labels.length) :
    (lastLabels name count).canonKey = name.canonKey.take count := by
  rw [lastLabels, Name.canonKey_drop]
  congr 1
  omega

/-- The walk goes over the proper ancestors down to the zone. -/
theorem ancestors_spec (zone : Name) (fuel : Nat) (name anc : Name)
    (held : anc ∈ ancestors zone fuel name) :
    anc.canonKey <+: name.canonKey ∧ zone.labels.length ≤ anc.labels.length := by
  induction fuel generalizing name with
  | zero => cases held
  | succ fuel ih =>
      rw [ancestors] at held
      split at held
      · next long =>
          split at held
          · rw [List.mem_singleton] at held
            subst held
            exact ⟨List.prefix_refl _, long⟩
          · rcases List.mem_cons.mp held with rfl | held
            · exact ⟨List.prefix_refl _, long⟩
            · have inner := ih _ held
              rw [Name.canonKey_parent] at inner
              exact ⟨inner.1.trans (List.dropLast_prefix _), inner.2⟩
      · cases held

theorem walk_spec {s : Nsec3Set} {qname ce nextCloser : Name} (names : List Name)
    (found : closestEncloser.walk sha1 qname s names = some (ce, nextCloser)) :
    ce ∈ names ∧ nextCloser = lastLabels qname (ce.labels.length + 1) ∧
      ∃ rd, s.matching sha1 ce = some rd ∧
        (isDelegation rd.typeBitmap || bitmapHas rd.typeBitmap RRType.dname) = false := by
  induction names with
  | nil => cases found
  | cons anc rest ih =>
      rw [closestEncloser.walk] at found
      split at found
      · next rd here =>
          split at found
          · cases found
          · next open_ =>
              cases found
              exact ⟨List.mem_cons_self, rfl, rd, here, Bool.eq_false_iff.mpr open_⟩
      · obtain ⟨held, next, matched⟩ := ih found
        exact ⟨List.mem_cons_of_mem _ held, next, matched⟩

/-- The names whose hashes a check of these questions compares. -/
def Involved (c : Nsec3Chain z) (names : List Name) : Set Path :=
  c.names ∪ {p | ∃ name ∈ names, p <+: name.canonKey ∨
    ∃ e, e <+: name.canonKey ∧ p = e ++ [star]}

theorem RecordOf.of_match {s : Nsec3Set} (from_ : FromChain c sha1 s)
    (digests : ∀ x, (sha1 x).length = 20) {names : List Name}
    (injective : Set.InjOn (c.hash sha1) (Involved c names)) {name : Name}
    (involved : name.canonKey ∈ Involved c names) {rd : Nsec3Data}
    (found : s.matching sha1 name = some rd) : c.RecordOf sha1 name.canonKey rd := by
  obtain ⟨p, same, node⟩ := from_.matching_node digests found
  have equal := injective (.inl node.node) involved same
  exact equal ▸ node

/-- A node of the chain exists and nothing hides it. -/
theorem Nsec3Chain.RecordOf.exists {p : Path} {rd : Nsec3Data} (node : c.RecordOf sha1 p rd) :
    z.Exists p ∧ ¬ z.Occluded p := by
  obtain ⟨_, member, held, _, above⟩ := node.node
  exact ⟨Content.exists_iff.mpr ⟨member, held, above⟩, fun hidden => held.2 (hidden.below above)⟩

theorem Nsec3Chain.RecordOf.has_iff {p : Path} {rd : Nsec3Data} (node : c.RecordOf sha1 p rd)
    {t : RRType} (plain : t ≠ RRType.rrsig) :
    bitmapHas rd.typeBitmap t = true ↔ z.Listed p t := by
  rw [node.bits]
  exact ⟨fun h => h.elim id fun own => absurd own.1 plain, Or.inl⟩

theorem Nsec3Chain.RecordOf.isDelegation_iff {p : Path} {rd : Nsec3Data}
    (node : c.RecordOf sha1 p rd) : isDelegation rd.typeBitmap = true ↔ z.Cut p := by
  have ns := node.has_iff (t := RRType.ns) (by decide)
  have soa := node.has_iff (t := RRType.soa) (by decide)
  rw [isDelegation, Bool.and_eq_true, Bool.not_eq_true', ns, ← Bool.not_eq_true, soa]
  constructor
  · rintro ⟨listed, other⟩
    refine ⟨listed.1, fun same => other ⟨Content.has_soa_iff.mpr same, fun cut => ?_⟩⟩
    exact absurd same cut.2
  · intro cut
    exact ⟨⟨cut.1, fun _ => .inl rfl⟩, fun listed => cut.2 (Content.has_soa_iff.mp listed.1)⟩

theorem Nsec3Chain.RecordOf.lacks {p : Path} {rd : Nsec3Data} (node : c.RecordOf sha1 p rd)
    {t : RRType} (clear : bitmapHas rd.typeBitmap t = false) : ¬ z.Listed p t :=
  fun listed => Bool.eq_false_iff.mp clear ((node.bits t).mpr (.inl listed))

/-- What a found encloser and a proven next closer name establish. -/
structure Enclosed (z : Content) (q e : Path) : Prop where
  above : e <+: q
  exists_ : z.Exists e
  absent : ∀ p, p <+: q → e.length < p.length → ¬ z.Exists p
  proper : e ≠ q
  shown : ¬ z.Occluded q

/-- The first matched ancestor does not end the zone, and below it the name leaves
what exists at once. -/
theorem FromChain.enclosed {s : Nsec3Set} (from_ : FromChain c sha1 s)
    (digests : ∀ x, (sha1 x).length = 20) {names : List Name}
    (injective : Set.InjOn (c.hash sha1) (Involved c names)) {qname ce nextCloser : Name}
    (asked : qname ∈ names) (inside : InZone z qname)
    (found : closestEncloser sha1 qname s = some (ce, nextCloser))
    (proven : gapUnproven (s.cover sha1 nextCloser) = false) :
    Enclosed z qname.canonKey ce.canonKey := by
  obtain ⟨held, rfl, rd, matched, plain⟩ := walk_spec _ found
  obtain ⟨parentAbove, long⟩ := ancestors_spec _ _ _ _ held
  rw [Name.canonKey_parent] at parentAbove
  have above : ce.canonKey <+: qname.canonKey := parentAbove.trans (List.dropLast_prefix _)
  have node := RecordOf.of_match from_ digests injective (.inr ⟨qname, asked, .inl above⟩) matched
  obtain ⟨exact, shown⟩ := node.exists
  have open_ : ¬ z.Stops ce.canonKey := by
    rw [Bool.or_eq_false_iff] at plain
    have uncut : ¬ z.Cut ce.canonKey := fun cut =>
      Bool.eq_false_iff.mp plain.1 (node.isDelegation_iff.mpr cut)
    rintro (cut | dname)
    · exact uncut cut
    · exact node.lacks plain.2 ⟨dname, fun cut => absurd cut uncut⟩
  by_cases proper : ce.canonKey = qname.canonKey
  · -- only the root is its own parent, and the apex is always in the chain
    exfalso
    have short := parentAbove.length_le
    rw [proper, List.length_dropLast] at short
    have root : qname.canonKey = [] := List.eq_nil_of_length_eq_zero (by omega)
    have next : (lastLabels qname (ce.labels.length + 1)).canonKey = qname.canonKey := by
      rw [lastLabels, Name.canonKey_drop, root, List.take_nil]
    have apex : InZone z (lastLabels qname (ce.labels.length + 1)) := by
      rw [InZone, next]
      exact inside
    refine from_.absent_of_cover digests apex proven ?_
    rw [next, ← proper]
    exact exact
  · have shorter : ce.canonKey.length < qname.canonKey.length :=
      lt_of_le_of_ne above.length_le fun same => proper (above.eq_of_length same)
    have next : (lastLabels qname (ce.labels.length + 1)).canonKey =
        qname.canonKey.take (ce.canonKey.length + 1) := by
      rw [lastLabels_canonKey, Name.canonKey_length]
      rw [Name.canonKey_length, Name.canonKey_length] at shorter
      exact shorter
    have start : z.apex <+: qname.canonKey.take (ce.canonKey.length + 1) := by
      refine List.prefix_of_prefix_length_le inside (List.take_prefix _ _) ?_
      have first := node.node.1.length_le
      rw [List.length_take]
      omega
    have nextInside : InZone z (lastLabels qname (ce.labels.length + 1)) := by
      rw [InZone, next]
      exact start
    have nextAbsent := from_.absent_of_cover digests nextInside proven
    rw [next] at nextAbsent
    have absent (p : Path) (leads : p <+: qname.canonKey) (longer : ce.canonKey.length < p.length) :
        ¬ z.Exists p := by
      refine fun found => nextAbsent (found.above ?_)
      refine List.prefix_of_prefix_length_le (List.take_prefix _ _) leads ?_
      rw [List.length_take]
      omega
    refine ⟨above, exact, absent, proper, fun hidden => ?_⟩
    obtain ⟨stop, member, stops, leads, _⟩ := hidden.first_stop
    have reached : z.Exists stop := Content.exists_iff.mpr ⟨stop, member, List.prefix_refl _⟩
    have high : stop.length ≤ ce.canonKey.length := not_lt.mp fun low => absent _ leads low reached
    have onWay := List.prefix_of_prefix_length_le leads above high
    by_cases same : stop = ce.canonKey
    · exact open_ (same ▸ stops)
    · exact shown (Content.occluded_iff.mpr ⟨stop, stops, onWay, same⟩)

theorem Enclosed.not_exists {q e : Path} (here : Enclosed z q e) : ¬ z.Exists q := by
  refine here.absent q (List.prefix_refl q) ?_
  exact lt_of_le_of_ne here.above.length_le fun same => here.proper (here.above.eq_of_length same)

theorem Enclosed.source_eq {q e : Path} (here : Enclosed z q e) (inside : z.apex <+: q) :
    z.source q = e ++ [star] := by
  rw [Content.source_of_absent here.not_exists]
  rw [Content.encloser_eq inside here.above here.exists_ fun p leads found => ?_]
  exact List.prefix_of_prefix_length_le leads here.above
    (not_lt.mp fun longer => here.absent p leads longer found)

end

/-! ### The verdicts -/

/-- What the four NSEC3 verdicts promise. -/
structure Nsec3Sound (z : Content) (sha1 : Octets → Octets) (s : Nsec3Set) (qname : Name)
    (qtype : RRType) (wild child : Name) : Prop where
  nxdomain : nsec3Nxdomain sha1 qname s = true →
    ¬ z.Exists qname.canonKey ∧ ¬ z.Exists (z.source qname.canonKey) ∧
    ∀ t, z.answer qname.canonKey t = .nxdomain
  nodata : nsec3Nodata sha1 qname qtype s = true →
    ¬ z.Listed qname.canonKey qtype ∧ ¬ z.Listed qname.canonKey RRType.cname ∧
    ¬ z.Supplies qname.canonKey qtype
  expansion : nsec3WildcardExpansion sha1 qname wild s = true →
    ∀ p, p <+: qname.canonKey → wild.parent.canonKey.length < p.length → ¬ z.Exists p
  dsDenial : ∀ verdict, nsec3DsDenial sha1 child s = some verdict →
    ¬ z.Serves child.canonKey RRType.ds ∧
    (verdict = .nocut → ¬ (z.Cut child.canonKey ∧ ¬ z.Occluded child.canonKey))

section

variable {z : Content} {c : Nsec3Chain z} {sha1 : Octets → Octets} {s : Nsec3Set}
variable {names : List Name} {qname : Name}

theorem FromChain.nxdomain_sound (from_ : FromChain c sha1 s)
    (digests : ∀ x, (sha1 x).length = 20)
    (injective : Set.InjOn (c.hash sha1) (Involved c names)) (asked : qname ∈ names)
    (inside : InZone z qname) (accepts : nsec3Nxdomain sha1 qname s = true) :
    ¬ z.Exists qname.canonKey ∧ ¬ z.Exists (z.source qname.canonKey) ∧
      ∀ t, z.answer qname.canonKey t = .nxdomain := by
  rw [nsec3Nxdomain] at accepts
  split at accepts
  · cases accepts
  · next ce nextCloser found =>
      split at accepts
      · cases accepts
      · next proven =>
          split at accepts
          · cases accepts
          · have here := from_.enclosed digests injective asked inside found
              (Bool.eq_false_iff.mpr proven)
            have source := here.source_eq inside
            have below : InZone z (wildcardOf ce) := by
              have start := (Content.encloser_deepest inside Content.exists_apex)
              rw [Content.encloser_eq inside here.above here.exists_ fun p leads found =>
                List.prefix_of_prefix_length_le leads here.above
                  (not_lt.mp fun longer => here.absent p leads longer found)] at start
              rw [InZone, wildcardOf_canonKey]
              exact start.trans (List.prefix_append _ _)
            rw [Bool.not_eq_true'] at accepts
            have none := from_.absent_of_cover digests below accepts
            rw [wildcardOf_canonKey, ← source] at none
            exact ⟨here.not_exists, none, fun t =>
              (Content.answer_eq_nxdomain_iff here.shown t).mpr none⟩

theorem FromChain.nodata_sound (from_ : FromChain c sha1 s)
    (digests : ∀ x, (sha1 x).length = 20)
    (injective : Set.InjOn (c.hash sha1) (Involved c names)) (asked : qname ∈ names)
    (inside : InZone z qname) {qtype : RRType} (accepts : nsec3Nodata sha1 qname qtype s = true) :
    ¬ z.Listed qname.canonKey qtype ∧ ¬ z.Listed qname.canonKey RRType.cname ∧
      ¬ z.Supplies qname.canonKey qtype := by
  rw [nsec3Nodata] at accepts
  split at accepts
  · next rd matched =>
      have node := RecordOf.of_match from_ digests injective
        (.inr ⟨qname, asked, .inl (List.prefix_refl _)⟩) matched
      split at accepts
      · cases accepts
      · rw [Bool.and_eq_true, Bool.not_eq_true', Bool.not_eq_true'] at accepts
        have type := node.lacks accepts.1
        have cname := node.lacks accepts.2
        refine ⟨type, cname, ?_⟩
        rw [Content.Supplies, Content.source_of_exists node.exists.1]
        exact not_or.mpr ⟨type, cname⟩
  · split at accepts
    · cases accepts
    · next ce nextCloser found =>
        split at accepts
        · cases accepts
        · next proven =>
            have here := from_.enclosed digests injective asked inside found
              (Bool.eq_false_iff.mpr proven)
            split at accepts
            · cases accepts
            · next wrd matched =>
                have node := RecordOf.of_match from_ digests injective
                  (.inr ⟨qname, asked, .inr ⟨_, here.above, wildcardOf_canonKey ce⟩⟩) matched
                rw [wildcardOf_canonKey, ← here.source_eq inside] at node
                rw [Bool.and_eq_true, Bool.not_eq_true', Bool.not_eq_true'] at accepts
                have unowned (t : RRType) : ¬ z.Listed qname.canonKey t := fun listed =>
                  here.not_exists (Content.exists_of_owner listed.1.owner (List.prefix_refl _)
                    here.shown)
                exact ⟨unowned _, unowned _,
                  not_or.mpr ⟨node.lacks accepts.1, node.lacks accepts.2⟩⟩

theorem FromChain.expansion_sound (from_ : FromChain c sha1 s)
    (digests : ∀ x, (sha1 x).length = 20) (inside : InZone z qname) {wild : Name}
    (below : InZone z wild.parent) (accepts : nsec3WildcardExpansion sha1 qname wild s = true) :
    ∀ p, p <+: qname.canonKey → wild.parent.canonKey.length < p.length → ¬ z.Exists p := by
  rw [nsec3WildcardExpansion] at accepts
  split at accepts
  · cases accepts
  · next under =>
      rw [Bool.not_eq_true, strictlyBelow_iff] at under
      have shorter : wild.parent.canonKey.length < qname.canonKey.length :=
        lt_of_le_of_ne under.1.length_le fun same => under.2 (under.1.eq_of_length same)
      have next : (lastLabels qname (wild.parent.labels.length + 1)).canonKey =
          qname.canonKey.take (wild.parent.canonKey.length + 1) := by
        rw [lastLabels_canonKey, Name.canonKey_length]
        rw [Name.canonKey_length, Name.canonKey_length] at shorter
        exact shorter
      have nextInside : InZone z (lastLabels qname (wild.parent.labels.length + 1)) := by
        rw [InZone, next]
        refine List.prefix_of_prefix_length_le inside (List.take_prefix _ _) ?_
        have first := List.IsPrefix.length_le below
        rw [List.length_take]
        omega
      rw [Bool.not_eq_true'] at accepts
      have absent := from_.absent_of_cover digests nextInside accepts
      rw [next] at absent
      intro p leads longer found
      refine absent (found.above (List.prefix_of_prefix_length_le (List.take_prefix _ _) leads ?_))
      rw [List.length_take]
      omega

/-- An unsigned delegation is all that Opt-Out may hide. -/
theorem Nsec3Chain.mem_names_of_ds {p : Path} (ds : z.Serves p RRType.ds) : p ∈ c.names :=
  ⟨ds.2.1.owner.inZone, p, ⟨ds.2.1.owner, ds.1⟩, fun out => (c.unsigned p out).2 ds.2.1,
    List.prefix_refl p⟩

theorem FromChain.dsDenial_sound (from_ : FromChain c sha1 s)
    (digests : ∀ x, (sha1 x).length = 20)
    (injective : Set.InjOn (c.hash sha1) (Involved c names)) {child : Name}
    (asked : child ∈ names) (inside : InZone z child) {verdict : DsDenial}
    (denies : nsec3DsDenial sha1 child s = some verdict) :
    ¬ z.Serves child.canonKey RRType.ds ∧
      (verdict = .nocut → ¬ (z.Cut child.canonKey ∧ ¬ z.Occluded child.canonKey)) := by
  rw [nsec3DsDenial] at denies
  split at denies
  · next rd matched =>
      have node := RecordOf.of_match from_ digests injective
        (.inr ⟨child, asked, .inl (List.prefix_refl _)⟩) matched
      split at denies
      · cases denies
      · next clear =>
          have unsigned := node.lacks (Bool.eq_false_iff.mpr clear)
          refine ⟨fun ds => unsigned ds.2, ?_⟩
          split at denies
          · cases denies
          · split at denies
            · cases denies
              exact fun h => by cases h
            · next plain =>
                rintro _ ⟨cut, _⟩
                exact node.lacks (Bool.eq_false_iff.mpr plain) ⟨cut.1, fun _ => .inl rfl⟩
  · split at denies
    · cases denies
    · next cov found =>
        have outside := from_.not_mem_of_cover digests found
        refine ⟨fun ds => outside (Nsec3Chain.mem_names_of_ds ds), ?_⟩
        split at denies
        · cases denies
          exact fun h => by cases h
        · next plain =>
            have proven : gapUnproven (s.cover sha1 child) = false := by
              rw [found, gapUnproven]
              exact Bool.eq_false_iff.mpr plain
            have absent := from_.absent_of_cover digests inside proven
            rintro _ ⟨cut, shown⟩
            exact absent (Content.exists_of_owner cut.1.owner (List.prefix_refl _) shown)

end

def bareRoot : Content where
  apex := []
  nodes := [([], [RRType.soa, RRType.ns])]
  inZone := by decide
  soaApex := by decide
  soaOnly := by decide

/-- SHA-1 on the four names the question involves. -/
def sampleSha1 (x : Octets) : Octets :=
  if x = [0] then [0x5b, 0xa9, 0x3c, 0x9d, 0xb0, 0xcf, 0xf9, 0x3f, 0x52, 0xb5, 0x21, 0xd7, 0x42,
    0x0e, 0x43, 0xf6, 0xed, 0xa2, 0x78, 0x4f]
  else if x = [1, 0x61, 0] then [0xd4, 0xc5, 0x42, 0xc1, 0x7c, 0xab, 0x0c, 0x3a, 0xc0, 0x1a, 0xc7,
    0xb6, 0x69, 0xa4, 0xac, 0x47, 0x04, 0xb3, 0x79, 0xd1]
  else if x = [1, 0x2a, 0] then [0x34, 0x6b, 0xbb, 0x11, 0x31, 0x39, 0xd1, 0x1b, 0x98, 0xe0, 0x40,
    0x05, 0x69, 0xb5, 0xf0, 0x64, 0x19, 0xa6, 0x75, 0x2a]
  else if x = [1, 0x2a, 1, 0x61, 0] then [0xec, 0x4a, 0x25, 0x3e, 0x1a, 0x24, 0x5b, 0x64, 0x28,
    0xb5, 0x0f, 0x5e, 0x75, 0x76, 0x8e, 0xe9, 0xc9, 0x03, 0x88, 0xfc]
  else List.replicate 20 0

def bareRootChain : Nsec3Chain bareRoot where
  zone := Name.root
  atApex := rfl
  salt := []
  iterations := 0
  omitted := ∅
  unsigned _ out := out.elim

/-- `bekjp7dgpvsjukll47bk43i3urmq4u2f`, whose next hash is its own. -/
def bareRootRecord : Nsec3Item :=
  (⟨[⟨"bekjp7dgpvsjukll47bk43i3urmq4u2f".toList.map fun c => UInt8.ofNat c.toNat,
      by decide, by decide⟩]⟩,
    ⟨1, 0, 0, [], sampleSha1 [0], encodeTypeBitmap [RRType.soa, RRType.ns, RRType.rrsig]⟩)

theorem bareRoot_chain {p : Path} : p ∈ bareRoot.chain ↔ p = [] := by
  constructor
  · intro member
    obtain ⟨node, inside, rfl⟩ := member.1.node
    simp only [bareRoot, List.mem_singleton] at inside
    rw [inside]
  · rintro rfl
    exact Content.apex_mem_chain

theorem bareRoot_names {p : Path} : p ∈ bareRootChain.names ↔ p = [] := by
  constructor
  · rintro ⟨_, member, held, _, above⟩
    rw [bareRoot_chain.mp held] at above
    exact List.prefix_nil.mp above
  · rintro rfl
    exact ⟨List.prefix_refl _, [], bareRoot_chain.mpr rfl, id, List.prefix_refl _⟩

theorem bareRoot_exists {p : Path} (found : bareRoot.Exists p) : p = [] := by
  obtain ⟨member, held, above⟩ := Content.exists_iff.mp found
  rw [bareRoot_chain.mp held] at above
  exact List.prefix_nil.mp above

theorem bareRootRecord_genuine : bareRootChain.Genuine sampleSha1 bareRootRecord := by
  have listed (t : RRType) : bareRoot.Listed [] t ↔ t = RRType.soa ∨ t = RRType.ns := by
    rw [listed_iff_of_uncut (by decide)]
    simp [Content.Has, bareRoot]
  refine ⟨rfl, rfl, rfl, [], _, [], rfl, rfl, by decide, bareRoot_names.mpr rfl, ?_, fun t => ?_, ?_⟩
  · refine ⟨⟨[], bareRoot_names.mpr rfl, rfl⟩, ⟨[], bareRoot_names.mpr rfl, rfl⟩, .inr ?_⟩
    rintro _ ⟨p, member, rfl⟩
    rw [bareRoot_names.mp member]
    exact ⟨le_refl _, le_refl _⟩
  · have signed : Nsec3Chain.Signed bareRoot [] :=
      ⟨RRType.soa, (listed _).mpr (.inl rfl), fun cut => absurd rfl cut.2⟩
    rw [bareRootRecord, bitmapHas_encodeTypeBitmap, listed]
    simp only [List.mem_cons, List.not_mem_nil, or_false, signed, and_true, or_assoc]
  · intro q _ found outside
    exact absurd (bareRoot_names.mpr (bareRoot_exists found)) outside

theorem sampleSha1_length (x : Octets) : (sampleSha1 x).length = 20 := by
  simp only [sampleSha1]
  repeat' split
  all_goals rfl

end Trench.Dnssec
