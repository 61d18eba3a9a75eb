import Mathlib

set_option autoImplicit false

/- A finite set of a linear order linked into a ring: each element points to the
next larger one and the largest points back to the smallest. A link covers what
lies strictly between its two ends, the last link what lies outside the set's
range. -/
namespace CyclicChain

variable {α : Type*} [LinearOrder α]

/-- The gap of one link; the second case is the link that closes the ring. -/
def Covers (low high item : α) : Prop :=
  if low < high then low < item ∧ item < high else low < item ∨ item < high

instance (low high item : α) : Decidable (Covers low high item) := by
  unfold Covers
  infer_instance

/-- `high` follows `low` in the ring over `members`. -/
structure Link (members : Set α) (low high : α) : Prop where
  low_mem : low ∈ members
  high_mem : high ∈ members
  next : (low < high ∧ ∀ item ∈ members, item ≤ low ∨ high ≤ item) ∨
    (∀ item ∈ members, high ≤ item ∧ item ≤ low)

variable {members : Set α} {low high item : α}

theorem covers_of_lt (ordered : low < high) :
    Covers low high item ↔ low < item ∧ item < high := by
  simp only [Covers, ordered, ↓reduceIte]

theorem covers_of_ge (wrapped : high ≤ low) :
    Covers low high item ↔ low < item ∨ item < high := by
  simp only [Covers, not_lt.mpr wrapped, ↓reduceIte]

/-- No link covers an element of the ring. -/
theorem Link.not_mem_of_covers (link : Link members low high)
    (gap : Covers low high item) : item ∉ members := by
  intro member
  rcases link.next with ⟨ordered, between⟩ | range
  · have inside := (covers_of_lt ordered).mp gap
    rcases between item member with below | above
    · exact absurd inside.1 (not_lt.mpr below)
    · exact absurd inside.2 (not_lt.mpr above)
  · have wrapped := (range low link.low_mem).1
    rcases (covers_of_ge wrapped).mp gap with above | below
    · exact absurd above (not_lt.mpr (range item member).2)
    · exact absurd below (not_lt.mpr (range item member).1)

/-- Everything in the ring below a covered item is at most the link's own end. -/
theorem Link.le_low_of_lt (link : Link members low high) (gap : Covers low high item)
    {other : α} (member : other ∈ members) (below : other < item) : other ≤ low := by
  rcases link.next with ⟨ordered, between⟩ | range
  · have inside := (covers_of_lt ordered).mp gap
    rcases between other member with here | above
    · exact here
    · exact absurd (lt_of_lt_of_le inside.2 above) (not_lt.mpr below.le)
  · exact (range other member).2

/-- Everything in the ring above a covered item that is above `low` is at least
the link's other end, unless the link closes the ring. -/
theorem Link.high_le_of_lt (link : Link members low high)
    (start : low < item) {other : α} (member : other ∈ members) (above : item < other) :
    high ≤ other := by
  rcases link.next with ⟨_, between⟩ | range
  · rcases between other member with below | here
    · exact absurd (lt_trans start above) (not_lt.mpr below)
    · exact here
  · exact (range other member).1

/-- An item that is not below the whole ring is above the end of the link that
covers it. -/
theorem Link.low_lt_of_covers (link : Link members low high) (gap : Covers low high item)
    {least : α} (member : least ∈ members) (bound : least ≤ item) : low < item := by
  rcases link.next with ⟨ordered, _⟩ | range
  · exact ((covers_of_lt ordered).mp gap).1
  · rcases (covers_of_ge (range low link.low_mem).1).mp gap with above | below
    · exact above
    · exact absurd (le_trans (range least member).1 bound) (not_le.mpr below)

/-- The largest element below an item that is not in the ring starts the link
covering it. -/
theorem Link.covers_of_greatest (link : Link members low high) (absent : item ∉ members)
    (start : low < item) (greatest : ∀ other ∈ members, other < item → other ≤ low) :
    Covers low high item := by
  rcases link.next with ⟨ordered, _⟩ | range
  · refine (covers_of_lt ordered).mpr ⟨start, ?_⟩
    by_contra reached
    rcases lt_or_eq_of_le (not_lt.mp reached) with below | same
    · exact absurd (greatest high link.high_mem below) (not_le.mpr ordered)
    · exact absent (same ▸ link.high_mem)
  · exact (covers_of_ge (range low link.low_mem).1).mpr (Or.inl start)

/-- Below the whole ring only the closing link covers. -/
theorem Link.covers_of_below (link : Link members low high)
    (closing : ∀ other ∈ members, high ≤ other ∧ other ≤ low)
    (below : ∀ other ∈ members, item < other) : Covers low high item :=
  (covers_of_ge (closing low link.low_mem).1).mpr (Or.inr (below high link.high_mem))

/-- An element is followed by one element only. -/
theorem Link.high_unique (link : Link members low high) {other : α} (second : Link members low other) :
    high = other := by
  rcases link.next with ⟨ordered, between⟩ | range
  · rcases second.next with ⟨after, within⟩ | all
    · have up : high ≤ other := (between other second.high_mem).resolve_left (not_le.mpr after)
      have down : other ≤ high := (within high link.high_mem).resolve_left (not_le.mpr ordered)
      exact le_antisymm up down
    · exact absurd (all high link.high_mem).2 (not_le.mpr ordered)
  · rcases second.next with ⟨after, -⟩ | all
    · exact absurd (range other second.high_mem).2 (not_le.mpr after)
    · exact le_antisymm (range other second.high_mem).1 (all high link.high_mem).1

/-! ### The ring over a list -/

/-- Every element with the next one, the last with the first. -/
def ring {β : Type*} (l : List β) : List (β × β) := l.zip (l.rotate 1)

theorem ring_map {β γ : Type*} (f : β → γ) (l : List β) : ring (l.map f) = (ring l).map (Prod.map f f) := by
  rw [ring, ring, ← List.map_rotate, List.zip_map]

theorem mem_ring {β : Type*} {l : List β} {link : β × β} :
    link ∈ ring l ↔ ∃ (i : Nat) (inside : i < l.length), link.1 = l[i] ∧
      link.2 = l.get ⟨(i + 1) % l.length, Nat.mod_lt _ (Nat.zero_lt_of_lt inside)⟩ := by
  rw [ring, List.mem_iff_getElem]
  constructor
  · rintro ⟨i, inside, rfl⟩
    rw [List.length_zip, List.length_rotate, Nat.min_self] at inside
    exact ⟨i, inside, by rw [List.getElem_zip], by rw [List.getElem_zip, List.getElem_rotate]; rfl⟩
  · rintro ⟨i, inside, first, second⟩
    refine ⟨i, by rw [List.length_zip, List.length_rotate, Nat.min_self]; exact inside, ?_⟩
    rw [List.getElem_zip, List.getElem_rotate]
    exact Prod.ext first.symm second.symm

/-- Over a sorted list the ring is made of links. -/
theorem ring_link {l : List α} (sorted : l.Pairwise (· < ·)) {link : α × α} (held : link ∈ ring l) :
    Link {item | item ∈ l} link.1 link.2 := by
  obtain ⟨i, inside, first, second⟩ := mem_ring.mp held
  have increasing := List.pairwise_iff_getElem.mp sorted
  have ordered (j k : Nat) (left : j < l.length) (right : k < l.length) (le : j ≤ k) : l[j] ≤ l[k] := by
    rcases Nat.eq_or_lt_of_le le with same | before
    · subst same
      exact le_refl _
    · exact (increasing j k left right before).le
  refine ⟨by rw [first]; exact List.getElem_mem _, by rw [second]; exact List.getElem_mem _, ?_⟩
  rw [first, second]
  by_cases last : i + 1 < l.length
  · left
    simp only [Nat.mod_eq_of_lt last]
    refine ⟨increasing i (i + 1) inside last (Nat.lt_succ_self i), ?_⟩
    intro item member
    obtain ⟨j, within, rfl⟩ := List.mem_iff_getElem.mp member
    rcases Nat.lt_or_ge i j with after | before
    · exact .inr (ordered (i + 1) j last within after)
    · exact .inl (ordered j i within inside before)
  · right
    have count : i + 1 = l.length := by omega
    simp only [count, Nat.mod_self]
    intro item member
    obtain ⟨j, within, rfl⟩ := List.mem_iff_getElem.mp member
    exact ⟨ordered 0 j (by omega) within (Nat.zero_le j), ordered j i within inside (by omega)⟩

/-- What is not in the ring, but above some element, is covered by one link. -/
theorem existsUnique_ring {l : List α} (sorted : l.Pairwise (· < ·)) (absent : item ∉ l) {least : α}
    (member : least ∈ l) (bound : least ≤ item) : ∃! link, link ∈ ring l ∧ Covers link.1 link.2 item := by
  have below : least < item := lt_of_le_of_ne bound fun same => absent (same ▸ member)
  obtain ⟨low, held, greatest⟩ := Finset.exists_max_image (l.toFinset.filter (· < item)) id
    ⟨least, Finset.mem_filter.mpr ⟨List.mem_toFinset.mpr member, below⟩⟩
  obtain ⟨inside, start⟩ := Finset.mem_filter.mp held
  obtain ⟨i, within, same⟩ := List.mem_iff_getElem.mp (List.mem_toFinset.mp inside)
  have there : (low, l.get ⟨(i + 1) % l.length, Nat.mod_lt _ (Nat.zero_lt_of_lt within)⟩) ∈ ring l :=
    mem_ring.mpr ⟨i, within, same.symm, rfl⟩
  have link := ring_link sorted there
  refine ⟨_, ⟨there, link.covers_of_greatest absent start fun other present before => greatest other
    (Finset.mem_filter.mpr ⟨List.mem_toFinset.mpr present, before⟩)⟩, ?_⟩
  rintro ⟨low', high'⟩ ⟨present, gap⟩
  have second := ring_link sorted present
  have before := second.low_lt_of_covers gap member bound
  have lows : low' = low := le_antisymm
    (greatest low' (Finset.mem_filter.mpr ⟨List.mem_toFinset.mpr second.low_mem, before⟩))
    (second.le_low_of_lt gap link.low_mem start)
  subst lows
  exact Prod.ext rfl (second.high_unique link)

end CyclicChain
