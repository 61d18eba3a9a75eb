import Mathlib
import Trench.Filter.Shared

set_option autoImplicit false

/- The shared table as a map from domains to sources. -/

namespace Trench.Filter

open Probing Wire

/-- The octets of the domains of a list of items. -/
def octets (items : List (Text × Text)) : Nat :=
  (items.map fun item => (encode item.1).length).sum

theorem octets_append (first second : List (Text × Text)) :
    octets (first ++ second) = octets first + octets second := by
  unfold octets
  rw [List.map_append, List.sum_append]

theorem octets_singleton (item : Text × Text) : octets [item] = (encode item.1).length := by
  unfold octets
  simp only [List.map_cons, List.map_nil, List.sum_cons, List.sum_nil, Nat.add_zero]

/-- The items kept so far with one more: a domain of 1 to 255 octets is kept when it
is new and its source has an identifier. -/
def keep (kept : List (Text × Text)) (item : Text × Text) : List (Text × Text) :=
  if (encode item.1).length = 0 ∨ maxLen < (encode item.1).length then kept
  else if item.1 ∈ kept.map Prod.fst then kept
  else if item.2 ∈ kept.map Prod.snd ∨ (kept.map Prod.snd).toFinset.card < maxSources then
    kept ++ [item]
  else kept

/-- The items that have an entry of their own in the table. -/
def stored (items : List (Text × Text)) : List (Text × Text) := items.foldl keep []

/-- The entry of a word: empty, or the octets it points at and its source. -/
def slotEntry (blob : List UInt8) (word : Nat) : Option (List UInt8 × Nat) :=
  if word = 0 then none else some (slotKey blob word, slotSource word)

theorem slotEntry_eq_none {blob : List UInt8} {word : Nat} :
    slotEntry blob word = none ↔ word = 0 := by
  unfold slotEntry
  split <;> simp_all

/-- Slots and blob read as a table of keys and source identifiers. -/
def cells (slots : List Nat) (blob : List UInt8) : List (Option (List UInt8 × Nat)) :=
  slots.map (slotEntry blob)

theorem length_cells (slots : List Nat) (blob : List UInt8) :
    (cells slots blob).length = slots.length := List.length_map _

/-- The slot at which the probe for an octet string starts. -/
def home (mask : Nat) (raw : List UInt8) : Nat := crc32 raw &&& mask

theorem home_lt {mask : Nat} (raw : List UInt8) : home mask raw < mask + 1 := by
  unfold home
  apply Nat.lt_succ_of_le
  exact Nat.and_le_right

theorem probe_eq (slots : List Nat) (blob : List UInt8) (mask : Nat) (raw : List UInt8) :
    probe slots blob mask raw =
      seek (stops raw) (cells slots blob) mask slots.length (home mask raw) := by
  unfold probe cells home
  rw [seek_map]
  congr 1
  funext word
  unfold slotEntry
  by_cases empty : word = 0
  · rw [if_pos empty, empty]
    rfl
  · rw [if_neg empty, beq_eq_false_iff_ne.mpr empty, Bool.false_or, Bool.eq_iff_iff, beq_iff_eq,
      stops_some]

/-- A slot reads as an empty cell exactly when its word is zero. -/
theorem cell_eq_none {slots : List Nat} {blob : List UInt8} {i : Nat} (inside : i < slots.length) :
    (cells slots blob)[i]? = some none ↔ slots.getD i 0 = 0 := by
  unfold cells
  rw [List.getElem?_map, List.getElem?_eq_getElem inside, List.getD_eq_getElem _ _ inside,
    Option.map_some, Option.some.injEq]
  exact slotEntry_eq_none

/-- Two slices agree where the blobs agree on the octets before `write`. -/
theorem slotKey_of_take {blob blob' : List UInt8} {write word : Nat}
    (same : blob.take write = blob'.take write)
    (inside : slotOffset word + slotLength word ≤ write) : slotKey blob word = slotKey blob' word := by
  unfold slotKey slice
  have cut : ∀ octets : List UInt8, (octets.drop (slotOffset word)).take (slotLength word) =
      ((octets.take write).drop (slotOffset word)).take (slotLength word) := by
    intro octets
    rw [List.drop_take, List.take_take, Nat.min_eq_left (by omega)]
  rw [cut blob, cut blob', same]

/-- What the slots, the blob and the sources of a table say, for the items kept. -/
structure Tallies (slots : List Nat) (blob : List UInt8) (sources : List Text)
    (kept : List (Text × Text)) : Prop where
  size : ∃ p, slots.length = 2 ^ p
  linked : Linked (home (slots.length - 1)) (cells slots blob)
  occupied : occupied (cells slots blob) = kept.length
  within : ∀ word ∈ slots, word ≠ 0 → slotOffset word + slotLength word ≤ octets kept
  holds : ∀ raw sid, Holds (cells slots blob) raw sid ↔
    ∃ item ∈ kept, encode item.1 = raw ∧ sources[sid]? = some item.2
  nodup : sources.Nodup
  named : ∀ source, source ∈ sources ↔ source ∈ kept.map Prod.snd
  few : sources.length ≤ maxSources
  distinct : (kept.map Prod.fst).Nodup

/-- A source that gets an identifier is at its place in the list, which grows at the
end only. -/
theorem sourceId_spec {sources : List Text} (nodup : sources.Nodup)
    (few : sources.length ≤ maxSources) (source : Text) :
    (Building.sourceId sources source = none ∧ source ∉ sources ∧ sources.length = maxSources) ∨
      ∃ sid sources', Building.sourceId sources source = some (sid, sources') ∧
        (source ∈ sources ∨ sources.length < maxSources) ∧ sources'[sid]? = some source ∧
        sources <+: sources' ∧ sources'.Nodup ∧ sources'.length ≤ maxSources ∧
        ∀ other, other ∈ sources' ↔ other ∈ sources ∨ other = source := by
  unfold Building.sourceId
  cases place : sources.idxOf? source with
  | some sid =>
    right
    obtain ⟨inside, here, -⟩ := List.idxOf?_eq_some_iff.mp place
    have known : source ∈ sources := by
      rw [← here]
      exact List.getElem_mem inside
    refine ⟨sid, sources, rfl, .inl known, ?_, List.prefix_rfl, nodup, few, ?_⟩
    · rw [List.getElem?_eq_getElem inside, here]
    · intro other
      constructor
      · exact .inl
      · intro either
        rcases either with listed | rfl
        · exact listed
        · exact known
  | none =>
    have fresh : source ∉ sources := List.idxOf?_eq_none_iff.mp place
    by_cases full : maxSources ≤ sources.length
    · left
      exact ⟨if_pos full, fresh, Nat.le_antisymm few full⟩
    · right
      refine ⟨sources.length, sources ++ [source], if_neg full, .inr (by omega), ?_,
        List.prefix_append _ _, ?_, ?_, ?_⟩
      · rw [List.getElem?_append_right (Nat.le_refl _), Nat.sub_self]
        rfl
      · rw [List.nodup_append_comm]
        exact List.nodup_cons.mpr ⟨fresh, nodup⟩
      · rw [List.length_append]
        show sources.length + 1 ≤ maxSources
        omega
      · intro other
        rw [List.mem_append, List.mem_singleton]

namespace Tallies

variable {slots : List Nat} {blob : List UInt8} {sources : List Text}
  {kept : List (Text × Text)}

theorem card_sources (tallies : Tallies slots blob sources kept) :
    (kept.map Prod.snd).toFinset.card = sources.length := by
  rw [← List.toFinset_card_of_nodup tallies.nodup]
  congr 1
  ext source
  rw [List.mem_toFinset, List.mem_toFinset, tallies.named]

/-- The probe for a domain ends at its slot when it is kept, at an empty slot when not. -/
theorem probe_spec (tallies : Tallies slots blob sources kept) (room : kept.length < slots.length)
    (domain : Text) :
    ∃ i < slots.length, probe slots blob (slots.length - 1) (encode domain) = some i ∧
      ((∃ source sid, (domain, source) ∈ kept ∧ slots.getD i 0 ≠ 0 ∧
          slotSource (slots.getD i 0) = sid ∧ sources[sid]? = some source) ∨
        (slots.getD i 0 = 0 ∧ domain ∉ kept.map Prod.fst)) := by
  obtain ⟨p, size⟩ := tallies.size
  have spare : Probing.occupied (cells slots blob) < (cells slots blob).length := by
    rw [tallies.occupied, length_cells]
    exact room
  have inside : home (slots.length - 1) (encode domain) < (cells slots blob).length := by
    rw [length_cells]
    have bound : home (slots.length - 1) (encode domain) < slots.length - 1 + 1 := home_lt _
    omega
  obtain ⟨i, found, outcome⟩ := seek_linked (k := encode domain)
    (by rw [length_cells]; exact size) tallies.linked (room_of_occupied spare) inside
  rw [length_cells] at found
  rw [← probe_eq] at found
  have filed : ∀ sid, Holds (cells slots blob) (encode domain) sid ↔
      ∃ source, (domain, source) ∈ kept ∧ sources[sid]? = some source := by
    intro sid
    rw [tallies.holds]
    constructor
    · intro held
      obtain ⟨item, kept', same, source⟩ := held
      rw [← encode_injective same]
      exact ⟨item.2, kept', source⟩
    · intro held
      obtain ⟨source, kept', known⟩ := held
      exact ⟨_, kept', rfl, known⟩
  rcases outcome with ⟨sid, cell, -⟩ | ⟨cell, absent⟩
  · have bound : i < slots.length := by
      rw [← length_cells slots blob]
      exact (List.getElem?_eq_some_iff.mp cell).1
    obtain ⟨source, kept', known⟩ := (filed sid).mp ⟨i, cell⟩
    refine ⟨i, bound, found, .inl ⟨source, sid, kept', ?_, ?_, known⟩⟩
    · intro empty
      have blank : (cells slots blob)[i]? = some none := (cell_eq_none bound).mpr empty
      rw [blank] at cell
      cases cell
    · unfold cells slotEntry at cell
      rw [List.getElem?_map, List.getElem?_eq_getElem bound, Option.map_some] at cell
      rw [List.getD_eq_getElem _ _ bound]
      split at cell
      · cases cell
      · simp only [Option.some.injEq, Prod.mk.injEq] at cell
        exact cell.2
  · have bound : i < slots.length := by
      rw [← length_cells slots blob]
      exact (List.getElem?_eq_some_iff.mp cell).1
    refine ⟨i, bound, found, .inr ⟨(cell_eq_none bound).mp cell, ?_⟩⟩
    intro listed
    obtain ⟨item, kept', same⟩ := List.mem_map.mp listed
    -- a kept item has a cell, because its source has an identifier
    obtain ⟨sid, known⟩ := List.mem_iff_getElem?.mp
      ((tallies.named item.2).mpr (List.mem_map_of_mem kept'))
    apply absent sid
    rw [filed]
    rw [← same]
    exact ⟨item.2, kept', known⟩

theorem getElem?_grown {sources sources' : List Text} (grown : sources <+: sources')
    {sid : Nat} {source : Text} (here : sources[sid]? = some source) :
    sources'[sid]? = some source := by
  obtain ⟨rest, rfl⟩ := grown
  rw [List.getElem?_append_left (List.getElem?_eq_some_iff.mp here).1]
  exact here

/-- Growing the list of sources at its end keeps the identifiers of those in it. -/
theorem getElem?_of_prefix {sources sources' : List Text} (grown : sources <+: sources')
    (nodup : sources'.Nodup) {source : Text} (known : source ∈ sources) (sid : Nat) :
    sources'[sid]? = some source ↔ sources[sid]? = some source := by
  obtain ⟨place, here⟩ := List.mem_iff_getElem?.mp known
  have there : sources'[place]? = some source := getElem?_grown grown here
  constructor
  · intro found
    have same : place = sid := by
      apply (List.getElem?_inj (List.getElem?_eq_some_iff.mp there).1 nodup).mp
      rw [there, found]
    rw [← same]
    exact here
  · intro found
    exact getElem?_grown grown found

theorem octets_take (blob raw : List UInt8) {write : Nat} (fits : write + raw.length ≤ blob.length) :
    (blob.take write ++ raw ++ blob.drop (write + raw.length)).take write = blob.take write := by
  rw [List.append_assoc, List.take_append_of_le_length]
  · rw [List.take_take, Nat.min_self]
  · rw [List.length_take]
    omega

/-- The slice that a slice assignment has just filled. -/
theorem slotKey_written (blob raw : List UInt8) {write sid : Nat} (short : raw.length ≤ maxLen)
    (known : sid < 2 ^ 16) (fits : write + raw.length ≤ blob.length) :
    slotKey (blob.take write ++ raw ++ blob.drop (write + raw.length))
      (packSlot write raw.length sid) = raw := by
  have cut : (blob.take write).length = write := by
    rw [List.length_take]
    omega
  unfold slotKey slice
  rw [slotOffset_packSlot short known, slotLength_packSlot short known, List.append_assoc,
    List.drop_append_of_le_length (by omega), List.drop_of_length_le (by omega), List.nil_append,
    List.take_append_of_le_length (Nat.le_refl _), List.take_length]

/-- A new domain filed at the empty slot its probe found. -/
theorem file {slots : List Nat} {blob : List UInt8} {sources sources' : List Text}
    {kept : List (Text × Text)} (tallies : Tallies slots blob sources kept)
    {item : Text × Text} {i sid : Nat} (room : kept.length < slots.length)
    (found : probe slots blob (slots.length - 1) (encode item.1) = some i)
    (empty : slots.getD i 0 = 0) (inside : i < slots.length)
    (some_octet : (encode item.1).length ≠ 0) (short : (encode item.1).length ≤ maxLen)
    (fresh : item.1 ∉ kept.map Prod.fst)
    (fits : octets kept + (encode item.1).length ≤ blob.length)
    (grown : sources <+: sources') (nodup : sources'.Nodup) (few : sources'.length ≤ maxSources)
    (named : ∀ other, other ∈ sources' ↔ other ∈ sources ∨ other = item.2)
    (here : sources'[sid]? = some item.2) :
    Tallies (slots.set i (packSlot (octets kept) (encode item.1).length sid))
      (blob.take (octets kept) ++ encode item.1 ++ blob.drop (octets kept + (encode item.1).length))
      sources' (kept ++ [item]) := by
  have known : sid < 2 ^ 16 := by
    have bound := (List.getElem?_eq_some_iff.mp here).1
    unfold maxSources at few
    omega
  have grows : octets (kept ++ [item]) = octets kept + (encode item.1).length := by
    rw [octets_append, octets_singleton]
  have entries : cells (slots.set i (packSlot (octets kept) (encode item.1).length sid))
      (blob.take (octets kept) ++ encode item.1 ++
        blob.drop (octets kept + (encode item.1).length)) =
        (cells slots blob).set i (some (encode item.1, sid)) := by
    unfold cells
    rw [List.map_set]
    congr 1
    · apply List.map_congr_left
      intro word held
      unfold slotEntry
      split
      · rfl
      · next used =>
          rw [slotKey_of_take (octets_take blob (encode item.1) fits)
            (tallies.within word held used)]
    · unfold slotEntry
      rw [if_neg (packSlot_ne_zero short known some_octet),
        slotKey_written blob (encode item.1) short known fits, slotSource_packSlot short known]
  have blank : (cells slots blob)[i]? = some none := (cell_eq_none inside).mpr empty
  rw [probe_eq, ← length_cells slots blob] at found
  obtain ⟨p, size⟩ := tallies.size
  have sized : (cells slots blob).length = 2 ^ p := by
    rw [length_cells]
    exact size
  have spare : ∃ j : Nat, (cells slots blob)[j]? = some none := ⟨i, blank⟩
  have start : home ((cells slots blob).length - 1) (encode item.1) < (cells slots blob).length := by
    have bound : home ((cells slots blob).length - 1) (encode item.1) <
        (cells slots blob).length - 1 + 1 := home_lt _
    rw [length_cells] at bound ⊢
    omega
  constructor
  · exact ⟨p, by rw [List.length_set]; exact size⟩
  · rw [List.length_set, entries, ← length_cells slots blob]
    apply Linked.set sized _ spare start found blank
    rw [length_cells]
    exact tallies.linked
  · rw [entries, occupied_set blank, tallies.occupied, List.length_append]
    rfl
  · intro word held used
    rw [grows]
    rcases List.mem_or_eq_of_mem_set held with old | rfl
    · have before := tallies.within word old used
      omega
    · rw [slotOffset_packSlot short known, slotLength_packSlot short known]
  · intro raw sid'
    rw [entries, holds_set blank, tallies.holds]
    constructor
    · intro either
      rcases either with ⟨old, held, same, source⟩ | ⟨rfl, rfl⟩
      · exact ⟨old, List.mem_append_left _ held, same, getElem?_grown grown source⟩
      · exact ⟨item, List.mem_append_right _ (List.mem_singleton_self item), rfl, here⟩
    · intro listed
      obtain ⟨old, held, same, source⟩ := listed
      rcases List.mem_append.mp held with before | last
      · left
        refine ⟨old, before, same, ?_⟩
        rwa [← getElem?_of_prefix grown nodup
          ((tallies.named old.2).mpr (List.mem_map_of_mem before))]
      · right
        rw [List.mem_singleton] at last
        subst last
        refine ⟨same.symm, ?_⟩
        apply (List.getElem?_inj (List.getElem?_eq_some_iff.mp source).1 nodup).mp
        rw [source, here]
  · exact nodup
  · intro source
    rw [named, tallies.named, List.map_append, List.mem_append]
    show _ ↔ _ ∨ source ∈ [item.2]
    rw [List.mem_singleton]
  · exact few
  · rw [List.map_append]
    apply List.nodup_append.mpr
    refine ⟨tallies.distinct, List.nodup_singleton _, ?_⟩
    intro domain held last same clash
    rw [List.map_singleton, List.mem_singleton] at same
    apply fresh
    rw [← same, ← clash]
    exact held

end Tallies

/-- The items kept fit the blob, and each of their offsets fits its word. -/
structure Fitting (capacity : Nat) (kept : List (Text × Text)) : Prop where
  capacity : octets kept ≤ capacity
  offsets : ∀ k < kept.length, octets (kept.take k) < 2 ^ 40

theorem Fitting.of_prefix {capacity : Nat} {kept final : List (Text × Text)}
    (fitting : Fitting capacity final) (grown : kept <+: final) : Fitting capacity kept := by
  obtain ⟨rest, rfl⟩ := grown
  have capacity := fitting.capacity
  rw [octets_append] at capacity
  constructor
  · omega
  · intro k early
    have low := fitting.offsets k (by rw [List.length_append]; omega)
    rwa [List.take_append_of_le_length (by omega)] at low

theorem fitting_snoc {capacity : Nat} {kept : List (Text × Text)} {item : Text × Text}
    (fitting : Fitting capacity kept) :
    Fitting capacity (kept ++ [item]) ↔
      octets kept + (encode item.1).length ≤ capacity ∧ octets kept < 2 ^ 40 := by
  constructor
  · intro grown
    have total := grown.capacity
    have last := grown.offsets kept.length (by rw [List.length_append]; exact Nat.lt_succ_self _)
    rw [octets_append, octets_singleton] at total
    rw [List.take_left] at last
    exact ⟨total, last⟩
  · intro bounds
    obtain ⟨total, last⟩ := bounds
    constructor
    · rw [octets_append, octets_singleton]
      exact total
    · intro k early
      rw [List.length_append] at early
      by_cases inner : k < kept.length
      · rw [List.take_append_of_le_length (by omega)]
        exact fitting.offsets k inner
      · have final : k = kept.length := by
          have one : [item].length = 1 := rfl
          omega
        rw [final, List.take_left]
        exact last

theorem keep_cases (kept : List (Text × Text)) (item : Text × Text) :
    keep kept item = kept ∨ keep kept item = kept ++ [item] := by
  unfold keep
  split_ifs
  · exact .inl rfl
  · exact .inl rfl
  · exact .inr rfl
  · exact .inl rfl

theorem prefix_foldl_keep (items : List (Text × Text)) :
    ∀ kept, kept <+: items.foldl keep kept := by
  induction items with
  | nil =>
    intro kept
    exact List.prefix_rfl
  | cons item rest ih =>
    intro kept
    apply List.IsPrefix.trans _ (ih (keep kept item))
    rcases keep_cases kept item with same | grown
    · rw [same]
    · rw [grown]
      exact List.prefix_append _ _

/-- The loop of `build`, for the items kept so far. -/
structure Building.Invariant (nslots capacity : Nat) (b : Building)
    (kept : List (Text × Text)) : Prop where
  tallies : Tallies b.slots b.blob b.sources kept
  slots : b.slots.length = nslots
  blob : b.blob.length = capacity
  write : b.write = octets kept
  n : b.n = kept.length
  fitting : Fitting capacity kept

namespace Building

variable {nslots capacity : Nat} {b : Building} {kept : List (Text × Text)}

/-- A turn of the loop keeps what `keep` does; it fails exactly when what it would
keep does not fit. -/
theorem add_spec (invariant : Invariant nslots capacity b kept) (room : kept.length < nslots)
    (item : Text × Text) :
    (∃ b', add (nslots - 1) b item = .ok b' ∧ Invariant nslots capacity b' (keep kept item)) ∨
      (∃ fault, add (nslots - 1) b item = .error fault) ∧ ¬ Fitting capacity (keep kept item) := by
  obtain ⟨tallies, slots, blob, write, n, fitting⟩ := invariant
  subst slots blob
  unfold add keep
  by_cases unfit : (encode item.1).length = 0 ∨ maxLen < (encode item.1).length
  · left
    rw [if_pos unfit, if_pos unfit]
    exact ⟨b, rfl, tallies, rfl, rfl, write, n, fitting⟩
  · rw [if_neg unfit, if_neg unfit]
    obtain ⟨i, inside, found, outcome⟩ := tallies.probe_spec room item.1
    rw [found]
    rcases outcome with ⟨source, sid, held, used, -⟩ | ⟨empty, fresh⟩
    · left
      have listed : item.1 ∈ kept.map Prod.fst := List.mem_map.mpr ⟨_, held, rfl⟩
      simp only [ne_eq, used, not_false_eq_true, ↓reduceIte, listed]
      exact ⟨b, rfl, tallies, rfl, rfl, write, n, fitting⟩
    · simp only [ne_eq, empty, not_true_eq_false, ↓reduceIte, fresh]
      rw [tallies.card_sources]
      simp only [← tallies.named]
      unfold file
      rcases sourceId_spec tallies.nodup tallies.few item.2 with
        ⟨none, unknown, full⟩ | ⟨sid, sources', given, spare, here, grown, nodup, few, named⟩
      · left
        rw [none, if_neg (by simp only [unknown, full, Nat.lt_irrefl, or_self, not_false_eq_true])]
        exact ⟨b, rfl, tallies, rfl, rfl, write, n, fitting⟩
      · rw [given, if_pos spare, fitting_snoc fitting]
        have known : sid < 2 ^ 16 := by
          have bound := (List.getElem?_eq_some_iff.mp here).1
          unfold maxSources at few
          omega
        unfold writeBlob writeSlot
        rw [write]
        by_cases long : b.blob.length < octets kept + (encode item.1).length
        · right
          refine ⟨⟨.blobAssignment, ?_⟩, ?_⟩
          · simp only [long, ↓reduceIte]
            rfl
          · omega
        · by_cases far : 2 ^ 64 ≤ packSlot (octets kept) (encode item.1).length sid
          · right
            refine ⟨⟨.slotRange, ?_⟩, ?_⟩
            · simp only [long, far, ↓reduceIte]
              rfl
            · rw [packSlot_range (by omega) known] at far
              omega
          · left
            have near := (packSlot_range (by omega) known).not.mp far
            have filed := tallies.file room found empty inside (by omega) (by omega) fresh
              (by omega) grown nodup few named here
            simp only [long, far, ↓reduceIte]
            refine ⟨_, rfl, filed, ?_, ?_, ?_, ?_, ?_⟩
            · exact List.length_set
            · simp only [List.length_append, List.length_take, List.length_drop]
              omega
            · rw [octets_append, octets_singleton]
            · simp only [List.length_append, List.length_cons, List.length_nil, n]
            · rw [fitting_snoc fitting]
              omega

/-- The whole loop: it ends with the items stored, or fails because they do not fit. -/
theorem foldlM_add (items : List (Text × Text)) :
    ∀ (b : Building) (kept : List (Text × Text)), Invariant nslots capacity b kept →
      kept.length + items.length < nslots →
      (∃ b', items.foldlM (add (nslots - 1)) b = .ok b' ∧
        Invariant nslots capacity b' (items.foldl keep kept)) ∨
      (∃ fault, items.foldlM (add (nslots - 1)) b = .error fault) ∧
        ¬ Fitting capacity (items.foldl keep kept) := by
  induction items with
  | nil =>
    intro b kept invariant _
    exact .inl ⟨b, rfl, invariant⟩
  | cons item rest ih =>
    intro b kept invariant room
    rw [List.length_cons] at room
    rw [List.foldlM_cons, List.foldl_cons]
    rcases add_spec invariant (by omega) item with ⟨b', added, invariant'⟩ | ⟨⟨fault, failed⟩, unfit⟩
    · rw [added]
      apply ih b' (keep kept item) invariant'
      rcases keep_cases kept item with same | grown
      · rw [same]
        omega
      · rw [grown, List.length_append, List.length_singleton]
        omega
    · right
      rw [failed]
      refine ⟨⟨fault, rfl⟩, ?_⟩
      intro fitting
      exact unfit (fitting.of_prefix (prefix_foldl_keep rest _))

/-- The empty table that the loop starts from. -/
theorem invariant_start (items : List (Text × Text)) :
    Invariant (slotCount items) (blobCapacity items) (start items) [] := by
  have blank : cells (start items).slots (start items).blob =
      List.replicate (slotCount items) none := by
    unfold cells start
    rw [List.map_replicate]
    rfl
  have bare : ∀ (i : Nat) e, (List.replicate (slotCount items) (none : Option (List UInt8 × Nat)))[i]? ≠
      some (some e) := by
    intro i e here
    rw [List.getElem?_replicate] at here
    split at here <;> cases here
  refine ⟨?_, List.length_replicate, List.length_replicate, rfl, rfl, ?_⟩
  · constructor
    · obtain ⟨p, size⟩ := slotCount_pow items
      exact ⟨p, by rw [← size]; exact List.length_replicate⟩
    · rw [blank]
      intro i raw sid here
      exact absurd here (bare i _)
    · rw [blank]
      unfold occupied
      rw [List.countP_replicate]
      rfl
    · intro word held used
      exact absurd (List.eq_of_mem_replicate held) used
    · intro raw sid
      rw [blank]
      constructor
      · intro held
        obtain ⟨i, here⟩ := held
        exact absurd here (bare i _)
      · intro held
        obtain ⟨item, none, -⟩ := held
        cases none
    · exact List.nodup_nil
    · intro source
      rfl
    · exact Nat.zero_le _
    · exact List.nodup_nil
  · constructor
    · exact Nat.zero_le _
    · intro k early
      cases early

end Building

/-- The source of the first item of a domain. -/
def lookup (items : List (Text × Text)) (domain : Text) : Option Text :=
  (items.find? fun item => item.1 == domain).map Prod.snd

theorem lookup_eq_none {items : List (Text × Text)} {domain : Text} :
    lookup items domain = none ↔ domain ∉ items.map Prod.fst := by
  unfold lookup
  rw [Option.map_eq_none_iff, List.find?_eq_none, List.mem_map]
  constructor
  · intro other listed
    obtain ⟨item, held, same⟩ := listed
    apply other item held
    rw [beq_iff_eq]
    exact same
  · intro absent item held same
    exact absent ⟨item, held, beq_iff_eq.mp same⟩

theorem lookup_of_distinct {items : List (Text × Text)} (distinct : (items.map Prod.fst).Nodup)
    {domain source : Text} (held : (domain, source) ∈ items) :
    lookup items domain = some source := by
  induction items with
  | nil => cases held
  | cons item rest ih =>
    obtain ⟨fresh, distinct⟩ := List.nodup_cons.mp distinct
    unfold lookup
    rcases List.mem_cons.mp held with rfl | later
    · rw [List.find?_cons, beq_self_eq_true]
      rfl
    · have other : item.1 ≠ domain := by
        intro same
        apply fresh
        rw [same]
        exact List.mem_map.mpr ⟨_, later, rfl⟩
      rw [List.find?_cons, beq_eq_false_iff_ne.mpr other]
      exact ih distinct later

/-- A domain of 1 to 255 octets is stored with the source of its first item, when the
sources are no more than the identifiers. -/
theorem lookup_foldl_keep {domain : Text} (some_octet : (encode domain).length ≠ 0)
    (short : (encode domain).length ≤ maxLen) (items : List (Text × Text)) :
    ∀ kept, ((kept ++ items).map Prod.snd).toFinset.card ≤ maxSources →
      lookup (items.foldl keep kept) domain = lookup (kept ++ items) domain := by
  induction items with
  | nil =>
    intro kept _
    rw [List.append_nil]
    rfl
  | cons item rest ih =>
    intro kept few
    have split : kept ++ item :: rest = kept ++ [item] ++ rest := by
      rw [List.append_assoc]
      rfl
    rw [List.foldl_cons]
    rcases keep_cases kept item with same | grown
    · have fewer : ((kept ++ rest).map Prod.snd).toFinset.card ≤ maxSources := by
        apply Nat.le_trans _ few
        apply Finset.card_le_card
        intro source
        simp only [List.map_append, List.map_cons, List.toFinset_append, List.toFinset_cons,
          Finset.mem_union, Finset.mem_insert]
        intro either
        rcases either with old | new
        · exact .inl old
        · exact .inr (.inr new)
      rw [same, ih kept fewer]
      unfold lookup
      rw [List.find?_append, List.find?_append, List.find?_cons]
      split
      · next hit =>
          -- an item that is not kept repeats a domain that is
          have listed : item.1 ∈ kept.map Prod.fst := by
            by_contra fresh
            have room : item.2 ∈ kept.map Prod.snd ∨
                (kept.map Prod.snd).toFinset.card < maxSources := by
              by_contra full
              push Not at full
              have more : (kept.map Prod.snd).toFinset.card + 1 ≤
                  ((kept ++ item :: rest).map Prod.snd).toFinset.card := by
                rw [← Finset.card_insert_of_notMem (show item.2 ∉ _ by
                  rw [List.mem_toFinset]
                  exact full.1)]
                apply Finset.card_le_card
                intro source
                simp only [List.map_append, List.map_cons, List.toFinset_append,
                  List.toFinset_cons, Finset.mem_union, Finset.mem_insert]
                intro either
                rcases either with new | old
                · exact .inr (.inl new)
                · exact .inl old
              omega
            have named : item.1 = domain := beq_iff_eq.mp hit
            unfold keep at same
            rw [named, if_neg (by omega), if_neg (by rw [← named]; exact fresh),
              if_pos room] at same
            have longer := congrArg List.length same
            rw [List.length_append] at longer
            exact Nat.succ_ne_self _ longer
          rw [beq_iff_eq.mp hit] at listed
          have held : lookup kept domain ≠ none := by
            intro none
            exact lookup_eq_none.mp none listed
          unfold lookup at held
          cases seen : kept.find? fun item => item.1 == domain with
          | none => exact absurd (by rw [seen]; rfl) held
          | some first => rfl
      · rfl
    · rw [grown, split]
      apply ih
      rw [← split]
      exact few

namespace SharedBlockTable

/-- The items that a table answers for, less those removed. -/
structure Backs (t : SharedBlockTable) (kept : List (Text × Text)) : Prop where
  slots : ∃ slots, t.slots = some slots ∧ t.mask = slots.length - 1 ∧ kept.length < slots.length ∧
    Tallies slots t.blob t.sources kept
  n : t.n = kept.length
  removed : t.removed ⊆ (kept.map Prod.fst).toFinset

variable {t : SharedBlockTable} {kept : List (Text × Text)}

theorem get_eq (backs : t.Backs kept) (domain : Text) :
    t.get domain = .ok (if domain ∈ t.removed then none else lookup kept domain) := by
  unfold get
  by_cases bare : t.n = 0
  · have none : kept = [] := by
      rw [backs.n] at bare
      exact List.length_eq_zero_iff.mp bare
    rw [if_pos bare, none]
    split <;> rfl
  · obtain ⟨slots, here, mask, room, tallies⟩ := backs.slots
    rw [if_neg bare, here, mask]
    obtain ⟨i, -, found, outcome⟩ := tallies.probe_spec room domain
    simp only [found]
    rcases outcome with ⟨source, sid, held, used, identified, known⟩ | ⟨empty, absent⟩
    · rw [if_neg used, lookup_of_distinct tallies.distinct held, identified, known]
      split <;> rfl
    · rw [if_pos empty, lookup_eq_none.mpr absent]
      split <;> rfl

/-- `domain in table`. -/
def holds (t : SharedBlockTable) (domain : Text) : Bool :=
  match t.get domain with
  | .ok found => found.isSome
  | .error _ => false

/-- The domains that a table still holds, of those listed. -/
def present (t : SharedBlockTable) (items : List (Text × Text)) : Finset Text :=
  (items.map Prod.fst).toFinset.filter fun domain => t.holds domain = true

theorem holds_iff (backs : t.Backs kept) (domain : Text) :
    t.holds domain = true ↔ domain ∈ kept.map Prod.fst ∧ domain ∉ t.removed := by
  unfold holds
  rw [get_eq backs]
  by_cases gone : domain ∈ t.removed
  · simp only [gone, ↓reduceIte, Option.isSome_none, Bool.false_eq_true, not_true_eq_false,
      and_false]
  · simp only [gone, ↓reduceIte, not_false_eq_true, and_true]
    rw [Option.isSome_iff_ne_none, ne_eq, lookup_eq_none, not_not]

theorem discard_spec (backs : t.Backs kept) (domain : Text) :
    ∃ t', t.discard domain = .ok t' ∧ t'.Backs kept ∧
      ∀ other, other ∈ t'.removed ↔
        other ∈ t.removed ∨ (other = domain ∧ domain ∈ kept.map Prod.fst) := by
  have held := holds_iff backs domain
  unfold holds at held
  unfold discard
  rw [get_eq backs] at held ⊢
  by_cases here : domain ∈ kept.map Prod.fst ∧ domain ∉ t.removed
  · refine ⟨{ t with removed := insert domain t.removed }, ?_, ⟨backs.slots, backs.n, ?_⟩, ?_⟩
    · show Except.ok (if _ = true then _ else _) = _
      rw [if_pos (held.mpr here)]
    · apply Finset.insert_subset _ backs.removed
      rw [List.mem_toFinset]
      exact here.1
    · intro other
      rw [Finset.mem_insert]
      constructor
      · intro either
        rcases either with same | old
        · exact .inr ⟨same, here.1⟩
        · exact .inl old
      · intro either
        rcases either with old | same
        · exact .inr old
        · exact .inl same.1
  · refine ⟨t, ?_, backs, ?_⟩
    · show Except.ok (if _ = true then _ else _) = _
      rw [if_neg (held.not.mpr here)]
    · intro other
      constructor
      · exact .inl
      · intro either
        rcases either with old | ⟨rfl, listed⟩
        · exact old
        · by_contra fresh
          exact here ⟨listed, fresh⟩

theorem discards_spec (domains : List Text) :
    ∀ t : SharedBlockTable, t.Backs kept →
      ∃ t', domains.foldlM discard t = .ok t' ∧ t'.Backs kept ∧
        ∀ other, other ∈ t'.removed ↔
          other ∈ t.removed ∨ (other ∈ domains ∧ other ∈ kept.map Prod.fst) := by
  induction domains with
  | nil =>
    intro t backs
    refine ⟨t, rfl, backs, ?_⟩
    intro other
    simp only [List.not_mem_nil, false_and, or_false]
  | cons domain rest ih =>
    intro t backs
    obtain ⟨t₁, first, backs₁, removed₁⟩ := discard_spec backs domain
    obtain ⟨t₂, later, backs₂, removed₂⟩ := ih t₁ backs₁
    refine ⟨t₂, ?_, backs₂, ?_⟩
    · rw [List.foldlM_cons, first]
      exact later
    · intro other
      rw [removed₂, removed₁, List.mem_cons]
      constructor
      · intro either
        rcases either with (old | ⟨rfl, listed⟩) | ⟨listed, held⟩
        · exact .inl old
        · exact .inr ⟨.inl rfl, listed⟩
        · exact .inr ⟨.inr listed, held⟩
      · intro either
        rcases either with old | ⟨rfl | listed, held⟩
        · exact .inl (.inl old)
        · exact .inl (.inr ⟨rfl, held⟩)
        · exact .inr ⟨listed, held⟩

theorem stored_subset (items : List (Text × Text)) : stored items ⊆ items := by
  suffices subset : ∀ kept, items.foldl keep kept ⊆ kept ++ items from subset []
  induction items with
  | nil =>
    intro kept
    rw [List.append_nil]
    exact List.Subset.refl kept
  | cons item rest ih =>
    intro kept held listed
    rw [List.foldl_cons] at listed
    have earlier := ih (keep kept item) listed
    rw [List.mem_append, List.mem_cons]
    rcases List.mem_append.mp earlier with old | later
    · rcases keep_cases kept item with same | grown
      · rw [same] at old
        exact .inl old
      · rw [grown, List.mem_append, List.mem_singleton] at old
        rcases old with old | last
        · exact .inl old
        · exact .inr (.inl last)
    · exact .inr (.inr later)

theorem len_eq (backs : t.Backs kept) (distinct : (kept.map Prod.fst).Nodup)
    {items : List (Text × Text)} (subset : kept ⊆ items) :
    t.len = (t.present items).card := by
  have kept_present : t.present items = (kept.map Prod.fst).toFinset \ t.removed := by
    ext domain
    unfold present
    rw [Finset.mem_filter, holds_iff backs, Finset.mem_sdiff, List.mem_toFinset, List.mem_toFinset]
    constructor
    · exact fun both => both.2
    · intro both
      exact ⟨List.map_subset _ subset both.1, both⟩
  unfold len
  rw [kept_present, Finset.card_sdiff_of_subset backs.removed, backs.n,
    List.toFinset_card_of_nodup distinct, List.length_map, Nat.cast_sub]
  have fewer := Finset.card_le_card backs.removed
  rwa [List.toFinset_card_of_nodup distinct, List.length_map] at fewer

/-- Building ends with a table of the items stored, unless they do not fit. -/
theorem build_spec (items : List (Text × Text)) :
    (∃ t, build items = .ok t ∧ t.Backs (stored items) ∧ t.removed = ∅ ∧
        ((stored items).map Prod.fst).Nodup ∧ Fitting (blobCapacity items) (stored items)) ∨
      (∃ fault, build items = .error fault) ∧
        ¬ Fitting (blobCapacity items) (stored items) := by
  have room := length_lt_slotCount items
  unfold build image stored
  rcases Building.foldlM_add items _ _ (Building.invariant_start items)
    (by rw [List.length_nil]; omega) with ⟨b, done, invariant⟩ | ⟨⟨fault, failed⟩, unfit⟩
  · left
    rw [done]
    obtain ⟨tallies, slots, -, write, n, fitting⟩ := invariant
    have whole : b.slots.take (slotCount items) = b.slots := by
      rw [← slots]
      exact List.take_length
    -- the slack of the blob is cut off, which no entry reaches
    have trimmed : cells b.slots (b.blob.take b.write) = cells b.slots b.blob := by
      unfold cells
      apply List.map_congr_left
      intro word held
      unfold slotEntry
      split
      · rfl
      · next used =>
          have same : (b.blob.take b.write).take b.write = b.blob.take b.write := by
            rw [List.take_take, Nat.min_self]
          have inside : slotOffset word + slotLength word ≤ b.write := by
            rw [write]
            exact tallies.within word held used
          rw [slotKey_of_take same inside]
    have shorter : (items.foldl keep []).length ≤ items.length := by
      apply List.Subperm.length_le
      apply List.Nodup.subperm
      · exact tallies.distinct.of_map
      · exact stored_subset items
    refine ⟨_, rfl, ?_, rfl, tallies.distinct, fitting⟩
    constructor
    · refine ⟨b.slots, ?_, ?_, ?_, ?_⟩
      · show some (b.slots.take (slotCount items)) = _
        rw [whole]
      · show slotCount items - 1 = _
        rw [slots]
      · rw [slots]
        omega
      · obtain ⟨size, linked, occupied, within, holds, nodup, named, few, distinct⟩ := tallies
        rw [← trimmed] at linked occupied holds
        exact ⟨size, linked, occupied, within, holds, nodup, named, few, distinct⟩
    · exact n
    · exact Finset.empty_subset _
  · right
    rw [failed]
    exact ⟨⟨fault, rfl⟩, unfit⟩

/-- The table is an exact map of the items. -/
structure ExactMap (items : List (Text × Text)) (t : SharedBlockTable) : Prop where
  first : ∀ domain ∈ items.map Prod.fst, (encode domain).length ≠ 0 →
    (encode domain).length ≤ 255 → (items.map Prod.snd).toFinset.card ≤ 65535 →
      t.get domain = .ok (lookup items domain)
  absent : ∀ domain ∉ items.map Prod.fst, t.get domain = .ok none
  ends : ∀ domain, ∃ found, t.get domain = .ok found
  discards : ∀ domains : List Text, ∃ t', domains.foldlM discard t = .ok t' ∧
    (∀ domain, t'.get domain = if domain ∈ domains then .ok none else t.get domain) ∧
    t'.len = (t'.present items).card

/-- Building a table of the items ends, and the table is an exact map of them. -/
def Exact (items : List (Text × Text)) : Prop :=
  ∃ t, build items = .ok t ∧ ExactMap items t

/-- The table is exact whenever the octets of the domains stored are no more than the
characters listed, and each of their offsets has 40 bits. -/
theorem exact_iff_fitting (items : List (Text × Text)) :
    Exact items ↔ Fitting (blobCapacity items) (stored items) := by
  rcases build_spec items with ⟨t, built, backs, whole, distinct, fitting⟩ | ⟨⟨fault, failed⟩, unfit⟩
  · refine ⟨fun _ => fitting, fun _ => ⟨t, built, ?_⟩⟩
    have found : ∀ domain, t.get domain = .ok (lookup (stored items) domain) := by
      intro domain
      rw [get_eq backs, whole, if_neg (Finset.notMem_empty domain)]
    constructor
    · intro domain listed some_octet short few
      rw [found]
      unfold stored
      rw [lookup_foldl_keep some_octet short items [] few, List.nil_append]
    · intro domain absent
      rw [found, lookup_eq_none.mpr]
      intro held
      exact absent (List.map_subset _ (stored_subset items) held)
    · intro domain
      exact ⟨_, found domain⟩
    · intro domains
      obtain ⟨t', discarded, backs', removed⟩ := discards_spec domains t backs
      refine ⟨t', discarded, ?_, len_eq backs' distinct (stored_subset items)⟩
      intro domain
      rw [get_eq backs', found]
      by_cases gone : domain ∈ domains
      · rw [if_pos gone]
        by_cases held : domain ∈ (stored items).map Prod.fst
        · rw [if_pos ((removed domain).mpr (.inr ⟨gone, held⟩))]
        · rw [lookup_eq_none.mpr held, ite_self]
      · rw [if_neg gone, if_neg]
        rw [removed, whole]
        simp only [Finset.notMem_empty, gone, false_and, or_self, not_false_eq_true]
  · constructor
    · intro exact
      obtain ⟨t, built, -⟩ := exact
      rw [failed] at built
      cases built
    · intro fitting
      exact absurd fitting unfit

/-- One character of two octets is more than the one octet its blob has. -/
theorem not_exact_two_octets : ¬ Exact [("é".toList, "list".toList)] := by
  intro exact
  obtain ⟨t, built, -⟩ := exact
  rcases build_spec [("é".toList, "list".toList)] with ⟨-, -, -, -, -, fitting⟩ | ⟨⟨fault, failed⟩, -⟩
  · have capacity := fitting.capacity
    revert capacity
    decide
  · rw [failed] at built
    cases built

end SharedBlockTable

end Trench.Filter
