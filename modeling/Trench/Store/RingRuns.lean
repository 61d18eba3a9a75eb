import Mathlib
import Trench.Store.RingLog

set_option autoImplicit false

/- What is drained is what was accepted. -/
namespace Trench.Store.RingLog

open Wire

section

variable {β ρ : Type} {j : Json β ρ} {g : Layout} {mem mem' : Memory}

/-! ### The layout -/

theorem lane_apart {lane other : Nat} (apart : lane ≠ other) :
    g.laneOff lane + g.laneSize ≤ g.laneOff other ∨ g.laneOff other + g.laneSize ≤ g.laneOff lane := by
  have next (a b : Nat) (less : a < b) : g.laneOff a + g.laneSize ≤ g.laneOff b := by
    rw [Layout.laneOff, Layout.laneOff, ← Nat.succ_mul]
    exact Nat.mul_le_mul_right _ less
  exact (Nat.lt_or_gt_of_ne apart).imp (next lane other) (next other lane)

theorem slot_inside (lane index : Nat) (room : 0 < g.slots) :
    g.laneOff lane + headerSize ≤ g.slotOff lane index ∧
      g.slotOff lane index + g.slotBytes ≤ g.laneOff lane + g.laneSize := by
  have within : index % g.slots * g.slotBytes + g.slotBytes ≤ g.slots * g.slotBytes := by
    rw [← Nat.succ_mul]
    exact Nat.mul_le_mul_right _ (Nat.mod_lt _ room)
  rw [Layout.slotOff, Layout.laneSize]
  omega

theorem slot_apart (lane : Nat) {index other : Nat} (apart : index % g.slots ≠ other % g.slots) :
    g.slotOff lane index + g.slotBytes ≤ g.slotOff lane other ∨
      g.slotOff lane other + g.slotBytes ≤ g.slotOff lane index := by
  have next (a b : Nat) (less : a % g.slots < b % g.slots) :
      g.slotOff lane a + g.slotBytes ≤ g.slotOff lane b := by
    have more : a % g.slots * g.slotBytes + g.slotBytes ≤ b % g.slots * g.slotBytes := by
      rw [← Nat.succ_mul]
      exact Nat.mul_le_mul_right _ less
    rw [Layout.slotOff, Layout.slotOff]
    omega
  exact (Nat.lt_or_gt_of_ne apart).imp (next index other) (next other index)

/-- Within one turn of the ring, every index has a slot of its own. -/
theorem mod_ne_mod {slots tail index head : Nat} (drainable : tail ≤ index) (earlier : index < head)
    (room : head < tail + slots) : index % slots ≠ head % slots := by
  intro same
  have divides := (Nat.modEq_iff_dvd' earlier.le).mp same
  have least := Nat.le_of_dvd (Nat.sub_pos_of_lt earlier) divides
  omega

/-! ### Headers and frames -/

theorem header_congr {off : Nat} (same : ∀ i, off ≤ i → i < off + headerSize → mem' i = mem i) :
    header mem' off = header mem off := by
  have part (k : Nat) (inside : k + 8 ≤ headerSize) : mem'.read (off + k) 8 = mem.read (off + k) 8 :=
    Memory.read_congr fun i first last => same i (by omega) (by omega)
  rw [header, header, part 8 (by decide), part 16 (by decide)]
  have first := part 0 (by decide)
  rw [Nat.add_zero] at first
  rw [first]

theorem header_lt (mem : Memory) (off : Nat) : (header mem off).head < 2 ^ 64 ∧
    (header mem off).tail < 2 ^ 64 ∧ (header mem off).dropped < 2 ^ 64 := by
  have small (place : Nat) : Memory.valueOf (mem.read place 8) < 2 ^ 64 := by
    have bound := Memory.valueOf_lt (mem.read place 8)
    rw [Memory.length_read] at bound
    exact bound
  exact ⟨small _, small _, small _⟩

theorem packHeader_spec {off : Nat} {h : Header} (packed : packHeader mem off h = some mem') :
    header mem' off = h ∧ ∀ i, i < off ∨ off + headerSize ≤ i → mem' i = mem i := by
  rw [packHeader] at packed
  split at packed
  · next small =>
      cases packed
      refine ⟨?_, fun i apart => Memory.write_apart ?_⟩
      · rw [Memory.write_append, Memory.write_append]
        simp only [List.length_append, Memory.length_octetsOf]
        obtain ⟨head, tail, dropped⟩ := h
        have number (memory : Memory) (place n : Nat) (fits : n < 2 ^ 64) :
            Memory.valueOf ((memory.write place (Memory.octetsOf 8 n)).read place 8) = n := by
          have back := Memory.read_write_self memory place (Memory.octetsOf 8 n)
          rw [Memory.length_octetsOf] at back
          rw [back, Memory.valueOf_octetsOf (by norm_num at fits ⊢; exact fits)]
        have aside (memory : Memory) (place other n : Nat) (apart : other + 8 ≤ place ∨ place + 8 ≤ other) :
            (memory.write place (Memory.octetsOf 8 n)).read other 8 = memory.read other 8 :=
          Memory.read_write_apart (by rw [Memory.length_octetsOf]; exact apart)
        simp only [header, Header.mk.injEq]
        refine ⟨?_, ?_, ?_⟩
        · rw [aside _ _ off _ (by omega), aside _ _ off _ (by omega), number _ _ _ small.1]
        · rw [aside _ _ (off + 8) _ (by omega), number _ _ _ small.2.1]
        · exact number _ _ _ small.2.2
      · simp only [List.length_append, Memory.length_octetsOf]
        exact apart
  · cases packed

theorem writeFrame_apart {slot i : Nat} {payload : Octets}
    (apart : i < slot ∨ slot + (payload.length + lenSize) ≤ i) : writeFrame mem slot payload i = mem i := by
  rw [writeFrame, Memory.write_apart (by omega),
    Memory.write_apart (by rw [Memory.length_octetsOf]; omega)]

theorem readFrame_writeFrame {slot : Nat} {payload : Octets} (small : payload.length < 2 ^ 16) :
    readFrame (writeFrame mem slot payload) slot = payload := by
  have length : (writeFrame mem slot payload).read slot lenSize = Memory.octetsOf lenSize payload.length := by
    rw [writeFrame, Memory.read_write_apart (.inl (Nat.le_refl _))]
    have back := Memory.read_write_self mem slot (Memory.octetsOf lenSize payload.length)
    rw [Memory.length_octetsOf] at back
    exact back
  rw [readFrame, length, Memory.valueOf_octetsOf small]
  exact Memory.read_write_self _ _ _

theorem readFrame_congr {slot count : Nat} {payload : Octets} (holds : readFrame mem slot = payload)
    (fits : payload.length + lenSize ≤ count)
    (same : ∀ i, slot ≤ i → i < slot + count → mem' i = mem i) : readFrame mem' slot = payload := by
  have length : payload.length = Memory.valueOf (mem.read slot lenSize) := by
    rw [← holds, readFrame, Memory.length_read]
  have head : mem'.read slot lenSize = mem.read slot lenSize :=
    Memory.read_congr fun i first last => same i first (by omega)
  rw [readFrame, head, ← length]
  rw [readFrame, ← length] at holds
  exact (Memory.read_congr fun i first last => same i (by omega) (by omega)).trans holds

/-! ### The critical sections -/

/-- Only the header of the lane and its next free slot may change. -/
def Touched (g : Layout) (lane : Nat) (mem mem' : Memory) : Prop :=
  ∀ i, i < g.laneOff lane ∨ g.laneOff lane + headerSize ≤ i →
    ((header mem (g.laneOff lane)).head < (header mem (g.laneOff lane)).tail + g.slots →
      i < g.slotOff lane (header mem (g.laneOff lane)).head ∨
        g.slotOff lane (header mem (g.laneOff lane)).head + g.slotBytes ≤ i) → mem' i = mem i

theorem Touched.slot {lane index : Nat} (touched : Touched g lane mem mem') (room : 0 < g.slots)
    (drainable : (header mem (g.laneOff lane)).tail ≤ index)
    (earlier : index < (header mem (g.laneOff lane)).head) :
    ∀ i, g.slotOff lane index ≤ i → i < g.slotOff lane index + g.slotBytes → mem' i = mem i := by
  intro i first last
  have inside := slot_inside (g := g) lane index room
  refine touched i (.inr (inside.1.trans first)) fun free => ?_
  have apart := slot_apart (g := g) lane (mod_ne_mod drainable earlier free)
  omega

theorem Touched.outside {lane : Nat} (touched : Touched g lane mem mem')
    (ordered : (header mem (g.laneOff lane)).tail ≤ (header mem (g.laneOff lane)).head) :
    ∀ i, i < g.laneOff lane ∨ g.laneOff lane + g.laneSize ≤ i → mem' i = mem i := by
  intro i apart
  have size : headerSize ≤ g.laneSize := Nat.le_add_right _ _
  refine touched i (by omega) fun free => ?_
  have inside := slot_inside (g := g) lane (header mem (g.laneOff lane)).head (by omega)
  omega

/-- A published payload is the frame of its slot; whatever comes of a push, head and tail go on with
what was accepted. -/
theorem publish_spec {lane : Nat} {payload : Octets} {published : Bool}
    (ordered : (header mem (g.laneOff lane)).tail ≤ (header mem (g.laneOff lane)).head)
    (fits : payload.length + lenSize ≤ g.slotBytes) (ran : publish g lane payload mem = (published, mem')) :
    Touched g lane mem mem' ∧
      (header mem' (g.laneOff lane)).tail = (header mem (g.laneOff lane)).tail ∧
      (header mem' (g.laneOff lane)).head = (header mem (g.laneOff lane)).head + (if published then 1 else 0) ∧
      (published = true → (header mem (g.laneOff lane)).head < (header mem (g.laneOff lane)).tail + g.slots ∧
        readFrame mem' (g.slotOff lane (header mem (g.laneOff lane)).head) = payload) := by
  have still : Touched g lane mem mem := fun _ _ _ => rfl
  have stays (n : Nat) : n = n + if false = true then 1 else 0 := by rw [if_neg Bool.false_ne_true, Nat.add_zero]
  rw [publish] at ran
  dsimp only at ran
  split at ran
  · cases packed : packHeader mem (g.laneOff lane)
        { header mem (g.laneOff lane) with dropped := (header mem (g.laneOff lane)).dropped + 1 } with
    | none =>
        rw [packed, Option.getD_none] at ran
        cases ran
        exact ⟨still, rfl, stays _, fun no => by cases no⟩
    | some after =>
        rw [packed, Option.getD_some] at ran
        cases ran
        obtain ⟨same, apart⟩ := packHeader_spec packed
        exact ⟨fun i outside _ => apart i outside, by rw [same], by rw [same]; exact stays _, fun no => by cases no⟩
  · next free =>
      split at ran
      · cases ran
        exact ⟨still, rfl, stays _, fun no => by cases no⟩
      · next small =>
          have room : 0 < g.slots := by omega
          have inside := slot_inside (g := g) lane (header mem (g.laneOff lane)).head room
          generalize framed : writeFrame mem (g.slotOff lane (header mem (g.laneOff lane)).head) payload = after at ran
          have aside (i : Nat) (apart : i < g.slotOff lane (header mem (g.laneOff lane)).head ∨
              g.slotOff lane (header mem (g.laneOff lane)).head + g.slotBytes ≤ i) : after i = mem i := by
            rw [← framed]
            exact writeFrame_apart (by omega)
          have kept : header after (g.laneOff lane) = header mem (g.laneOff lane) :=
            header_congr fun i _ last => aside i (by omega)
          split at ran
          · cases ran
            refine ⟨fun i _ outside => aside i (outside (by omega)), ?_, ?_, fun no => by cases no⟩
            · rw [kept]
            · rw [kept]
              exact stays _
          · next last packed =>
              cases ran
              obtain ⟨same, apart⟩ := packHeader_spec packed
              refine ⟨fun i outside slot => ?_, by rw [same], by rw [same, if_pos rfl], fun _ => ⟨by omega, ?_⟩⟩
              · rw [apart i outside]
                exact aside i (slot (by omega))
              · have written : readFrame after (g.slotOff lane (header mem (g.laneOff lane)).head) = payload := by
                  rw [← framed]
                  exact readFrame_writeFrame (by omega)
                exact readFrame_congr written fits fun i first _ => apart i (.inr (inside.1.trans first))

theorem take_spec {lane : Nat} {raw : Octets} (taken : take g lane mem = some (raw, mem')) :
    (header mem (g.laneOff lane)).tail < (header mem (g.laneOff lane)).head ∧
      raw = readFrame mem (g.slotOff lane (header mem (g.laneOff lane)).tail) ∧
      (header mem' (g.laneOff lane)).head = (header mem (g.laneOff lane)).head ∧
      (header mem' (g.laneOff lane)).tail = (header mem (g.laneOff lane)).tail + 1 ∧
      ∀ i, i < g.laneOff lane ∨ g.laneOff lane + headerSize ≤ i → mem' i = mem i := by
  rw [take] at taken
  dsimp only at taken
  split at taken
  · cases taken
  · next some =>
      cases packed : packHeader mem (g.laneOff lane)
          { header mem (g.laneOff lane) with tail := (header mem (g.laneOff lane)).tail + 1 } with
      | none =>
          -- The tail is behind the head, so that it still fits.
          have bounds := header_lt mem (g.laneOff lane)
          rw [packHeader, if_pos ⟨bounds.1, by dsimp only; omega, bounds.2.2⟩] at packed
          cases packed
      | some after =>
          rw [packed, Option.getD_some] at taken
          cases taken
          obtain ⟨same, apart⟩ := packHeader_spec packed
          exact ⟨Nat.not_le.mp some, rfl, by rw [same], by rw [same], apart⟩

/-! ### Lanes -/

/-- The memory of a lane holds what was accepted and not yet drained. -/
structure Holds (j : Json β ρ) (g : Layout) (mem : Memory) (lane : Nat) (accepted : List Octets)
    (drained : List ρ) : Prop where
  head : (header mem (g.laneOff lane)).head = accepted.length
  tail : (header mem (g.laneOff lane)).tail = drained.length
  ordered : drained.length ≤ accepted.length
  full : accepted.length ≤ drained.length + g.slots
  rows : drained.map some = (accepted.take drained.length).map j.loads
  readable : ∀ payload ∈ accepted, (j.loads payload).isSome = true ∧ payload.length + lenSize ≤ g.slotBytes
  frames : ∀ index payload, drained.length ≤ index → accepted[index]? = some payload →
    readFrame mem (g.slotOff lane index) = payload

variable {lane : Nat} {accepted : List Octets} {drained : List ρ}

theorem Holds.congr (holds : Holds j g mem lane accepted drained)
    (same : ∀ i, g.laneOff lane ≤ i → i < g.laneOff lane + g.laneSize → mem' i = mem i) :
    Holds j g mem' lane accepted drained := by
  have size : headerSize ≤ g.laneSize := Nat.le_add_right _ _
  have kept : header mem' (g.laneOff lane) = header mem (g.laneOff lane) :=
    header_congr fun i first last => same i first (by omega)
  refine ⟨by rw [kept]; exact holds.head, by rw [kept]; exact holds.tail, holds.ordered, holds.full, holds.rows,
    holds.readable, fun index payload later found => ?_⟩
  have listed := List.mem_of_getElem? found
  obtain ⟨inRange, -⟩ := List.getElem?_eq_some_iff.mp found
  have ordered := holds.ordered
  have full := holds.full
  have inside := slot_inside (g := g) lane index (by omega)
  exact readFrame_congr (holds.frames index payload later found) (holds.readable payload listed).2
    fun i first last => same i (by omega) (by omega)

/-- A push adds to what is held, where it is accepted. -/
theorem Holds.publish (holds : Holds j g mem lane accepted drained) {payload : Octets} {published : Bool}
    (readable : (j.loads payload).isSome = true) (fits : payload.length + lenSize ≤ g.slotBytes)
    (ran : publish g lane payload mem = (published, mem')) :
    Holds j g mem' lane (if published then accepted ++ [payload] else accepted) drained := by
  have ordered : (header mem (g.laneOff lane)).tail ≤ (header mem (g.laneOff lane)).head := by
    rw [holds.head, holds.tail]
    exact holds.ordered
  obtain ⟨touched, tail, head, framed⟩ := publish_spec ordered fits ran
  have frames (index : Nat) (frame : Octets) (later : drained.length ≤ index)
      (found : accepted[index]? = some frame) : readFrame mem' (g.slotOff lane index) = frame := by
    obtain ⟨inRange, -⟩ := List.getElem?_eq_some_iff.mp found
    have full := holds.full
    refine readFrame_congr (holds.frames index frame later found)
      (holds.readable frame (List.mem_of_getElem? found)).2 (touched.slot (by omega) ?_ ?_)
    · rw [holds.tail]
      exact later
    · rw [holds.head]
      exact inRange
  rw [holds.head] at head framed
  rw [holds.tail] at tail framed
  cases published with
  | false => exact ⟨head, tail, holds.ordered, holds.full, holds.rows, holds.readable, frames⟩
  | true =>
      obtain ⟨free, new⟩ := framed rfl
      simp only [if_true] at head ⊢
      refine ⟨?_, tail, ?_, ?_, ?_, ?_, ?_⟩
      · rw [head, List.length_append, List.length_singleton]
      · rw [List.length_append]
        exact holds.ordered.trans (Nat.le_add_right _ _)
      · rw [List.length_append, List.length_singleton]
        exact free
      · rw [List.take_append_of_le_length holds.ordered]
        exact holds.rows
      · intro frame listed
        rcases List.mem_append.mp listed with old | last
        · exact holds.readable frame old
        · rw [List.mem_singleton.mp last]
          exact ⟨readable, fits⟩
      · intro index frame later found
        rcases Nat.lt_or_ge index accepted.length with old | last
        · rw [List.getElem?_append_left old] at found
          exact frames index frame later found
        · rw [List.getElem?_append_right last] at found
          obtain ⟨inRange, -⟩ := List.getElem?_eq_some_iff.mp found
          rw [List.length_singleton, Nat.lt_one_iff] at inRange
          obtain rfl : index = accepted.length := by omega
          rw [Nat.sub_self] at found
          cases found
          exact new

/-- What is taken is the first of what is held. -/
theorem Holds.take (holds : Holds j g mem lane accepted drained) {raw : Octets}
    (taken : take g lane mem = some (raw, mem')) :
    ∃ row, j.loads raw = some row ∧ Holds j g mem' lane accepted (drained ++ [row]) := by
  obtain ⟨some, rfl, head, tail, apart⟩ := take_spec taken
  rw [holds.head, holds.tail] at some
  have first : accepted[drained.length]? = .some accepted[drained.length] := List.getElem?_eq_getElem some
  have frame := holds.frames drained.length _ (Nat.le_refl _) first
  have known := holds.readable _ (List.getElem_mem some)
  obtain ⟨row, read⟩ := Option.isSome_iff_exists.mp known.1
  refine ⟨row, by rw [holds.tail, frame]; exact read, ?_⟩
  have full := holds.full
  refine ⟨head.trans holds.head, ?_, ?_, ?_, ?_, holds.readable, fun index payload later found => ?_⟩
  · rw [tail, holds.tail, List.length_append, List.length_singleton]
  · rw [List.length_append, List.length_singleton]
    exact some
  · rw [List.length_append, List.length_singleton]
    omega
  · rw [List.length_append, List.length_singleton, List.map_append, List.take_add_one, first, List.map_append,
      holds.rows]
    change _ ++ [.some row] = _ ++ [j.loads accepted[drained.length]]
    rw [read]
  · rw [List.length_append, List.length_singleton] at later
    have inside := slot_inside (g := g) lane index (by omega)
    exact readFrame_congr (holds.frames index payload (Nat.le_of_succ_le later) found)
      (holds.readable payload (List.mem_of_getElem? found)).2
      fun i first _ => apart i (.inr (inside.1.trans first))

/-! ### The ring -/

namespace Ring

/-- Every lane holds what it should, and no drain has more rows than it may. -/
structure Kept (j : Json β ρ) (g : Layout) (r : Ring ρ) : Prop where
  lanes : ∀ lane, lane < g.lanes → Holds j g r.mem lane (r.accepted lane) (r.drained lane)
  draining : ∀ d, r.draining = some d → d.rows.length ≤ d.limit
  returned : ∀ d ∈ r.returned, d.rows.length ≤ d.limit

variable {r r' : Ring ρ}

theorem Kept.faithful (kept : r.Kept j g) : r.Faithful j g := by
  refine ⟨fun lane known => ?_, fun lane known => ?_, kept.returned⟩
  · have holds := kept.lanes lane known
    exact ⟨holds.ordered, holds.rows⟩
  · have holds := kept.lanes lane known
    rw [holds.head, holds.tail]
    exact ⟨holds.ordered, holds.full⟩

theorem header_blank (off : Nat) : header Memory.blank off = ⟨0, 0, 0⟩ := by
  have zeros (place : Nat) : Memory.blank.read place 8 = List.replicate 8 0 := rfl
  rw [header, zeros, zeros, zeros]
  decide

theorem kept_initial : ({} : Ring ρ).Kept j g := by
  refine ⟨fun lane _ => ⟨?_, ?_, Nat.le_refl 0, Nat.zero_le _, rfl, ?_, ?_⟩, ?_, ?_⟩
  · rw [header_blank]
    rfl
  · rw [header_blank]
    rfl
  · exact fun _ held => absurd held List.not_mem_nil
  · intro index payload _ found
    cases found
  · intro d none
    cases none
  · exact fun _ held => absurd held List.not_mem_nil

/-- What changes in one lane leaves the others as they are, and the undrained slots of its own. -/
theorem Kept.undisturbed (kept : r.Kept j g) (touched : Touched g lane r.mem r'.mem) (known : lane < g.lanes) :
    r.Undisturbed g r' := by
  intro other index listed drainable earlier
  have holds := kept.lanes other listed
  have room : 0 < g.slots := by
    have full := holds.full
    rw [holds.head] at earlier
    rw [holds.tail] at drainable
    omega
  apply Memory.read_congr
  rcases eq_or_ne other lane with rfl | apart
  · exact touched.slot room drainable earlier
  · intro i first last
    have mine := kept.lanes lane known
    have ordered : (header r.mem (g.laneOff lane)).tail ≤ (header r.mem (g.laneOff lane)).head := by
      rw [mine.head, mine.tail]
      exact mine.ordered
    have inside := slot_inside (g := g) other index room
    have aside := lane_apart (g := g) apart
    exact touched.outside ordered i (by omega)

/-- The lanes after a change of one of them. -/
theorem Kept.changed (kept : r.Kept j g) (touched : Touched g lane r.mem mem') (known : lane < g.lanes)
    {accepted : List Octets} {drained : List ρ} (holds : Holds j g mem' lane accepted drained) :
    ∀ other, other < g.lanes → Holds j g mem' other (Function.update r.accepted lane accepted other)
      (Function.update r.drained lane drained other) := by
  intro other listed
  rcases eq_or_ne other lane with rfl | apart
  · rw [Function.update_self, Function.update_self]
    exact holds
  · rw [Function.update_of_ne apart, Function.update_of_ne apart]
    have mine := kept.lanes lane known
    have ordered : (header r.mem (g.laneOff lane)).tail ≤ (header r.mem (g.laneOff lane)).head := by
      rw [mine.head, mine.tail]
      exact mine.ordered
    have aside := lane_apart (g := g) apart
    exact (kept.lanes other listed).congr fun i first last => touched.outside ordered i (by omega)

theorem payloadOf_spec {row : List (Column β)} {payload : Octets} (found : payloadOf j g row = some payload) :
    (j.loads payload).isSome = true ∧ payload.length + lenSize ≤ g.slotBytes := by
  obtain ⟨whole, dumped, found⟩ := Option.bind_eq_some_iff.mp found
  split at found
  · next fits =>
      cases found
      exact ⟨j.loads_dumps _ _ dumped, fits⟩
  · obtain ⟨less, dumped, found⟩ := Option.bind_eq_some_iff.mp found
    split at found
    · next fits =>
        cases found
        exact ⟨j.loads_dumps _ _ dumped, fits⟩
    · cases found

theorem undisturbed_of_mem_eq (same : r'.mem = r.mem) : r.Undisturbed g r' := by
  intro lane index _ _ _
  rw [same]

theorem Kept.push (kept : r.Kept j g) (known : lane < g.lanes) (row : List (Column β)) (held : Bool) :
    (r.push j g lane row held).Kept j g ∧ r.Undisturbed g (r.push j g lane row held) := by
  rw [Ring.push]
  split
  · exact ⟨kept, undisturbed_of_mem_eq rfl⟩
  · next payload found =>
      split
      · exact ⟨kept, undisturbed_of_mem_eq rfl⟩
      · obtain ⟨readable, fits⟩ := payloadOf_spec found
        have mine := kept.lanes lane known
        cases ran : RingLog.publish g lane payload r.mem with
        | mk published mem' =>
            have ordered : (header r.mem (g.laneOff lane)).tail ≤ (header r.mem (g.laneOff lane)).head := by
              rw [mine.head, mine.tail]
              exact mine.ordered
            obtain ⟨touched, -⟩ := publish_spec ordered fits ran
            have lanes := kept.changed touched known (mine.publish readable fits ran)
            rw [Function.update_eq_self] at lanes
            refine ⟨⟨?_, kept.draining, kept.returned⟩, kept.undisturbed touched known⟩
            cases published with
            | true => exact lanes
            | false =>
                rw [if_neg Bool.false_ne_true, Function.update_eq_self] at lanes
                exact lanes

theorem Kept.goOn (kept : r.Kept j g) {d : Drain ρ} (going : r.draining = some d) (held : Bool) :
    (r.goOn j g d held).Kept j g ∧ r.Undisturbed g (r.goOn j g d held) := by
  have limited := kept.draining d going
  have fine : ∀ e ∈ d :: r.returned, e.rows.length ≤ e.limit := List.forall_mem_cons.mpr ⟨limited, kept.returned⟩
  have returns : ({ r with draining := none, returned := d :: r.returned } : Ring ρ).Kept j g :=
    ⟨kept.lanes, fun _ none => (by cases none), fine⟩
  have skips : ({ r with draining := some { d with lane := d.lane + 1 } } : Ring ρ).Kept j g :=
    ⟨kept.lanes, fun _ next => (by cases next; exact limited), kept.returned⟩
  rw [Ring.goOn]
  split
  · exact ⟨returns, undisturbed_of_mem_eq rfl⟩
  · next known =>
      split
      · exact ⟨skips, undisturbed_of_mem_eq rfl⟩
      · split
        · exact ⟨returns, undisturbed_of_mem_eq rfl⟩
        · next more =>
            split
            · exact ⟨skips, undisturbed_of_mem_eq rfl⟩
            · split
              · exact ⟨skips, undisturbed_of_mem_eq rfl⟩
              · next raw mem' taken =>
                  have listed := Nat.not_le.mp known
                  obtain ⟨-, -, -, -, apart⟩ := take_spec taken
                  have touched : Touched g d.lane r.mem mem' := fun i outside _ => apart i outside
                  obtain ⟨row, read, holds⟩ := (kept.lanes d.lane listed).take taken
                  have lanes := kept.changed touched listed holds
                  rw [Function.update_eq_self] at lanes
                  rw [read]
                  refine ⟨⟨lanes, fun e next => ?_, kept.returned⟩, kept.undisturbed touched listed⟩
                  cases next
                  change (d.rows ++ [row]).length ≤ d.limit
                  rw [List.length_append, List.length_singleton]
                  omega

theorem Kept.step (kept : r.Kept j g) {e : Event β} (taken : r.step j g e = some r') :
    r'.Kept j g ∧ r.Undisturbed g r' := by
  cases e with
  | pushes lane row held =>
      rw [Ring.step] at taken
      split at taken
      · next known =>
          cases taken
          exact kept.push known row held
      · cases taken
  | drains limit =>
      rw [Ring.step] at taken
      split at taken
      · cases taken
        refine ⟨⟨kept.lanes, fun d started => ?_, kept.returned⟩, undisturbed_of_mem_eq rfl⟩
        cases started
        exact Nat.zero_le limit
      · cases taken
  | goesOn held =>
      rw [Ring.step] at taken
      cases going : r.draining with
      | none =>
          rw [going] at taken
          cases taken
      | some d =>
          rw [going] at taken
          cases taken
          exact kept.goOn going held

end Ring

end

/-- `json.dumps` of a single string of letters, and back. -/
def writeLetters : List (Column Unit) → Option Octets
  | [.text s] =>
      if s.all Char.isLower then some ([0x5B, 0x22] ++ (s.map fun c => UInt8.ofNat c.toNat) ++ [0x22, 0x5D]) else none
  | _ => none

def readLetters (raw : Octets) : Option (List Text) :=
  if raw.take 2 = [0x5B, 0x22] ∧ raw.drop (raw.length - 2) = [0x22, 0x5D] then
    some [((raw.drop 2).take (raw.length - 4)).map fun o => Char.ofNat o.toNat]
  else none

theorem readLetters_writeLetters (row : List (Column Unit)) (payload : Octets)
    (written : writeLetters row = some payload) : (readLetters payload).isSome = true := by
  rw [writeLetters.eq_def] at written
  split at written
  · split at written
    · cases written
      rw [readLetters, if_pos ⟨rfl, List.drop_left' (by simp)⟩]
      rfl
    · cases written
  · cases written

def letters : Json Unit (List Text) := ⟨writeLetters, readLetters, readLetters_writeLetters⟩

def twoLanes : Layout := ⟨2, 1, 16, 0⟩

/-- A row too many, a drain, and a lock that is not had. -/
def busyLane : List (Event Unit) :=
  [.pushes 1 [.text ['a', 'b']] true, .pushes 1 [.text ['c', 'd']] true, .drains 4, .goesOn true, .goesOn true,
    .pushes 1 [.text ['e', 'f']] true, .goesOn false, .goesOn true]

example : ((Machine.follow (Ring.step letters twoLanes) {} busyLane).getLast?.map fun t =>
    (t.after.drained 1, (t.after.accepted 1).length, t.after.returned.length)) =
    some ([[['a', 'b']]], 2, 1) := by decide +kernel

end Trench.Store.RingLog
