import Mathlib
import Trench.Wire.RRTypes

set_option autoImplicit false

/- The window-encoded type bitmap of NSEC and NSEC3: the signer's encoder and the
validator's membership test, and that they agree on every set of types. -/
namespace Trench.Dnssec

open Trench.Wire

/-- The window loop of `bitmap_has`; every round drops two octets at least. -/
def bitmapScan (win bit : Nat) : Nat → Octets → Bool
  | fuel + 1, w :: length :: rest =>
      if w.toNat = win then
        match (rest.take length.toNat)[bit / 8]? with
        | some byte => byte &&& (0x80 >>> UInt8.ofNat (bit % 8)) != 0
        | none => false
      else bitmapScan win bit fuel (rest.drop length.toNat)
  | _, _ => false

def bitmapHas (bitmap : Octets) (rtype : RRType) : Bool :=
  bitmapScan (rtype.toNat / 256) (rtype.toNat % 256) bitmap.length bitmap

/-- The bit of a type inside its octet, the most significant first. -/
def maskOf (bit : Nat) : UInt8 := 0x80 >>> UInt8.ofNat (bit % 8)

/-- One window block: every bit is or-ed into its octet. -/
def windowBlock (bits : List Nat) (length : Nat) : Octets :=
  (List.range length).map fun byte =>
    bits.foldl (fun octet b => if b / 8 = byte then octet ||| maskOf b else octet) 0

def windowsOf (types : List RRType) : List Nat :=
  ((types.map fun t => t.toNat / 256).dedup).insertionSort (· ≤ ·)

def bitsOf (types : List RRType) (win : Nat) : List Nat :=
  (types.filter fun t => t.toNat / 256 = win).map fun t => t.toNat % 256

def encodeTypeBitmap (types : List RRType) : Octets :=
  (windowsOf types).flatMap fun win =>
    let bits := bitsOf types win
    let length := bits.foldl max 0 / 8 + 1
    UInt8.ofNat win :: UInt8.ofNat length :: windowBlock bits length

/-! ### Membership in what was encoded -/

theorem maskOf_and_ne_zero (a b : Nat) : maskOf a &&& maskOf b ≠ 0 ↔ a % 8 = b % 8 := by
  have table : ∀ i < 8, ∀ k < 8,
      ((0x80 >>> UInt8.ofNat i : UInt8) &&& 0x80 >>> UInt8.ofNat k ≠ 0 ↔ i = k) := by decide
  exact table (a % 8) (Nat.mod_lt _ (by decide)) (b % 8) (Nat.mod_lt _ (by decide))

theorem foldl_octet (bits : List Nat) (byte : Nat) (start mask : UInt8) :
    bits.foldl (fun octet b => if b / 8 = byte then octet ||| maskOf b else octet) start &&& mask
        ≠ 0 ↔
      start &&& mask ≠ 0 ∨ ∃ b ∈ bits, b / 8 = byte ∧ maskOf b &&& mask ≠ 0 := by
  induction bits generalizing start with
  | nil => simp
  | cons b bits ih =>
      rw [List.foldl_cons, ih]
      by_cases here : b / 8 = byte
      · have spread : (start ||| maskOf b) &&& mask = start &&& mask ||| maskOf b &&& mask := by
          apply UInt8.toBitVec_inj.mp
          ext i
          simp only [UInt8.toBitVec_and, UInt8.toBitVec_or, BitVec.getElem_and, BitVec.getElem_or,
            Bool.and_or_distrib_right]
        simp only [here, ↓reduceIte, spread, ne_eq, UInt8.or_eq_zero_iff, List.mem_cons,
          exists_eq_or_imp, true_and]
        tauto
      · simp only [here, ↓reduceIte, List.mem_cons, exists_eq_or_imp, false_and, false_or]

@[simp] theorem length_windowBlock (bits : List Nat) (length : Nat) :
    (windowBlock bits length).length = length := by
  simp only [windowBlock, List.length_map, List.length_range]

/-- The test of one octet of a block finds exactly the bits put into it. -/
theorem windowBlock_test (bits : List Nat) (length bit : Nat)
    (fits : ∀ b ∈ bits, b / 8 < length) :
    (match (windowBlock bits length)[bit / 8]? with
      | some byte => byte &&& maskOf bit != 0
      | none => false) = true ↔ bit ∈ bits := by
  by_cases inside : bit / 8 < length
  · have octet := foldl_octet bits (bit / 8) 0 (maskOf bit)
    rw [windowBlock, List.getElem?_map, List.getElem?_range inside]
    simp only [Option.map_some, bne_iff_ne]
    rw [octet]
    simp only [UInt8.zero_and, ne_eq, not_true_eq_false, false_or]
    constructor
    · rintro ⟨b, held, same, low⟩
      have rest := (maskOf_and_ne_zero b bit).mp low
      have equal : b = bit := by omega
      exact equal ▸ held
    · exact fun held => ⟨bit, held, rfl, (maskOf_and_ne_zero bit bit).mpr rfl⟩
  · rw [List.getElem?_eq_none (by simpa using inside)]
    exact ⟨fun h => (by cases h), fun held => absurd (fits bit held) inside⟩

/-- One window of a bitmap: its own block decides, or the rest does. -/
theorem bitmapScan_window (win bit fuel w : Nat) (bits : List Nat) (length : Nat) (rest : Octets)
    (wide : w < 256) (short : length < 256) (fits : ∀ b ∈ bits, b / 8 < length) :
    bitmapScan win bit (fuel + 1)
      (UInt8.ofNat w :: UInt8.ofNat length :: (windowBlock bits length ++ rest)) = true ↔
      if w = win then bit ∈ bits else bitmapScan win bit fuel rest = true := by
  have octet : (UInt8.ofNat w).toNat = w := by
    rw [UInt8.toNat_ofNat', Nat.mod_eq_of_lt wide]
  have count : (UInt8.ofNat length).toNat = length := by
    rw [UInt8.toNat_ofNat', Nat.mod_eq_of_lt short]
  rw [bitmapScan]
  simp only [octet, count]
  by_cases here : w = win
  · rw [if_pos here, if_pos here, List.take_left' (length_windowBlock bits length)]
    exact windowBlock_test bits length bit fits
  · rw [if_neg here, if_neg here, List.drop_left' (length_windowBlock bits length)]

theorem foldl_max_ge (bits : List Nat) (start : Nat) :
    start ≤ bits.foldl max start ∧ ∀ b ∈ bits, b ≤ bits.foldl max start := by
  induction bits generalizing start with
  | nil => simp
  | cons b bits ih =>
      obtain ⟨low, all⟩ := ih (max start b)
      refine ⟨(le_max_left _ _).trans low, fun c held => ?_⟩
      rcases List.mem_cons.mp held with rfl | held
      · exact (le_max_right _ _).trans low
      · exact all c held

theorem foldl_max_lt (bits : List Nat) (start bound : Nat) (first : start < bound)
    (all : ∀ b ∈ bits, b < bound) : bits.foldl max start < bound := by
  induction bits generalizing start with
  | nil => exact first
  | cons b bits ih =>
      exact ih _ (max_lt first (all b List.mem_cons_self))
        fun c held => all c (List.mem_cons_of_mem _ held)

theorem mem_bitsOf {types : List RRType} {t : RRType} :
    t.toNat % 256 ∈ bitsOf types (t.toNat / 256) ↔ t ∈ types := by
  simp only [bitsOf, List.mem_map, List.mem_filter, decide_eq_true_eq]
  constructor
  · rintro ⟨other, ⟨held, high⟩, low⟩
    have same : other.toNat = t.toNat := by omega
    exact UInt16.toNat_inj.mp same ▸ held
  · exact fun held => ⟨t, ⟨held, rfl⟩, rfl⟩

theorem bitmapScan_windows (types : List RRType) (win bit : Nat) (windows : List Nat)
    (fuel : Nat) (enough : windows.length ≤ fuel) (wide : ∀ w ∈ windows, w < 256) :
    bitmapScan win bit fuel (windows.flatMap fun w =>
        let bits := bitsOf types w
        let length := bits.foldl max 0 / 8 + 1
        UInt8.ofNat w :: UInt8.ofNat length :: windowBlock bits length) = true ↔
      win ∈ windows ∧ bit ∈ bitsOf types win := by
  induction windows generalizing fuel with
  | nil => cases fuel <;> simp [bitmapScan]
  | cons w windows ih =>
      obtain ⟨left, rfl⟩ : ∃ left, fuel = left + 1 :=
        ⟨fuel - 1, by simp only [List.length_cons] at enough; omega⟩
      have narrow : ∀ b ∈ bitsOf types w, b < 256 := by
        intro b held
        obtain ⟨t, _, rfl⟩ := List.mem_map.mp held
        exact Nat.mod_lt _ (by decide)
      have top := foldl_max_lt (bitsOf types w) 0 256 (by decide) narrow
      have fits : ∀ b ∈ bitsOf types w, b / 8 < (bitsOf types w).foldl max 0 / 8 + 1 := by
        intro b held
        have bound := (foldl_max_ge (bitsOf types w) 0).2 b held
        omega
      rw [List.flatMap_cons]
      simp only [List.cons_append]
      rw [bitmapScan_window win bit left w _ _ _ (wide w List.mem_cons_self) (by omega) fits]
      by_cases here : w = win
      · rw [if_pos here, here]
        simp only [List.mem_cons_self, true_and]
      · rw [if_neg here, ih left (by simp only [List.length_cons] at enough; omega)
          fun v held => wide v (List.mem_cons_of_mem _ held)]
        simp only [List.mem_cons, Ne.symm here, false_or]

theorem windows_length_le (types : List RRType) (windows : List Nat) :
    windows.length ≤ (windows.flatMap fun w =>
        let bits := bitsOf types w
        let length := bits.foldl max 0 / 8 + 1
        UInt8.ofNat w :: UInt8.ofNat length :: windowBlock bits length).length := by
  induction windows with
  | nil => exact Nat.le_refl _
  | cons w windows ih =>
      simp only [List.flatMap_cons, List.length_append, List.length_cons] at ih ⊢
      omega

/-- The validator finds in an encoded bitmap exactly the types the signer put there. -/
theorem bitmapHas_encodeTypeBitmap (types : List RRType) (t : RRType) :
    bitmapHas (encodeTypeBitmap types) t = true ↔ t ∈ types := by
  have mem (w : Nat) : w ∈ windowsOf types ↔ ∃ u ∈ types, u.toNat / 256 = w := by
    simp only [windowsOf, List.mem_insertionSort, List.mem_dedup, List.mem_map]
  have wide : ∀ w ∈ windowsOf types, w < 256 := by
    intro w held
    obtain ⟨u, _, rfl⟩ := (mem w).mp held
    have bound := u.toNat_lt
    omega
  rw [bitmapHas, encodeTypeBitmap, bitmapScan_windows types _ _ _ _
    (windows_length_le types (windowsOf types)) wide, mem_bitsOf]
  exact ⟨fun h => h.2, fun held => ⟨(mem _).mpr ⟨t, held, rfl⟩, held⟩⟩

/-! ### The reader on any octets -/

/-- The loop of `bitmap_has` by its index, nothing where an index is out of range or the rounds run out. -/
def bitmapLoop (bitmap : Octets) (win bit : Nat) : Nat → Nat → Option Bool
  | 0, _ => none
  | rounds + 1, i =>
      if i + 2 ≤ bitmap.length then do
        let w ← bitmap[i]?
        let length ← bitmap[i + 1]?
        let block := (bitmap.drop (i + 2)).take length.toNat
        if w.toNat = win then
          if bit / 8 < block.length then (block[bit / 8]?).map fun byte => byte &&& maskOf bit != 0
          else some false
        else bitmapLoop bitmap win bit rounds (i + (2 + length.toNat))
      else some false

/-- The loop stays inside the bitmap, ends, and finds what the scan of the rest finds. -/
theorem bitmapLoop_eq (bitmap : Octets) (win bit rounds : Nat) : ∀ i fuel,
    bitmap.length - i < rounds → bitmap.length - i ≤ fuel →
      bitmapLoop bitmap win bit rounds i = some (bitmapScan win bit fuel (bitmap.drop i)) := by
  induction rounds with
  | zero => exact fun i fuel enough => absurd enough (Nat.not_lt_zero _)
  | succ rounds ih =>
      intro i fuel enough bound
      rw [bitmapLoop]
      by_cases more : i + 2 ≤ bitmap.length
      · obtain ⟨fuel, rfl⟩ : ∃ less, fuel = less + 1 := ⟨fuel - 1, by omega⟩
        have front : bitmap.drop i = bitmap[i] :: bitmap[i + 1] :: bitmap.drop (i + 2) := by
          rw [List.drop_eq_getElem_cons (by omega), List.drop_eq_getElem_cons (by omega)]
        rw [if_pos more, front, bitmapScan, List.getElem?_eq_getElem (by omega), Option.bind_eq_bind,
          Option.bind_some, List.getElem?_eq_getElem (by omega), Option.bind_some]
        dsimp only
        split
        · split
          · next inside =>
              rw [List.getElem?_eq_getElem inside]
              rfl
          · next outside => rw [List.getElem?_eq_none (by omega)]
        · rw [ih (i + (2 + bitmap[i + 1].toNat)) fuel (by omega) (by omega), List.drop_drop, Nat.add_assoc]
      · rw [if_neg more]
        have short : (bitmap.drop i).length < 2 := by
          rw [List.length_drop]
          omega
        match rest : bitmap.drop i, short with
        | [], _ => cases fuel <;> rfl
        | [_], _ => cases fuel <;> rfl

/-- The bitmap of a set of types has just the types of the set, and the reader ends on any octets. -/
theorem bitmapLoop_encodeTypeBitmap :
    (∀ (types : List RRType) (t : RRType), bitmapHas (encodeTypeBitmap types) t = true ↔ t ∈ types) ∧
      ∀ (bitmap : Octets) (t : RRType),
        bitmapLoop bitmap (t.toNat / 256) (t.toNat % 256) (bitmap.length + 1) 0 = some (bitmapHas bitmap t) := by
  refine ⟨bitmapHas_encodeTypeBitmap, fun bitmap t => ?_⟩
  exact bitmapLoop_eq bitmap _ _ _ 0 bitmap.length (by omega) (Nat.le_refl _)

end Trench.Dnssec
