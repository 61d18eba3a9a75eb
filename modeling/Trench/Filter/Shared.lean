import Mathlib
import Trench.Lib.Dict
import Trench.Lib.Probing
import Trench.Wire.Name

set_option autoImplicit false

/- The shared blocklist table: an open-addressed array of 64-bit words, each the
packed position, length and source of a domain in one blob of UTF-8. The header and
the JSON tail of the file are the fields of `TableFile`. -/

namespace Trench.Filter

open Wire

def magic : String := "DGBT"

def version : Nat := 1

def minSlots : Nat := 1024

def maxLen : Nat := 0xFF

def maxSources : Nat := 0xFFFF

def offShift : Nat := 24

def lenShift : Nat := 16

inductive TableFault where
  | endless
  | blobAssignment
  | slotRange
  | sourceIndex
  | format
  deriving DecidableEq, Repr

/-- `str.encode()`. -/
def encode (domain : Text) : List UInt8 := (String.ofList domain).toByteArray.data.toList

theorem encode_injective {a b : Text} (same : encode a = encode b) : a = b := by
  apply String.ofList_injective
  apply String.toByteArray_inj.mp
  apply ByteArray.ext
  exact Array.toList_inj.mp same

theorem encode_append (a b : Text) : encode (a ++ b) = encode a ++ encode b := by
  unfold encode
  rw [String.ofList_append, String.toByteArray_append, ByteArray.data_append, Array.toList_append]

def crcStep (crc : UInt32) : UInt32 :=
  if crc &&& 1 = 1 then (crc >>> 1) ^^^ 0xEDB88320 else crc >>> 1

/-- `zlib.crc32`. -/
def crc32 (raw : List UInt8) : Nat :=
  (raw.foldl (fun crc octet => crcStep^[8] (crc ^^^ octet.toUInt32)) 0xFFFFFFFF
    ^^^ 0xFFFFFFFF).toNat

example : crc32 (encode "123456789".toList) = 0xCBF43926 := by decide +kernel

def packSlot (offset length source : Nat) : Nat :=
  (offset <<< offShift) ||| (length <<< lenShift) ||| source

def slotOffset (word : Nat) : Nat := word >>> offShift

def slotLength (word : Nat) : Nat := (word >>> lenShift) &&& maxLen

def slotSource (word : Nat) : Nat := word &&& maxSources

theorem packSlot_eq {offset length source : Nat} (short : length ≤ maxLen)
    (known : source < 2 ^ 16) :
    packSlot offset length source = (offset * 2 ^ 8 + length) * 2 ^ 16 + source := by
  unfold maxLen at short
  unfold packSlot offShift lenShift
  have high : offset <<< 24 ||| length <<< 16 = (offset <<< 8 + length) <<< 16 := by
    rw [Nat.shiftLeft_add_eq_or_of_lt (show length < 2 ^ 8 by omega), Nat.shiftLeft_or_distrib,
      ← Nat.shiftLeft_add]
  rw [high, ← Nat.shiftLeft_add_eq_or_of_lt known, Nat.shiftLeft_eq, Nat.shiftLeft_eq]

section Words

variable {offset length source : Nat} (short : length ≤ maxLen) (known : source < 2 ^ 16)
include short known

theorem slotOffset_packSlot : slotOffset (packSlot offset length source) = offset := by
  unfold slotOffset offShift
  rw [packSlot_eq short known, Nat.shiftRight_eq_div_pow]
  unfold maxLen at short
  omega

theorem slotLength_packSlot : slotLength (packSlot offset length source) = length := by
  unfold slotLength lenShift maxLen
  rw [packSlot_eq short known, Nat.shiftRight_eq_div_pow,
    show (0xFF : Nat) = 2 ^ 8 - 1 from rfl, Nat.and_two_pow_sub_one_eq_mod]
  unfold maxLen at short
  omega

theorem slotSource_packSlot : slotSource (packSlot offset length source) = source := by
  unfold slotSource maxSources
  rw [packSlot_eq short known, show (0xFFFF : Nat) = 2 ^ 16 - 1 from rfl,
    Nat.and_two_pow_sub_one_eq_mod]
  omega

theorem packSlot_ne_zero (some_octet : length ≠ 0) : packSlot offset length source ≠ 0 := by
  rw [packSlot_eq short known]
  omega

theorem packSlot_range : 2 ^ 64 ≤ packSlot offset length source ↔ 2 ^ 40 ≤ offset := by
  rw [packSlot_eq short known]
  unfold maxLen at short
  omega

end Words

def slice (blob : List UInt8) (start length : Nat) : List UInt8 := (blob.drop start).take length

/-- The octets a word points at. -/
def slotKey (blob : List UInt8) (word : Nat) : List UInt8 :=
  slice blob (slotOffset word) (slotLength word)

def doubleUntil (n : Nat) : Nat → Nat → Nat
  | 0, p => p
  | fuel + 1, p => if p < n then doubleUntil n fuel (p <<< 1) else p

def nextPow2 (n : Nat) : Nat := doubleUntil n n minSlots

theorem doubleUntil_pow (n : Nat) : ∀ fuel p, (∃ k, p = 2 ^ k) → ∃ k, doubleUntil n fuel p = 2 ^ k
  | 0, p, power => power
  | fuel + 1, p, power => by
      unfold doubleUntil
      split
      · apply doubleUntil_pow
        obtain ⟨k, rfl⟩ := power
        exact ⟨k + 1, by rw [Nat.shiftLeft_eq, pow_one, pow_succ]⟩
      · exact power

theorem le_doubleUntil (n : Nat) : ∀ fuel p, 0 < p → n ≤ fuel + p → n ≤ doubleUntil n fuel p
  | 0, p, _, enough => by
      unfold doubleUntil
      omega
  | fuel + 1, p, positive, enough => by
      unfold doubleUntil
      split
      · apply le_doubleUntil n fuel
        · rw [Nat.shiftLeft_eq]
          omega
        · rw [Nat.shiftLeft_eq]
          omega
      · omega

/-- `int(n / 0.7)`: the double quotient is within 1/7 of the exact one for every
list that memory holds, so that both have the same integer part. -/
def overLoadFactor (n : Nat) : Nat := n * 10 / 7

def slotCount (items : List (Text × Text)) : Nat :=
  if items.isEmpty then minSlots else nextPow2 (overLoadFactor items.length + 1)

theorem slotCount_pow (items : List (Text × Text)) : ∃ k, slotCount items = 2 ^ k := by
  unfold slotCount
  split
  · exact ⟨10, rfl⟩
  · exact doubleUntil_pow _ _ _ ⟨10, rfl⟩

theorem length_lt_slotCount (items : List (Text × Text)) : items.length < slotCount items := by
  unfold slotCount
  split
  · next empty =>
      rw [List.isEmpty_iff.mp empty]
      decide
  · have room : overLoadFactor items.length + 1 ≤ nextPow2 (overLoadFactor items.length + 1) :=
      le_doubleUntil _ _ _ (by decide) (by omega)
    unfold overLoadFactor at room ⊢
    omega

def blobCapacity (items : List (Text × Text)) : Nat :=
  match (items.map fun item => item.1.length).sum with
  | 0 => 1
  | total => total

/-- The loop of both `build` and `get`: from the home slot on, the first slot that is
empty or points at `raw`. `none` is a loop that goes round for ever. -/
def probe (slots : List Nat) (blob : List UInt8) (mask : Nat) (raw : List UInt8) : Option Nat :=
  Probing.seek (fun word => word == 0 || slotKey blob word == raw) slots mask slots.length
    (crc32 raw &&& mask)

structure Building where
  slots : List Nat
  blob : List UInt8
  sources : List Text
  counts : Dict Text Nat
  write : Nat
  n : Nat

namespace Building

/-- `source_id` with the list it indexes; `none` when there is no identifier left. -/
def sourceId (sources : List Text) (source : Text) : Option (Nat × List Text) :=
  match sources.idxOf? source with
  | some sid => some (sid, sources)
  | none =>
    if maxSources ≤ sources.length then none
    else some (sources.length, sources ++ [source])

/-- A slice assignment to the blob, which cannot make it longer. -/
def writeBlob (blob : List UInt8) (write : Nat) (raw : List UInt8) : Except TableFault (List UInt8) :=
  if blob.length < write + raw.length then .error .blobAssignment
  else .ok (blob.take write ++ raw ++ blob.drop (write + raw.length))

/-- An item assignment to a view of unsigned 64-bit words. -/
def writeSlot (slots : List Nat) (i word : Nat) : Except TableFault (List Nat) :=
  if 2 ^ 64 ≤ word then .error .slotRange else .ok (slots.set i word)

/-- A domain that is not there yet goes to the empty slot `i`. -/
def file (b : Building) (i : Nat) (raw : List UInt8) (source : Text) :
    Except TableFault Building :=
  match sourceId b.sources source with
  | none => .ok b
  | some (sid, sources) => do
    let blob ← writeBlob b.blob b.write raw
    let slots ← writeSlot b.slots i (packSlot b.write raw.length sid)
    return { slots, blob, sources
             counts := b.counts.set source ((b.counts.get? source).getD 0 + 1)
             write := b.write + raw.length
             n := b.n + 1 }

/-- One turn of the loop over the items. -/
def add (mask : Nat) (b : Building) (item : Text × Text) : Except TableFault Building :=
  let raw := encode item.1
  if raw.length = 0 ∨ maxLen < raw.length then .ok b
  else
    match probe b.slots b.blob mask raw with
    | none => .error .endless
    | some i =>
      if b.slots.getD i 0 ≠ 0 then .ok b else file b i raw item.2

def start (items : List (Text × Text)) : Building where
  slots := List.replicate (slotCount items) 0
  blob := List.replicate (blobCapacity items) 0
  sources := []
  counts := Dict.empty
  write := 0
  n := 0

end Building

structure TableFile where
  magic : String
  version : Nat
  nslots : Nat
  n : Nat
  slots : List Nat
  blob : List UInt8
  sources : List Text
  counts : Dict Text Nat

/-- `token` names the file that the table was opened from, if it was. -/
structure SharedBlockTable where
  slots : Option (List Nat)
  blob : List UInt8
  mask : Nat
  n : Nat
  sources : List Text
  sourceCounts : Dict Text Nat
  removed : Finset Text
  token : Option Nat := none

namespace SharedBlockTable

/-- The table of a process that has none. -/
def empty : SharedBlockTable where
  slots := none
  blob := []
  mask := 0
  n := 0
  sources := []
  sourceCounts := Dict.empty
  removed := ∅

def attach (file : TableFile) : Except TableFault SharedBlockTable :=
  if file.magic ≠ Filter.magic then .error .format
  else if file.version ≠ Filter.version then .error .format
  else .ok
    { slots := some (file.slots.take file.nslots)
      blob := file.blob
      mask := file.nslots - 1
      n := file.n
      sources := file.sources
      sourceCounts := file.counts
      removed := ∅ }

/-- What `build` writes: the slack of the blob is left out. -/
def image (items : List (Text × Text)) : Except TableFault TableFile := do
  let b ← items.foldlM (Building.add (slotCount items - 1)) (Building.start items)
  return { magic := Filter.magic
           version := Filter.version
           nslots := slotCount items
           n := b.n
           slots := b.slots
           blob := b.blob.take b.write
           sources := b.sources
           counts := b.counts }

def build (items : List (Text × Text)) : Except TableFault SharedBlockTable :=
  image items >>= attach

/-- What is at the path of a table: its identity, which every replacement changes, and
its content. -/
abbrev Disk := Option (Nat × TableFile)

/-- `open`, of the file that is at the path. -/
def openAt (token : Nat) (file : TableFile) : Except TableFault SharedBlockTable := do
  let t ← attach file
  return { t with token := some token }

/-- `build` with a path: the file it puts there and the table opened from it. -/
def buildAt (token : Nat) (items : List (Text × Text)) :
    Except TableFault (TableFile × SharedBlockTable) := do
  let file ← image items
  let t ← openAt token file
  return (file, t)

/-- The file that the table was opened from has been replaced since. -/
def stale (t : SharedBlockTable) (disk : Disk) : Bool :=
  match t.token, disk with
  | some token, some (now, _) => now != token
  | _, _ => false

def get (t : SharedBlockTable) (domain : Text) : Except TableFault (Option Text) :=
  if t.n = 0 then .ok none
  else
    match t.slots with
    | none => .ok none
    | some slots =>
      match probe slots t.blob t.mask (encode domain) with
      | none => .error .endless
      | some i =>
        let word := slots.getD i 0
        if word = 0 then .ok none
        else if domain ∈ t.removed then .ok none
        else
          match t.sources[slotSource word]? with
          | none => .error .sourceIndex
          | some source => .ok (some source)

def len (t : SharedBlockTable) : Int := t.n - t.removed.card

def discard (t : SharedBlockTable) (domain : Text) : Except TableFault SharedBlockTable := do
  let found ← t.get domain
  return if found.isSome then { t with removed := insert domain t.removed } else t

end SharedBlockTable

end Trench.Filter
