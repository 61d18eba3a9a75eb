import Mathlib
import Trench.Lib.Cursor
import Trench.Wire.Name

set_option autoImplicit false

namespace Trench.Wire

open Cursor (Parser Parses Ensures)

/-- The bounds-checked read cursor over a DNS message. -/
abbrev Reader := Cursor UInt8

abbrev Read (α : Type) := Parser WireError UInt8 α

/-! ### Big-endian fields -/

def octets16 (v : UInt16) : Octets := [UInt8.ofNat (v.toNat / 256), UInt8.ofNat (v.toNat % 256)]

def octets32 (v : UInt32) : Octets :=
  octets16 (UInt16.ofNat (v.toNat / 65536)) ++ octets16 (UInt16.ofNat (v.toNat % 65536))

def join16 (a b : UInt8) : UInt16 := UInt16.ofNat (a.toNat * 256 + b.toNat)

def join32 (a b : UInt16) : UInt32 := UInt32.ofNat (a.toNat * 65536 + b.toNat)

theorem join16_octets16 (v : UInt16) :
    join16 (UInt8.ofNat (v.toNat / 256)) (UInt8.ofNat (v.toNat % 256)) = v := by
  have bound := v.toNat_lt
  apply UInt16.toNat_inj.mp
  simp only [join16, UInt16.toNat_ofNat', UInt8.toNat_ofNat']
  omega

theorem join32_halves (v : UInt32) :
    join32 (UInt16.ofNat (v.toNat / 65536)) (UInt16.ofNat (v.toNat % 65536)) = v := by
  have bound := v.toNat_lt
  apply UInt32.toNat_inj.mp
  simp only [join32, UInt32.toNat_ofNat', UInt16.toNat_ofNat']
  omega

@[simp] theorem length_octets16 (v : UInt16) : (octets16 v).length = 2 := rfl
@[simp] theorem length_octets32 (v : UInt32) : (octets32 v).length = 4 := rfl

/-! ### Reader -/

namespace Reader

def tell : Read Nat := fun r => .ok (r.pos, r)

def remaining (r : Reader) : Nat := r.buf.length - r.pos

/-- `Reader.read`; a negative count is refused like a count past the end. -/
def read (n : Int) : Read Octets := fun r =>
  if n < 0 ∨ r.buf.length < r.pos + n.toNat then .error (.readPastEnd n r.pos r.buf.length)
  else .ok (r.rest.take n.toNat, r.advance n.toNat)

def u8 : Read UInt8 := fun r =>
  match r.rest with
  | v :: _ => .ok (v, r.advance 1)
  | [] => .error .u8PastEnd

def u16 : Read UInt16 := fun r =>
  match r.rest with
  | a :: b :: _ => .ok (join16 a b, r.advance 2)
  | _ => .error .u16PastEnd

def u32 : Read UInt32 := fun r =>
  match r.rest with
  | a :: b :: c :: d :: _ => .ok (join32 (join16 a b) (join16 c d), r.advance 4)
  | _ => .error .u32PastEnd

def seek (pos : Nat) : Read Unit := fun r =>
  if r.buf.length < pos then .error .seekOutOfRange else .ok ((), { r with pos := pos })

theorem parses_tell (pos : Nat) : Parses tell pos [] pos := by
  intro c tail here
  rw [← here.pos_eq]
  rfl

theorem parses_u8 (pos : Nat) (v : UInt8) : Parses u8 pos [v] v := by
  intro c tail here
  simp only [u8, here.rest_eq, List.cons_append, List.length_singleton]

theorem parses_u16 (pos : Nat) (v : UInt16) : Parses u16 pos (octets16 v) v := by
  intro c tail here
  simp only [u16, here.rest_eq, octets16, List.cons_append, join16_octets16, List.length_cons,
    List.length_nil]

theorem parses_u32 (pos : Nat) (v : UInt32) : Parses u32 pos (octets32 v) v := by
  intro c tail here
  simp only [u32, here.rest_eq, octets32, octets16, List.cons_append, List.nil_append,
    join16_octets16, join32_halves, List.length_cons, List.length_nil]

theorem parses_read (pos : Nat) (bytes : Octets) (n : Int) (count : n = bytes.length) :
    Parses (read n) pos bytes bytes := by
  intro c tail here
  subst count
  have total := congrArg List.length here.rest_eq
  rw [Cursor.length_rest, List.length_append] at total
  have inside := here.inside
  have fits : ¬ ((bytes.length : Int) < 0 ∨ c.buf.length < c.pos + bytes.length) := by omega
  simp only [read, Int.toNat_natCast, fits, ↓reduceIte, here.rest_eq, List.take_left]

theorem ensures_read (n : Int) :
    Ensures (read n) (fun bytes => (bytes.length : Int) = n) := by
  intro c v next h
  simp only [read] at h
  split at h
  · cases h
  · next fits =>
      cases h
      rw [List.length_take, Cursor.length_rest]
      omega

/-- A counted string is at most 255 octets long. -/
theorem ensures_counted (n : UInt8) :
    Ensures (read n.toNat) (fun bytes => bytes.length ≤ 255) :=
  (ensures_read _).mono fun v same => by
    have bound := n.toNat_lt
    omega

end Reader

/-! ### Writer -/

/-- Append-only buffer with the name-compression table: suffix key to offset. -/
structure Writer where
  buf : Octets
  names : List (Octets × Nat)
  deriving DecidableEq

namespace Writer

def empty : Writer := ⟨[], []⟩

def tell (w : Writer) : Nat := w.buf.length

def raw (w : Writer) (bytes : Octets) : Writer := { w with buf := w.buf ++ bytes }

def u8 (w : Writer) (v : UInt8) : Writer := w.raw [v]

def u16 (w : Writer) (v : UInt16) : Writer := w.raw (octets16 v)

def u32 (w : Writer) (v : UInt32) : Writer := w.raw (octets32 v)

/-- Write a placeholder, return its offset for `patchU16`. -/
def reserveU16 (w : Writer) : Nat × Writer := (w.tell, w.raw [0, 0])

def patchU16 (w : Writer) (pos : Nat) (v : UInt16) : Writer :=
  { w with buf := w.buf.take pos ++ octets16 v ++ w.buf.drop (pos + 2) }

@[simp] theorem raw_buf (w : Writer) (bytes : Octets) : (w.raw bytes).buf = w.buf ++ bytes := rfl
@[simp] theorem raw_names (w : Writer) (bytes : Octets) : (w.raw bytes).names = w.names := rfl

theorem raw_raw (w : Writer) (first second : Octets) :
    (w.raw first).raw second = w.raw (first ++ second) := by
  simp only [raw, List.append_assoc]

@[simp] theorem raw_nil (w : Writer) : w.raw [] = w := by simp only [raw, List.append_nil]

/-- Patching a reserved length gives the buffer that was written with it. -/
theorem patch_reserved (w : Writer) (body : Octets) (v : UInt16) :
    ((w.reserveU16.2).raw body).patchU16 w.reserveU16.1 v = (w.u16 v).raw body := by
  simp only [reserveU16, patchU16, u16, raw, tell, List.append_assoc, List.take_left,
    Writer.mk.injEq, and_true]
  rw [List.drop_append]
  simp

end Writer

end Trench.Wire
