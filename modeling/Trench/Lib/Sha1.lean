import Mathlib

set_option autoImplicit false

/- SHA-1 over octets. -/
namespace Sha1

/-- The five chaining words. -/
structure State where
  a : UInt32
  b : UInt32
  c : UInt32
  d : UInt32
  e : UInt32

def start : State := ⟨0x67452301, 0xEFCDAB89, 0x98BADCFE, 0x10325476, 0xC3D2E1F0⟩

def rotate (x n : UInt32) : UInt32 := (x <<< n) ||| (x >>> (32 - n))

/-- The bitwise function of a round and its constant. -/
def mix (round : Nat) (b c d : UInt32) : UInt32 × UInt32 :=
  if round < 20 then ((b &&& c) ||| (~~~ b &&& d), 0x5A827999)
  else if round < 40 then (b ^^^ c ^^^ d, 0x6ED9EBA1)
  else if round < 60 then ((b &&& c) ||| (b &&& d) ||| (c &&& d), 0x8F1BBCDC)
  else (b ^^^ c ^^^ d, 0xCA62C1D6)

/-- The rounds that are left; the window holds the next sixteen words of the schedule. -/
def rounds : Nat → List UInt32 → State → State
  | 0, _, s => s
  | left + 1, window, s =>
      let word := window.getD 0 0
      let next := rotate (window.getD 13 0 ^^^ window.getD 8 0 ^^^ window.getD 2 0 ^^^ word) 1
      let (f, k) := mix (79 - left) s.b s.c s.d
      let a := rotate s.a 5 + f + s.e + k + word
      rounds left (window.tail ++ [next]) ⟨a, s.a, rotate s.b 30, s.c, s.d⟩

def compress (s : State) (block : List UInt32) : State :=
  let t := rounds 80 block s
  ⟨s.a + t.a, s.b + t.b, s.c + t.c, s.d + t.d, s.e + t.e⟩

/-- The octets of a number, the highest first. -/
def octets (width : Nat) (n : Nat) : List UInt8 :=
  (List.range width).map fun i => UInt8.ofNat (n / 256 ^ (width - 1 - i))

def pad (message : List UInt8) : List UInt8 :=
  message ++ 0x80 :: List.replicate ((119 - message.length % 64) % 64) 0 ++
    octets 8 (8 * message.length)

def words : List UInt8 → List UInt32
  | w :: x :: y :: z :: rest =>
      UInt32.ofNat (((w.toNat * 256 + x.toNat) * 256 + y.toNat) * 256 + z.toNat) :: words rest
  | _ => []

def blocks : Nat → List UInt32 → State → State
  | 0, _, s => s
  | left + 1, ws, s => blocks left (ws.drop 16) (compress s (ws.take 16))

def hash (message : List UInt8) : List UInt8 :=
  let ws := words (pad message)
  let s := blocks (ws.length / 16) ws start
  [s.a, s.b, s.c, s.d, s.e].flatMap fun w => octets 4 w.toNat

/-- HMAC over the hash, whose blocks have 64 octets. -/
def hmac (key message : List UInt8) : List UInt8 :=
  let key := if 64 < key.length then hash key else key
  let key := key ++ List.replicate (64 - key.length) 0
  hash (key.map (· ^^^ 0x5C) ++ hash (key.map (· ^^^ 0x36) ++ message))

theorem hash_length (message : List UInt8) : (hash message).length = 20 := by
  simp only [hash, List.flatMap_cons, List.flatMap_nil, List.length_append, octets, List.length_map,
    List.length_range, List.length_nil]

example : hash [0x61, 0x62, 0x63] =
    [0xA9, 0x99, 0x3E, 0x36, 0x47, 0x06, 0x81, 0x6A, 0xBA, 0x3E, 0x25, 0x71, 0x78, 0x50, 0xC2, 0x6C,
      0x9C, 0xD0, 0xD8, 0x9D] := by decide +kernel

end Sha1
