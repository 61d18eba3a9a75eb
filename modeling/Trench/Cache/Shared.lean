import Mathlib
import Trench.Engine.Pipeline

set_option autoImplicit false

/- The cache table that the workers share. -/
namespace Trench.Cache

open Wire

structure CacheKey where
  qname : Octets
  qtype : RRType
  qclass : RRClass
  dnssecOk : Bool
  ecs : Text := []
  cd : Bool := false
  view : Text := []
  deriving DecidableEq

/-- The octets under the hash, every field of the key. -/
def keyOctets (key : CacheKey) : Octets :=
  let bar : Octets := [0x7C]
  let number := fun n : Nat => Engine.utf8 (Nat.toDigits 10 n)
  key.qname ++ bar ++ number key.qtype.toNat ++ bar ++ number key.qclass.toNat ++ bar ++
    number key.dnssecOk.toNat ++ bar ++ Engine.utf8 key.ecs ++ bar ++ number key.cd.toNat ++ bar ++
    Engine.utf8 key.view

/-- BLAKE2b to eight octets, as a number. -/
abbrev Digest := Octets → UInt64

def key64 (digest : Digest) (key : CacheKey) : UInt64 := digest (keyOctets key)

/-- Header and response of one slot; no octets, no response. -/
structure Slot where
  keyhash : UInt64 := 0
  inserted : ℚ := 0
  ttl : Int := 0
  wire : Octets := []

def Slot.blank : Slot := {}

structure SharedCache where
  slots : Nat
  payload : Nat
  table : Nat → Slot

namespace SharedCache

def bucket (c : SharedCache) (k : UInt64) : Nat := k.toNat % c.slots

def write (c : SharedCache) (k : UInt64) (slot : Slot) : SharedCache :=
  { c with table := Function.update c.table (c.bucket k) slot }

/-- The response and its remaining lifetime. -/
def get (c : SharedCache) (now : ℚ) (k : UInt64) : Option (Octets × ℚ) :=
  let slot := c.table (c.bucket k)
  if slot.keyhash ≠ k ∨ slot.wire = [] then none
  else
    let remaining := slot.ttl - (now - slot.inserted)
    if remaining ≤ 0 then none else some (slot.wire, remaining)

/-- A header that cannot be packed leaves the slot without a length. -/
def put (c : SharedCache) (now : ℚ) (k : UInt64) (wire : Octets) (ttl : Int) : SharedCache :=
  if wire = [] ∨ c.payload < wire.length ∨ ttl ≤ 0 then c
  else if 2 ^ 32 ≤ ttl ∨ 2 ^ 16 ≤ wire.length then c.write k .blank
  else c.write k ⟨k, now, ttl, wire⟩

def delete (c : SharedCache) (k : UInt64) : SharedCache :=
  if (c.table (c.bucket k)).keyhash = k then c.write k .blank else c

def clear (c : SharedCache) : SharedCache := { c with table := fun _ => .blank }

/-- A response that was found was put under this hash, and it is not expired. -/
theorem get_eq_some {c : SharedCache} {now : ℚ} {k : UInt64} {wire : Octets} {remaining : ℚ} :
    c.get now k = some (wire, remaining) ↔ (c.table (c.bucket k)).keyhash = k ∧
      (c.table (c.bucket k)).wire = wire ∧ wire ≠ [] ∧ 0 < remaining ∧
        remaining = (c.table (c.bucket k)).ttl - (now - (c.table (c.bucket k)).inserted) := by
  rw [get]
  dsimp only
  split
  · next miss =>
      refine ⟨nofun, ?_⟩
      rintro ⟨same, rfl, some, -⟩
      exact (miss.elim (fun other => other same) some).elim
  · next hit =>
      rw [not_or, not_not] at hit
      split
      · next expired =>
          refine ⟨nofun, ?_⟩
          rintro ⟨-, -, -, left, rfl⟩
          exact absurd left (not_lt_of_ge expired)
      · next left =>
          rw [Option.some.injEq, Prod.mk.injEq]
          constructor
          · rintro ⟨rfl, rfl⟩
            exact ⟨hit.1, rfl, hit.2, lt_of_not_ge left, rfl⟩
          · rintro ⟨-, rfl, -, -, rfl⟩
            exact ⟨rfl, rfl⟩

theorem write_cases (c : SharedCache) (k : UInt64) (slot : Slot) (b : Nat) :
    (c.write k slot).table b = c.table b ∨ (b = c.bucket k ∧ (c.write k slot).table b = slot) := by
  by_cases here : b = c.bucket k
  · refine .inr ⟨here, ?_⟩
    rw [here]
    exact Function.update_self (c.bucket k) slot c.table
  · exact .inl (Function.update_of_ne here _ _)

/-- A slot after a write is the one before or the one put. -/
theorem put_cases (c : SharedCache) (now : ℚ) (k : UInt64) (wire : Octets) (ttl : Int) (b : Nat) :
    (c.put now k wire ttl).table b = c.table b ∨ (c.put now k wire ttl).table b = .blank ∨
      (b = c.bucket k ∧ (c.put now k wire ttl).table b = ⟨k, now, ttl, wire⟩) := by
  rw [put]
  split
  · exact .inl rfl
  · split
    · exact (c.write_cases k .blank b).imp id fun blank => .inl blank.2
    · exact (c.write_cases k ⟨k, now, ttl, wire⟩ b).imp id .inr

theorem delete_cases (c : SharedCache) (k : UInt64) (b : Nat) :
    (c.delete k).table b = c.table b ∨ (c.delete k).table b = .blank := by
  rw [delete]
  split
  · exact (c.write_cases k .blank b).imp id And.right
  · exact .inl rfl

/-- Nothing is found among blank slots. -/
theorem get_blank {c : SharedCache} (blank : ∀ b, c.table b = .blank) (now : ℚ) (k : UInt64) :
    c.get now k = none := by
  rw [get, blank]
  exact if_pos (.inr rfl)

end SharedCache

end Trench.Cache
