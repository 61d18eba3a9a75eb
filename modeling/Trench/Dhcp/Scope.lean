import Mathlib
import Trench.Lib.Dict
import Trench.Wire.IpAddress

set_option autoImplicit false

/- The addresses of a DHCP scope and who holds them. -/
namespace Trench.Dhcp

open Wire

/-- `offered` where it is only held for a client that has not asked for it yet. -/
structure Lease where
  ip : UInt32
  mac : Text
  hostname : Text
  expire : ℚ
  offered : Bool
  deriving DecidableEq

/-- The settings of a scope; no two clients have one address reserved. -/
structure Scope where
  network : Text
  rangeStart : UInt32
  rangeEnd : UInt32
  router : Option UInt32 := none
  dns : List UInt32 := []
  leaseTime : ℤ := 86400
  reservations : Dict Text UInt32 := .empty
  maxLeases : Nat := 4096
  offerHold : ℤ := 60
  offerShare : ℚ := 1 / 4
  distinct : ∀ mac other ip, reservations.get? mac = some ip → reservations.get? other = some ip → mac = other

abbrev Leases := Dict Text Lease

def Lease.live (lease : Lease) (now : ℚ) : Bool := decide (now < lease.expire)

namespace Scope

/-- `_in_use`. -/
def inUse (s : Scope) (leases : Leases) (now : ℚ) (ip : UInt32) : Bool :=
  leases.entries.any (fun e => e.2.live now && decide (e.2.ip = ip)) ||
    s.reservations.entries.any fun e => decide (e.2 = ip)

/-- `_in_range`. -/
def inRange (s : Scope) (ip : UInt32) : Bool := decide (s.rangeStart ≤ ip) && decide (ip ≤ s.rangeEnd)

/-- `_offers`. -/
def offers (leases : Leases) (now : ℚ) : Nat := leases.entries.countP fun e => e.2.offered && e.2.live now

/-- `_offer_cap`. -/
def offerCap (s : Scope) : Nat :=
  max 4 ⌊((s.rangeEnd.toNat : ℚ) - s.rangeStart.toNat + 1) * s.offerShare⌋.toNat

/-- `_reap`. -/
def reap (s : Scope) (leases : Leases) (now : ℚ) : Leases :=
  if leases.size ≤ s.maxLeases then leases else leases.keep fun e => e.2.live now

/-- The first address of the pool that is free. -/
def firstFree (s : Scope) (leases : Leases) (now : ℚ) : Option UInt32 :=
  ((List.range (s.rangeEnd.toNat + 1 - s.rangeStart.toNat)).map fun n =>
    UInt32.ofNat (s.rangeStart.toNat + n)).find? fun ip => !s.inUse leases now ip

/-- `_grant`. -/
def grant (s : Scope) (leases : Leases) (mac : Text) (ip : UInt32) (hostname : Text) (now : ℚ)
    (offer : Bool) : Lease × Leases :=
  let hold := if offer then min s.offerHold s.leaseTime else s.leaseTime
  let lease : Lease := ⟨ip, mac, hostname, now + hold, offer⟩
  (lease, leases.set mac lease)

/-- `allocate`. -/
def allocate (s : Scope) (leases : Leases) (mac hostname : Text) (requested : Option UInt32) (now : ℚ)
    (offer : Bool) : Option Lease × Leases :=
  let mac := mac.map Char.toLower
  let leases := s.reap leases now
  let existing := (leases.get? mac).filter (·.live now)
  let granted (ip : UInt32) : Option Lease × Leases :=
    let (lease, leases) := s.grant leases mac ip hostname now offer
    (some lease, leases)
  if offer = true ∧ existing.isSome = true then (existing, leases)
  else
    match s.reservations.get? mac with
    | some ip => granted ip
    | none =>
        match existing with
        | some lease => granted lease.ip
        | none =>
            if offer = true ∧ s.offerCap ≤ offers leases now then (none, leases)
            else
              match requested.filter fun ip => !s.inUse leases now ip && s.inRange ip with
              | some ip => granted ip
              | none =>
                  match s.firstFree leases now with
                  | some ip => granted ip
                  | none => (none, leases)

/-- `release`: the address that is free again, where there is one. -/
def release (leases : Leases) (mac : Text) (ciaddr : Option UInt32) : Option UInt32 × Leases :=
  let mac := mac.map Char.toLower
  match leases.get? mac with
  | none => (none, leases)
  | some held =>
      if ciaddr.any fun ip => decide (held.ip ≠ ip) then (none, leases) else (some held.ip, leases.erase mac)

end Scope

end Trench.Dhcp
