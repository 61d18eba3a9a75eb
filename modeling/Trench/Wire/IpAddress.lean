import Mathlib
import Trench.Wire.Address

set_option autoImplicit false

/- Addresses and networks, as the `ipaddress` library reads them. -/
namespace Trench.Wire

/-- `IPv4Address` and `IPv6Address`, the latter with its scope. -/
structure IpAddress where
  six : Bool
  value : Nat
  scope : Option Text := none
  deriving DecidableEq

def addressBits (six : Bool) : Nat := if six then 128 else 32

/-- The number that is written with these octets. -/
def addressValue (octets : Octets) : Nat := octets.foldl (fun n o => n * 256 + o.toNat) 0

/-- The octets of an address, the highest first. -/
def addressOctets (six : Bool) (value : Nat) : Octets :=
  let size := addressBits six / 8
  (List.range size).map fun i => UInt8.ofNat (value / 256 ^ (size - 1 - i))

def ipv4Address (s : Text) : Option IpAddress := do
  if '/' ∈ s then none else
  let octets ← inetPton4 s
  some { six := false, value := addressValue octets }

def ipv6Address (s : Text) : Option IpAddress := do
  if '/' ∈ s then none else
  let scope := s.dropWhile (· ≠ '%')
  let octets ← inetPton6 (s.takeWhile (· ≠ '%'))
  match scope with
  | [] => some { six := true, value := addressValue octets }
  | _ :: name =>
      if name = [] ∨ '%' ∈ name then none
      else some { six := true, value := addressValue octets, scope := some name }

/-- `ip_address`. -/
def ipAddress (s : Text) : Option IpAddress := (ipv4Address s).or (ipv6Address s)

/-- `value` is the address with the bits behind the prefix cleared. -/
structure IpNetwork where
  six : Bool
  value : Nat
  prefixlen : Nat
  deriving DecidableEq

/-- `_prefix_from_prefix_string`. -/
def prefixOfDigits (six : Bool) (s : Text) : Option Nat :=
  if s = [] ∨ s.all Name.isDigit = false then none
  else
    let n := s.foldl (fun n d => n * 10 + (d.toNat - 48)) 0
    if n ≤ addressBits six then some n else none

/-- `_prefix_from_ip_int`: ones, then zeros. -/
def prefixOfMask (mask : Nat) : Option Nat :=
  (List.range 33).find? fun p => mask = 2 ^ 32 - 2 ^ (32 - p)

/-- `_make_netmask`; a mask may be written as an address for IPv4 only, the ones in front or behind. -/
def makeNetmask (six : Bool) (s : Text) : Option Nat :=
  (prefixOfDigits six s).or
    (if six then none
      else (inetPton4 s).bind fun octets =>
        (prefixOfMask (addressValue octets)).or (prefixOfMask (2 ^ 32 - 1 - addressValue octets)))

/-- An address without the bits behind the prefix. -/
def masked (six : Bool) (value prefixlen : Nat) : Nat :=
  let host := 2 ^ (addressBits six - prefixlen)
  value / host * host

def networkOf (address : Text → Option IpAddress) (six : Bool) (s : Text) : Option IpNetwork :=
  match s.splitOn '/' with
  | [a] => (address a).map fun ip => ⟨six, ip.value, addressBits six⟩
  | [a, mask] => do
      let ip ← address a
      let prefixlen ← makeNetmask six mask
      some ⟨six, masked six ip.value prefixlen, prefixlen⟩
  | _ => none

/-- `ip_network(s, strict=False)`. -/
def ipNetwork (s : Text) : Option IpNetwork := (networkOf ipv4Address false s).or (networkOf ipv6Address true s)

/-- `ip in net`. -/
def IpNetwork.contains (net : IpNetwork) (ip : IpAddress) : Bool :=
  net.six == ip.six && masked ip.six ip.value net.prefixlen == net.value

theorem ipAddress_nil : ipAddress [] = none := by decide

theorem six_of_ipv6Address {s : Text} {addr : IpAddress} (read : ipv6Address s = some addr) : addr.six = true := by
  rw [ipv6Address] at read
  split at read
  · cases read
  · obtain ⟨octets, -, read⟩ := Option.bind_eq_some_iff.mp read
    split at read
    · cases read
      rfl
    · split at read
      · cases read
      · cases read
        rfl

/-- What reads as an address of the fourth version is a dotted quad. -/
theorem quad_of_ipAddress {s : Text} {addr : IpAddress} (read : ipAddress s = some addr) (four : addr.six = false) :
    (inetPton4 s).isSome = true := by
  rw [ipAddress] at read
  rcases Option.or_eq_some_iff.mp read with quad | ⟨-, six⟩
  · rw [ipv4Address] at quad
    split at quad
    · cases quad
    · obtain ⟨octets, held, -⟩ := Option.bind_eq_some_iff.mp quad
      exact Option.isSome_iff_exists.mpr ⟨octets, held⟩
  · rw [six_of_ipv6Address six] at four
    cases four

/-- An address without a mask is a network of its own. -/
theorem masked_bits (six : Bool) (value : Nat) : masked six value (addressBits six) = value := by
  rw [masked, Nat.sub_self, pow_zero, Nat.div_one, Nat.mul_one]

theorem masked_masked (six : Bool) (value prefixlen : Nat) :
    masked six (masked six value prefixlen) prefixlen = masked six value prefixlen := by
  simp only [masked]
  rw [Nat.mul_div_cancel _ (Nat.two_pow_pos _)]

end Trench.Wire
