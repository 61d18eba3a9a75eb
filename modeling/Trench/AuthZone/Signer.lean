import Mathlib
import Trench.AuthZone.Tsig
import Trench.AuthZone.ZoneNames

set_option autoImplicit false

/- The zone signer. The hashes and the elliptic curve are parameters; everything fed
into them is modelled. -/
namespace Trench.AuthZone

open Wire
open Dnssec (nsec3Hash nsec3B32 encodeTypeBitmap)

/-- What the signer takes from outside: two hashes, a fresh private key, the two
coordinates of its public key, and a signature as the octets of its two numbers. -/
structure Crypto where
  sha1 : Octets → Octets
  sha1_length : ∀ data, (sha1 data).length = 20
  sha256 : Octets → Octets
  generate : Octets
  publicKey : Octets → Octets
  sign : Octets → Octets → Octets

/-- What signing can raise: data that cannot be written, or a number wider than its
field. -/
inductive SignError where
  | emit (e : EmitError)
  | overflow
  deriving DecidableEq

def sigValidity : Int := 30 * 86400

/-! ### Keys -/

/-- `_dnskey_rdata`. -/
def dnskeyRdata (dnskey : DnskeyData) : Octets := (Rdata.emitDnskey dnskey Writer.empty).buf

/-- The sum of `key_tag`, even octets as high ones. -/
def keyTagSum (rdata : Octets) : Nat :=
  (rdata.zipIdx.map fun (b, i) => if i % 2 = 0 then b.toNat * 256 else b.toNat).sum

def keyTag (dnskey : DnskeyData) : UInt16 :=
  let rdata := dnskeyRdata dnskey
  if dnskey.algorithm = 1 then
    join16 (rdata.getD (rdata.length - 3) 0) (rdata.getD (rdata.length - 2) 0)
  else
    let acc := keyTagSum rdata
    UInt16.ofNat (acc + acc / 65536 % 65536)

/-! ### The data of a signature -/

def canonRdata (rd : Rdata) : Except SignError Octets :=
  let canonical : Rdata :=
    match rd with
    | .ns name => .ns name.canonicalize
    | .cname name => .cname name.canonicalize
    | .ptr name => .ptr name.canonicalize
    | .dname name => .dname name.canonicalize
    | .mx d => .mx { d with exchange := d.exchange.canonicalize }
    | .srv d => .srv { d with target := d.target.canonicalize }
    | .soa d => .soa { d with mname := d.mname.canonicalize, rname := d.rname.canonicalize }
    | .naptr d => .naptr { d with replacement := d.replacement.canonicalize }
    | other => other
  match canonical.emit Writer.empty with
  | .ok w => .ok w.buf
  | .error e => .error (.emit e)

/-- The records of a set behind the signature's own fields, ordered by their data. -/
def signedData (owner : Name) (rtype : RRType) (rclass : RRClass) (rrsig : RrsigData)
    (rdatas : List Rdata) : Except SignError Octets := do
  let w := (((Writer.empty.u16 rrsig.typeCovered).u8 rrsig.algorithm).u8 rrsig.labels).u32
    rrsig.originalTtl
  let w := (((w.u32 rrsig.expiration).u32 rrsig.inception).u16 rrsig.keyTag).raw
    (canonName rrsig.signer)
  let front := canonName owner ++ octets16 rtype ++ octets16 rclass ++
    octets32 rrsig.originalTtl
  let bodies ← rdatas.mapM canonRdata
  if bodies.any fun body => body.length > 65535 then throw .overflow
  let sorted := bodies.insertionSort (· ≤ ·)
  return w.buf ++ sorted.flatMap fun body =>
    front ++ octets16 (UInt16.ofNat body.length) ++ body

/-! ### Names -/

namespace Zone

/-- `_cuts`. -/
def cuts (z : Zone) : List Name :=
  (z.records.entries.filter fun entry => entry.1 != z.origin && entry.2.contains RRType.ns &&
    !entry.2.contains RRType.soa).map Prod.fst

def occludedFrom (z : Zone) (cuts : List Name) : List Label → Bool
  | [] => false
  | label :: rest =>
      if (label :: rest).length > z.origin.labels.length then
        cuts.any (· == ⟨label :: rest⟩) || z.occludedFrom cuts rest
      else false

/-- Strictly below a cut. -/
def occluded (z : Zone) (name : Name) (cuts : List Name) : Bool :=
  z.occludedFrom cuts name.parent.labels

def chainNames (z : Zone) (cuts : List Name) : List Name :=
  z.names.filter fun n => !z.occluded n cuts

/-- At a delegation only NS and DS are the zone's own. -/
def presentTypes (z : Zone) (name : Name) (cuts : List Name) : List RRType :=
  let types := (z.node name).entries.map Prod.fst
  if cuts.any (· == name) then types.filter fun t => t == RRType.ns || t == RRType.ds else types

/-- `_denial_ttl`, written as `Zone._negative_ttl` is. -/
def denialTtl (z : Zone) : Int := z.negativeTtl

/-- The loop over the ancestors of an owner that own nothing themselves. -/
def emptyAbove (z : Zone) : List Label → List Name
  | [] => []
  | label :: rest =>
      if (label :: rest).length > z.origin.labels.length ∧
          z.records.contains ⟨label :: rest⟩ = false then
        ⟨label :: rest⟩ :: z.emptyAbove rest
      else []

/-- Each empty non-terminal once. -/
def emptyNonTerminals (z : Zone) (owners : List Name) : List Name :=
  (owners.flatMap fun name => z.emptyAbove name.parent.labels).foldl
    (fun ents n => if ents.any (· == n) then ents else ents ++ [n]) []

end Zone

/-! ### The denial chains -/

/-- A hash of a name. -/
structure Digest where
  octets : Octets
  width : octets.length = 20

theorem nsec3B32_length (h : Octets) : (nsec3B32 h).length = (8 * h.length + 4) / 5 := by
  rw [nsec3B32, Dnssec.b32encode, List.length_map, List.length_map, List.length_map,
    Dnssec.base32Digits, Digits.length_spell]

/-- The label of a hashed owner. -/
def Digest.label (digest : Digest) : Label where
  octets := (nsec3B32 digest.octets).map fun c => UInt8.ofNat c.toNat
  nonempty := by
    rw [List.length_map, nsec3B32_length, digest.width]
    decide
  bounded := by
    rw [List.length_map, nsec3B32_length, digest.width]
    decide

namespace Crypto

variable (crypto : Crypto)

theorem nsec3Hash_length (name : Name) (salt : Octets) (iterations : Nat) :
    (nsec3Hash crypto.sha1 name salt iterations).length = 20 := by
  rw [nsec3Hash]
  cases iterations with
  | zero => exact crypto.sha1_length _
  | succ n =>
      rw [Function.iterate_succ_apply']
      exact crypto.sha1_length _

def digest (name : Name) (salt : Octets) (iterations : Nat) : Digest :=
  ⟨nsec3Hash crypto.sha1 name salt iterations, crypto.nsec3Hash_length name salt iterations⟩

/-- `_build_nsec3_chain`. -/
def buildNsec3Chain (z : Zone) (salt : Octets) (iterations : Nat) (cuts : List Name) : Zone :=
  let z := z.add z.origin RRType.nsec3param (.nsec3param ⟨1, 0, UInt16.ofNat iterations, salt⟩)
    (z.ttlOf z.origin RRType.soa)
  let owners := z.chainNames cuts
  let ents := z.emptyNonTerminals owners
  let hashed := owners.map (fun name =>
      let present := z.presentTypes name cuts
      -- an unsigned delegation carries no signatures
      let signed := !(cuts.any (· == name) && !present.contains RRType.ds)
      (crypto.digest name salt iterations, if signed then present ++ [RRType.rrsig] else present)) ++
    ents.map fun n => (crypto.digest n salt iterations, [])
  let sorted := hashed.insertionSort fun a b => a.1.octets ≤ b.1.octets
  let ttl := z.denialTtl
  (sorted.zip (sorted.rotate 1)).foldl (fun z link =>
    z.add ⟨link.1.1.label :: z.origin.labels⟩ RRType.nsec3
      (.nsec3 ⟨1, 0, UInt16.ofNat iterations, salt, link.2.1.octets, encodeTypeBitmap link.1.2⟩) ttl) z

end Crypto

/-- The NSEC chain over every authoritative owner. -/
def buildNsecChain (z : Zone) (cuts : List Name) : Zone :=
  let names := z.chainNames cuts
  let ttl := z.denialTtl
  (names.zip (names.rotate 1)).foldl (fun z link =>
    z.add link.1 RRType.nsec (.nsec ⟨link.2, encodeTypeBitmap
      (z.presentTypes link.1 cuts ++ [RRType.rrsig, RRType.nsec])⟩) ttl) z

/-! ### Signing -/

structure SignResult where
  dnskey : DnskeyData
  ds : DsData
  keyTag : UInt16

namespace Crypto

variable (crypto : Crypto)

/-- `sign_rrset`, whose label count leaves a leading wildcard out. -/
def signRrset (key : Octets) (signer owner : Name) (algorithm : UInt8) (tag : UInt16) (now : Int)
    (rtype : RRType) (rdatas : List Rdata) (ttl : Int) : Except SignError RrsigData := do
  if ttl < 0 ∨ 2 ^ 32 ≤ ttl then throw .overflow
  let labels := owner.labels.length - (if owner.labels.head? = some Label.star then 1 else 0)
  let rrsig : RrsigData := ⟨rtype, algorithm, UInt8.ofNat labels, UInt32.ofInt ttl,
    UInt32.ofInt (now + sigValidity), UInt32.ofInt (now - 3600), tag, signer, []⟩
  let data ← signedData owner rtype RRClass.in rrsig rdatas
  return { rrsig with signature := crypto.sign key data }

/-- The record sets to sign: at a cut only the DS and the NSEC. -/
def snapshot (z : Zone) (cuts : List Name) : List (Name × RRType × List Rdata) :=
  (z.records.entries.filter fun entry => !z.occluded entry.1 cuts).flatMap fun entry =>
    (entry.2.entries.filter fun slot => slot.1 != RRType.rrsig &&
      (!cuts.any (· == entry.1) || slot.1 == RRType.ds || slot.1 == RRType.nsec)).map fun slot =>
        (entry.1, slot.1, slot.2)

def signAll (key : Octets) (algorithm : UInt8) (tag : UInt16) (now : Int) :
    Zone → List (Name × RRType × List Rdata) → Except SignError Zone
  | z, [] => .ok z
  | z, (name, rtype, rds) :: rest => do
      let sig ← crypto.signRrset key z.origin name algorithm tag now rtype rds (z.ttlOf name rtype)
      signAll key algorithm tag now { z with rrsigs := z.rrsigs.set (name, rtype) sig } rest

/-- The apex with its key published, before the denial chain is built. -/
def publishKey (z : Zone) (dnskey : DnskeyData) (ds : DsData) : Zone :=
  let soaTtl := z.ttlOf z.origin RRType.soa
  ((z.add z.origin RRType.dnskey (.dnskey dnskey) (if soaTtl = 0 then 3600 else soaTtl)).add z.origin
    RRType.cdnskey (.cdnskey dnskey) 3600).add z.origin RRType.cds (.cds ds) 3600

/-- `sign_zone`. A signer that raises leaves the zone it was given half signed; every
caller then drops it. -/
def signZone (z : Zone) (algorithm : UInt8 := 13) (now : Int) (nsec3 : Bool := false)
    (salt : Octets := []) (iterations : Nat := 0) (privateKey : Option Octets := none) :
    Except SignError (Zone × SignResult) := do
  let key := privateKey.getD crypto.generate
  let dnskey : DnskeyData := ⟨257, 3, algorithm, crypto.publicKey key⟩
  let tag := keyTag dnskey
  let ds : DsData := ⟨tag, algorithm, 2, crypto.sha256 (canonName z.origin ++ dnskeyRdata dnskey)⟩
  let z := publishKey z dnskey ds
  let cuts := z.cuts
  let z := if nsec3 then crypto.buildNsec3Chain z salt iterations cuts else buildNsecChain z cuts
  let z ← crypto.signAll key algorithm tag now z (snapshot z cuts)
  return ({ z with
    signed := true
    signingKey := some key
    signParams := some ⟨algorithm, nsec3, salt, iterations⟩ }, ⟨dnskey, ds, tag⟩)

end Crypto

end Trench.AuthZone
