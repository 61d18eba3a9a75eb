import Mathlib
import Trench.Lib.Digits
import Trench.Dnssec.Nsec

set_option autoImplicit false

/- What a set of verified NSEC3 records proves. SHA-1 is a parameter throughout. -/
namespace Trench.Dnssec

open Trench.Wire
open Name (labelOctets)

/-! ### Hashed names -/

/-- `nsec3_hash`: the canonical wire name, hashed again with the salt each round. -/
def nsec3Hash (sha1 : Octets → Octets) (name : Name) (salt : Octets) (iterations : Nat) : Octets :=
  (fun digest => sha1 (digest ++ salt))^[iterations]
    (sha1 (labelOctets name.canonicalize.labels ++ [0] ++ salt))

def base32Alphabet : Text := "ABCDEFGHIJKLMNOPQRSTUVWXYZ234567".toList

def base32HexAlphabet : Text := "0123456789abcdefghijklmnopqrstuv".toList

/-- The five-bit digits of an octet string, zero bits filling up the last one. -/
def base32Digits (h : Octets) : List Nat :=
  let count := (8 * h.length + 4) / 5
  Digits.spell 32 count (Digits.value 256 (h.map UInt8.toNat) * 2 ^ (5 * count - 8 * h.length))

/-- `base64.b32encode` without its padding. -/
def b32encode (h : Octets) : Text := (base32Digits h).map fun d => base32Alphabet.getD d 'A'

/-- `str.translate` with `_B32HEX`. -/
def translateB32Hex (c : Char) : Char :=
  ((base32Alphabet.zip base32HexAlphabet).lookup c).getD c

def nsec3B32 (h : Octets) : Text := ((b32encode h).map translateB32Hex).map Char.toLower

/-- One octet of `decode("latin-1").lower()`. -/
def lowerLatin1 (c : UInt8) : Char :=
  if (0x41 ≤ c ∧ c ≤ 0x5A) ∨ (0xC0 ≤ c ∧ c ≤ 0xDE ∧ c ≠ 0xD7) then Char.ofNat (c.toNat + 32)
  else Char.ofNat c.toNat

/-- `_between`, with the wrap at the end of the chain. -/
def between (lo x hi : Text) : Bool :=
  if lo < hi then lo < x && x < hi else x > lo || x < hi

/-! ### The records of one response -/

/-- The memo of computed hashes is left out: a hash is the same each time. -/
structure Nsec3Set where
  zone : Name
  usable : Bool
  records : List (Text × Nsec3Data)
  salt : Octets
  iterations : UInt16

abbrev Nsec3Item := Name × Nsec3Data

def maxNsec3Iterations : Nat := 100

/-- The last loop of the constructor: the records under the zone, and whether the
loop got to its end. -/
def collectNsec3 (zone : Name) : List Nsec3Item → List (Text × Nsec3Data) × Bool
  | [] => ([], true)
  | (owner, rd) :: rest =>
      match owner.labels with
      | [] => ([], false)
      | label :: above =>
          let (records, done) := collectNsec3 zone rest
          if Name.mk above != zone then (records, done)
          else ((label.octets.map lowerLatin1, rd) :: records, done)

def Nsec3Set.make (items : List Nsec3Item) (zone : Name)
    (maxIterations : Nat := maxNsec3Iterations) : Nsec3Set :=
  match items with
  | [] => ⟨zone, false, [], [], 0⟩
  | (_, first) :: _ =>
      if first.hashAlgorithm ≠ 1 then ⟨zone, false, [], [], 0⟩
      else if first.iterations.toNat > maxIterations then ⟨zone, false, [], [], 0⟩
      -- mixed parameters prove nothing
      else if items.any fun (_, rd) => rd.hashAlgorithm != first.hashAlgorithm ||
          rd.salt != first.salt || rd.iterations != first.iterations then ⟨zone, false, [], [], 0⟩
      else
        let (records, done) := collectNsec3 zone items
        ⟨zone, done, records, first.salt, first.iterations⟩

section

variable (sha1 : Octets → Octets)

def Nsec3Set.h (s : Nsec3Set) (name : Name) : Text :=
  nsec3B32 (nsec3Hash sha1 name s.salt s.iterations.toNat)

/-- The source's `match`. -/
def Nsec3Set.matching (s : Nsec3Set) (name : Name) : Option Nsec3Data :=
  (s.records.find? fun record => record.1 == s.h sha1 name).map Prod.snd

def Nsec3Set.cover (s : Nsec3Set) (name : Name) : Option Nsec3Data :=
  (s.records.find? fun record =>
    between record.1 (s.h sha1 name) (nsec3B32 record.2.nextHashed)).map Prod.snd

def optOut (rd : Nsec3Data) : Bool := rd.flags &&& 0x01 != 0

/-- No record covers the name, or the one that does leaves room for unsigned
delegations. -/
def gapUnproven : Option Nsec3Data → Bool
  | none => true
  | some rd => optOut rd

/-- The names from `qname`'s parent up to `zone`, closest first. -/
def ancestors (zone : Name) : Nat → Name → List Name
  | 0, _ => []
  | fuel + 1, n =>
      if n.labels.length ≥ zone.labels.length then
        if n == zone || n.isRoot then [n] else n :: ancestors zone fuel n.parent
      else []

/-- The last `count` labels of a name. -/
def lastLabels (name : Name) (count : Nat) : Name :=
  ⟨name.labels.drop (name.labels.length - count)⟩

/-- The walk stops at the first ancestor that is matched; a delegation or a DNAME
there is no encloser. -/
def closestEncloser (qname : Name) (s : Nsec3Set) : Option (Name × Name) :=
  let rec walk : List Name → Option (Name × Name)
    | [] => none
    | anc :: rest =>
        match s.matching sha1 anc with
        | some rd =>
            if isDelegation rd.typeBitmap || bitmapHas rd.typeBitmap RRType.dname then none
            else some (anc, lastLabels qname (anc.labels.length + 1))
        | none => walk rest
  walk (ancestors s.zone (qname.labels.length + 1) qname.parent)

/-! ### Denials -/

def nsec3Nodata (qname : Name) (qtype : RRType) (s : Nsec3Set) : Bool :=
  match s.matching sha1 qname with
  | some rd =>
      if isDelegation rd.typeBitmap then false
      else !bitmapHas rd.typeBitmap qtype && !bitmapHas rd.typeBitmap RRType.cname
  | none =>
      match closestEncloser sha1 qname s with
      | none => false
      | some (ce, nextCloser) =>
          if gapUnproven (s.cover sha1 nextCloser) then false
          else
            match s.matching sha1 (wildcardOf ce) with
            | none => false
            | some wrd =>
                !bitmapHas wrd.typeBitmap qtype && !bitmapHas wrd.typeBitmap RRType.cname

def nsec3Nxdomain (qname : Name) (s : Nsec3Set) : Bool :=
  match closestEncloser sha1 qname s with
  | none => false
  | some (ce, nextCloser) =>
      if gapUnproven (s.cover sha1 nextCloser) then false
      else if (s.matching sha1 (wildcardOf ce)).isSome then false
      else !gapUnproven (s.cover sha1 (wildcardOf ce))

def nsec3WildcardExpansion (qname expandedFrom : Name) (s : Nsec3Set) : Bool :=
  let ce := expandedFrom.parent
  if !qname.isSubdomainOf ce || qname == ce then false
  else !gapUnproven (s.cover sha1 (lastLabels qname (ce.labels.length + 1)))

def nsec3DsDenial (child : Name) (s : Nsec3Set) : Option DsDenial :=
  match s.matching sha1 child with
  | some rd =>
      if bitmapHas rd.typeBitmap RRType.ds then none
      else if bitmapHas rd.typeBitmap RRType.soa then none
      else if bitmapHas rd.typeBitmap RRType.ns then some .insecure else some .nocut
  | none =>
      match s.cover sha1 child with
      | none => none
      | some cov => if optOut cov then some .insecure else some .nocut

end

end Trench.Dnssec
