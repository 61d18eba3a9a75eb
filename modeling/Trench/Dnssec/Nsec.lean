import Mathlib
import Trench.Lib.CyclicChain
import Trench.Wire.NameOrder
import Trench.Wire.Rdata
import Trench.Dnssec.TypeBitmap

set_option autoImplicit false

/- What a set of verified NSEC records proves. -/
namespace Trench.Dnssec

open Trench.Wire
open PathOrder (commonPrefix)

/-! ### Canonical name order -/

/-- The comparison loop: the first differing pair decides, else the lengths. -/
def firstDifference {α : Type} [LinearOrder α] (ka kb : List α) : Bool :=
  match (ka.zip kb).find? fun pair => decide (pair.1 ≠ pair.2) with
  | some (x, y) => x < y
  | none => ka.length < kb.length

theorem firstDifference_iff {α : Type} [LinearOrder α] (ka kb : List α) :
    firstDifference ka kb = true ↔ ka < kb := by
  induction ka generalizing kb with
  | nil => cases kb <;> simp [firstDifference]
  | cons x ka ih =>
      cases kb with
      | nil => simp [firstDifference]
      | cons y kb =>
          rw [List.cons_lt_cons_iff]
          by_cases same : x = y
          · rw [← ih kb]
            simp [firstDifference, same]
          · simp [firstDifference, same]

def nameLt (a b : Name) : Bool := firstDifference a.canonKey b.canonKey

theorem nameLt_iff {a b : Name} : nameLt a b = true ↔ a.canonKey < b.canonKey :=
  firstDifference_iff _ _

/-- `qname` falls in the gap between an owner and the next name. -/
def nsecCovers (owner nextName qname : Name) : Bool :=
  if nameLt owner nextName then nameLt owner qname && nameLt qname nextName
  else nameLt owner qname || nameLt qname nextName

theorem nsecCovers_iff {owner nextName qname : Name} :
    nsecCovers owner nextName qname = true ↔
      CyclicChain.Covers owner.canonKey nextName.canonKey qname.canonKey := by
  simp only [nsecCovers, CyclicChain.Covers, nameLt_iff]
  split <;> simp only [Bool.and_eq_true, Bool.or_eq_true, nameLt_iff]

/-! ### Names -/

def commonLabels : List Label → List Label → List Label
  | x :: left, y :: right => if x.lower ≠ y.lower then [] else x :: commonLabels left right
  | _, _ => []

/-- The closest ancestor two names share. -/
def commonSuffix (a b : Name) : Name :=
  ⟨(commonLabels a.labels.reverse b.labels.reverse).reverse⟩

theorem commonSuffix_canonKey (a b : Name) :
    (commonSuffix a b).canonKey = commonPrefix a.canonKey b.canonKey := by
  obtain ⟨left⟩ := a
  obtain ⟨right⟩ := b
  simp only [commonSuffix, Name.canonKey, List.reverse_reverse]
  generalize left.reverse = left
  generalize right.reverse = right
  induction left generalizing right with
  | nil => rfl
  | cons x left ih =>
      cases right with
      | nil => rfl
      | cons y right =>
          simp only [commonLabels, List.map_cons, commonPrefix]
          by_cases same : x.lower = y.lower
          · simp [same, ih right]
          · have differ : ¬ x.lower.octets = y.lower.octets := fun h => same (Label.ext h)
            simp [same, differ]

def wildcardOf (name : Name) : Name := ⟨Label.star :: name.labels⟩

/-- The wildcard label as a path step. -/
def star : Octets := Label.star.octets

@[simp] theorem wildcardOf_canonKey (name : Name) :
    (wildcardOf name).canonKey = name.canonKey ++ [star] := by
  rw [wildcardOf, Name.canonKey_cons, Label.lower_star]
  rfl

abbrev NsecItem := Name × NsecData

/-- A parent-side delegation record: NS set, SOA clear. -/
def isDelegation (bitmap : Octets) : Bool :=
  bitmapHas bitmap RRType.ns && !bitmapHas bitmap RRType.soa

/-- `name` lies beneath `owner` and `owner` stops the zone there. -/
def cutsOff (owner : Name) (bitmap : Octets) (name : Name) : Bool :=
  if name == owner || !name.isSubdomainOf owner then false
  else isDelegation bitmap || bitmapHas bitmap RRType.dname

def provesGap (owner : Name) (rd : NsecData) (name : Name) : Bool :=
  nsecCovers owner rd.nextName name && !cutsOff owner rd.typeBitmap name

def covered (name : Name) (nsecs : List NsecItem) : Bool :=
  nsecs.any fun item => provesGap item.1 item.2 name

/-! ### Denials -/

def nsecNodata (qname : Name) (qtype : RRType) (nsecs : List NsecItem) : Bool :=
  match nsecs.find? fun item => item.1 == qname with
  | some (_, rd) =>
      if isDelegation rd.typeBitmap then false
      else !(bitmapHas rd.typeBitmap qtype || bitmapHas rd.typeBitmap RRType.cname)
  | none => false

def nsecWildcardNodata (qname : Name) (qtype : RRType) (nsecs : List NsecItem) : Bool :=
  nsecs.any fun (owner, rd) =>
    if owner.labels.head? ≠ some Label.star then false
    else
      let ce := owner.parent
      if !qname.isSubdomainOf ce || qname == ce then false
      else if bitmapHas rd.typeBitmap qtype || bitmapHas rd.typeBitmap RRType.cname then false
      else covered qname nsecs

def nsecNxdomain (qname : Name) (nsecs : List NsecItem) : Bool :=
  match nsecs.find? fun item => provesGap item.1 item.2 qname with
  | none => false
  | some (owner, rd) =>
      -- the deeper of the ancestors shared with the two ends of the gap
      let a := commonSuffix owner qname
      let b := commonSuffix rd.nextName qname
      let ce := if a.labels.length ≥ b.labels.length then a else b
      if ce.labels.length ≥ qname.labels.length then false
      else
        let wild := wildcardOf ce
        if nsecs.any fun item => item.1 == wild then false
        else covered wild nsecs

def nsecWildcardExpansion (qname expandedFrom : Name) (nsecs : List NsecItem) : Bool :=
  let ce := expandedFrom.parent
  if !qname.isSubdomainOf ce || qname == ce then false
  else covered qname nsecs

/-- The two verdicts of a DS denial. -/
inductive DsDenial where
  | insecure
  | nocut
  deriving DecidableEq

def nsecDsDenial (child : Name) (nsecs : List NsecItem) : Option DsDenial :=
  match nsecs.find? fun item => item.1 == child with
  | some (_, rd) =>
      if bitmapHas rd.typeBitmap RRType.ds then none
      else if bitmapHas rd.typeBitmap RRType.soa then none
      else if bitmapHas rd.typeBitmap RRType.ns then some .insecure else some .nocut
  | none => if covered child nsecs then some .nocut else none

end Trench.Dnssec
