import Mathlib
import Trench.Lib.PathOrder

set_option autoImplicit false

namespace Trench.Wire

abbrev Octets := List UInt8

/-- Python text, one `Char` per code point. -/
abbrev Text := List Char

instance : LawfulBEq Text := inferInstance

/-- Octets are compared as numbers, octet strings lexicographically. -/
instance octetOrder : LinearOrder UInt8 where
  le_refl := UInt8.le_refl
  le_trans _ _ _ := UInt8.le_trans
  lt_iff_le_not_ge a b := by
    simp only [UInt8.lt_iff_toNat_lt, UInt8.le_iff_toNat_le]
    omega
  le_antisymm _ _ := UInt8.le_antisymm
  le_total := UInt8.le_total
  toDecidableLE := inferInstance
  toDecidableEq := inferInstance
  toDecidableLT := inferInstance

/-- `WireError`, one constructor for each message, with the values it quotes. -/
inductive WireError where
  | readPastEnd (need : Int) (pos len : Nat)
  | u8PastEnd
  | u16PastEnd
  | u32PastEnd
  | seekOutOfRange
  | nonAscii (s : Text)
  | badLabelLength (s : Text)
  | nameTooLong
  | nonLatin1 (s : Text)
  | trailingBackslash (s : Text)
  | escapeOutOfRange (digits s : Text)
  | nameExceeds255
  | pointerLoop
  | forwardPointer
  | reservedLabelType
  | aLength
  | aaaaLength
  | txtChunk
  | undecodableRdata (rtype : UInt16) (cause : WireError)
  | rdataUsed (rtype : UInt16) (used rdlen : Nat)
  | shortHeader
  | misplacedOpt
  | shortMessage
  deriving DecidableEq

def maxName : Nat := 255
def maxLabel : Nat := 63

/-- One label of a name. Every name is made by a parser that refuses other
lengths, or from labels of such names, so the bound is part of the type. -/
structure Label where
  octets : Octets
  nonempty : 1 ≤ octets.length
  bounded : octets.length ≤ maxLabel
  deriving DecidableEq

@[ext] theorem Label.ext {a b : Label} (same : a.octets = b.octets) : a = b := by
  cases a
  cases b
  cases same
  rfl

/-- One octet of `bytes.lower`, which folds ASCII letters only. -/
def lowerOctet (c : UInt8) : UInt8 :=
  if 0x41 ≤ c ∧ c ≤ 0x5A then c + 0x20 else c

theorem lowerOctet_idem (c : UInt8) : lowerOctet (lowerOctet c) = lowerOctet c := by
  simp only [lowerOctet, UInt8.le_iff_toNat_le]
  split
  · next upper =>
      have high : ¬ (c + 0x20).toNat ≤ (0x5A : UInt8).toNat := by
        simp only [UInt8.toNat_add, UInt8.reduceToNat] at *
        omega
      simp only [high, and_false, ↓reduceIte]
  · rfl

def Label.lower (label : Label) : Label where
  octets := label.octets.map lowerOctet
  nonempty := by simpa only [List.length_map] using label.nonempty
  bounded := by simpa only [List.length_map] using label.bounded

theorem Label.lower_idem (label : Label) : label.lower.lower = label.lower := by
  apply Label.ext
  simp only [lower, List.map_map]
  exact List.map_congr_left (fun c _ => lowerOctet_idem c)

/-- The wildcard label. -/
def Label.star : Label := ⟨[0x2A], by decide, by decide⟩

@[simp] theorem Label.lower_star : Label.star.lower = Label.star := by decide

/-- A domain name as its labels, the root being the empty list. -/
structure Name where
  labels : List Label
  deriving DecidableEq

namespace Name

def root : Name := ⟨[]⟩

/-- The source's `_lower`. -/
def lower (name : Name) : List Label := name.labels.map Label.lower

def canonicalize (name : Name) : Name := ⟨name.lower⟩

/-- The length-prefixed octets of a label list, without the final root octet. -/
def labelOctets : List Label → Octets
  | [] => []
  | label :: rest => UInt8.ofNat label.octets.length :: (label.octets ++ labelOctets rest)

/-- Lowercased wire form, the identity of a name. -/
def key (name : Name) : Octets := labelOctets name.lower ++ [0]

instance : BEq Name := ⟨fun a b => a.key == b.key⟩

def isRoot (name : Name) : Bool := name.labels.length == 0

def parent (name : Name) : Name := ⟨name.labels.drop 1⟩

def wireLen (name : Name) : Nat := (name.labels.map fun l => l.octets.length + 1).sum + 1

/-- The loop of `key_is_under`: step from one length octet to the next until
`start` is reached or passed. -/
def walkTo (key : Octets) (start : Nat) : Nat → Nat → Nat
  | 0, i => i
  | fuel + 1, i => if i < start then walkTo key start fuel (i + ((key.getD i 0).toNat + 1)) else i

/-- True when the name with wire key `key` is `suffix` or below it. -/
def keyIsUnder (key suffix : Octets) : Bool :=
  if suffix.isSuffixOf key then
    let start := key.length - suffix.length
    walkTo key start start 0 == start
  else false

def isSubdomainOf (name other : Name) : Bool := keyIsUnder name.key other.key

/-! ### Text -/

def isDigit (c : Char) : Bool := '0' ≤ c && c ≤ '9'

/-- `f"{c:03d}"` for one octet. -/
def threeDigits (c : UInt8) : Text :=
  [Nat.digitChar (c.toNat / 100), Nat.digitChar (c.toNat / 10 % 10), Nat.digitChar (c.toNat % 10)]

def escapeOctet (c : UInt8) : Text :=
  if c = 0x2E ∨ c = 0x5C then ['\\', Char.ofNat c.toNat]
  else if 0x21 ≤ c ∧ c ≤ 0x7E then [Char.ofNat c.toNat]
  else '\\' :: threeDigits c

/-- The source first tries to decode a label with nothing to escape in one call;
the loop gives the same text for such a label. -/
def escape (label : Octets) : Text := label.flatMap escapeOctet

def joinDots : List Text → Text
  | [] => []
  | [part] => part
  | part :: rest => part ++ '.' :: joinDots rest

def toText (name : Name) (omitRoot : Bool := false) : Text :=
  let parts := joinDots (name.labels.map fun l => escape l.octets)
  if omitRoot then parts
  else if name.labels.isEmpty then ['.'] else parts ++ ['.']

/-- `str.isspace` for one character, as `str.strip` uses it. -/
def isSpace (c : Char) : Bool :=
  let n := c.toNat
  (9 ≤ n && n ≤ 13) || (28 ≤ n && n ≤ 32) || n == 0x85 || n == 0xA0 || n == 0x1680 ||
    (0x2000 ≤ n && n ≤ 0x200A) || n == 0x2028 || n == 0x2029 || n == 0x202F || n == 0x205F ||
    n == 0x3000

def strip (s : Text) : Text := ((s.dropWhile isSpace).reverse.dropWhile isSpace).reverse

/-- Value of three ASCII digits. -/
def digitsValue (a b c : Char) : Nat :=
  (a.toNat - 48) * 100 + (b.toNat - 48) * 10 + (c.toNat - 48)

/-- The loop of `_labels_from_text` from an unread suffix; `cur` is the label so far. -/
def splitEscaped (whole : Text) : Text → Octets → Except WireError (List Octets)
  | [], cur => .ok [cur]
  | '.' :: rest, cur => do return cur :: (← splitEscaped whole rest [])
  | ['\\'], _ => .error (.trailingBackslash whole)
  | '\\' :: a :: rest, cur =>
      match rest with
      | b :: c :: more =>
          if isDigit a && isDigit b && isDigit c then
            if digitsValue a b c > 0xFF then .error (.escapeOutOfRange [a, b, c] whole)
            else splitEscaped whole more (cur ++ [UInt8.ofNat (digitsValue a b c)])
          else if a.toNat > 0xFF then .error (.nonLatin1 whole)
          else splitEscaped whole (b :: c :: more) (cur ++ [UInt8.ofNat a.toNat])
      | short =>
          if a.toNat > 0xFF then .error (.nonLatin1 whole)
          else splitEscaped whole short (cur ++ [UInt8.ofNat a.toNat])
  | c :: rest, cur =>
      if c.toNat > 0xFF then .error (.nonLatin1 whole)
      else splitEscaped whole rest (cur ++ [UInt8.ofNat c.toNat])

/-- Split on unescaped dots and unescape; a last empty label is the root dot. -/
def labelsFromText (s : Text) : Except WireError (List Octets) := do
  let labels ← splitEscaped s s []
  return if 1 < labels.length ∧ labels.getLast? = some [] then labels.dropLast else labels

/-- `part.encode("ascii", "strict")`. -/
def encodeAscii (whole part : Text) : Except WireError Octets :=
  if part.all fun c => c.toNat < 128 then .ok (part.map fun c => UInt8.ofNat c.toNat)
  else .error (.nonAscii whole)

def dropRootDot (s : Text) : Text := if s.getLast? = some '.' then s.dropLast else s

/-- The length test of `from_text`, giving back labels that carry it. -/
def checkLabel (whole : Text) (octets : Octets) : Except WireError Label :=
  if bound : 1 ≤ octets.length ∧ octets.length ≤ maxLabel then .ok ⟨octets, bound.1, bound.2⟩
  else .error (.badLabelLength whole)

/-- Parse presentation format. -/
def fromText (s : Text) : Except WireError Name := do
  let s := strip s
  if s = ['.'] ∨ s = [] then return root
  -- without an escape the dots separate, and later messages quote the text undotted
  let escaped := s.contains '\\'
  let s := if escaped then s else dropRootDot s
  let parts ← if escaped then labelsFromText s else (s.splitOn '.').mapM (encodeAscii s)
  let labels ← parts.mapM (checkLabel s)
  let name : Name := ⟨labels⟩
  if name.wireLen > maxName then throw .nameTooLong
  return name

end Name

end Trench.Wire
