import Mathlib
import Trench.Dnssec.Nsec3
import Trench.Wire.RdataCodec

set_option autoImplicit false

/- The presentation of record data, by which updates and transfers tell records apart. -/
namespace Trench.Wire.Rdata

open Dnssec (b32encode)

/-! ### Pieces -/

/-- `decode("ascii")` met an octet above 127. -/
inductive TextError where
  | decode
  deriving DecidableEq

def decimal (v : Int) : Text := (toString v).toList

/-- `decode("latin-1")`. -/
def latin1 (s : Octets) : Text := s.map fun c => Char.ofNat c.toNat

/-- `bytes.hex()`. -/
def hex (s : Octets) : Text :=
  s.flatMap fun c => [Nat.digitChar (c.toNat / 16), Nat.digitChar (c.toNat % 16)]

def base64Alphabet : Text :=
  "ABCDEFGHIJKLMNOPQRSTUVWXYZabcdefghijklmnopqrstuvwxyz0123456789+/".toList

/-- The six-bit digits of an octet string, zero bits filling up the last one. -/
def base64Digits (s : Octets) : List Nat :=
  let count := (8 * s.length + 5) / 6
  Digits.spell 64 count (Digits.value 256 (s.map UInt8.toNat) * 2 ^ (6 * count - 8 * s.length))

/-- `base64.b64encode`, filled up to groups of four. -/
def b64encode (s : Octets) : Text :=
  (base64Digits s).map (fun d => base64Alphabet.getD d 'A') ++ List.replicate ((3 - s.length % 3) % 3) '='

def quoted (s : Text) : Text := '"' :: (s ++ ['"'])

/-- `replace('"', '\\"')`. -/
def escapeQuotes (s : Text) : Text := s.flatMap fun c => if c = '"' then ['\\', '"'] else [c]

/-- `" ".join`. -/
def joinSpaces : List Text → Text
  | [] => []
  | [part] => part
  | part :: rest => part ++ ' ' :: joinSpaces rest

/-- The salt, or a dash where there is none. -/
def saltText (salt : Octets) : Text :=
  if salt = [] then ['-'] else (hex salt).map Char.toUpper

def txtText (strings : List Octets) : Text :=
  joinSpaces (strings.map fun s => quoted (escapeQuotes (latin1 s)))

def dsText (d : DsData) : Text :=
  joinSpaces [decimal d.keyTag.toNat, decimal d.algorithm.toNat, decimal d.digestType.toNat,
    (hex d.digest).map Char.toUpper]

def dnskeyText (d : DnskeyData) : Text :=
  joinSpaces [decimal d.flags.toNat, decimal d.protocol.toNat, decimal d.algorithm.toNat,
    b64encode d.publicKey]

def svcbText (d : SvcbData) : Text :=
  joinSpaces [decimal d.priority.toNat, d.target.toText, hex d.params]

/-! ### The presentation -/

def toText : Rdata → Except TextError Text
  | .a address | .aaaa address => .ok address
  | .ns name | .cname name | .ptr name | .dname name => .ok name.toText
  | .soa d => .ok (joinSpaces [d.mname.toText, d.rname.toText, decimal d.serial, decimal d.refresh,
      decimal d.retry, decimal d.expire, decimal d.minimum])
  | .mx d => .ok (joinSpaces [decimal d.preference, d.exchange.toText])
  | .srv d => .ok (joinSpaces [decimal d.priority, decimal d.weight, decimal d.port, d.target.toText])
  | .txt strings | .spf strings => .ok (txtText strings)
  | .hinfo d => .ok (joinSpaces [quoted (latin1 d.cpu), quoted (latin1 d.os)])
  | .caa d =>
      if d.tag.all fun c => c < 0x80 then
        .ok (joinSpaces [decimal d.flags, latin1 d.tag, quoted (latin1 d.value)])
      else .error .decode
  | .sshfp d => .ok (joinSpaces [decimal d.algorithm.toNat, decimal d.fpType.toNat, hex d.fingerprint])
  | .tlsa d => .ok (joinSpaces [decimal d.usage.toNat, decimal d.selector.toNat,
      decimal d.mtype.toNat, hex d.cert])
  | .ds d | .cds d => .ok (dsText d)
  | .dnskey d | .cdnskey d => .ok (dnskeyText d)
  | .rrsig d => .ok (joinSpaces [RRType.toText d.typeCovered, decimal d.algorithm.toNat,
      decimal d.labels.toNat, decimal d.originalTtl.toNat, decimal d.expiration.toNat,
      decimal d.inception.toNat, decimal d.keyTag.toNat, d.signer.toText, b64encode d.signature])
  | .nsec d => .ok (joinSpaces [d.nextName.toText, hex d.typeBitmap])
  | .nsec3 d => .ok (joinSpaces [decimal d.hashAlgorithm.toNat, decimal d.flags.toNat,
      decimal d.iterations.toNat, saltText d.salt, b32encode d.nextHashed, hex d.typeBitmap])
  | .nsec3param d => .ok (joinSpaces [decimal d.hashAlgorithm.toNat, decimal d.flags.toNat,
      decimal d.iterations.toNat, saltText d.salt])
  | .naptr d => .ok (joinSpaces [decimal d.order.toNat, decimal d.preference.toNat,
      quoted (latin1 d.flags), quoted (latin1 d.service), quoted (latin1 d.regexp),
      d.replacement.toText])
  | .uri d => .ok (joinSpaces [decimal d.priority.toNat, decimal d.weight.toNat,
      quoted (latin1 d.target)])
  | .svcb d | .https d => .ok (svcbText d)
  | .tsig d => .ok (joinSpaces [d.algorithm.toText, decimal d.timeSigned.toNat, decimal d.fudge.toNat,
      b64encode d.mac, decimal d.originalId.toNat, decimal d.error.toNat])
  | .unknown _ data =>
      if data = [] then .ok ['\\', '#', ' ', '0']
      else .ok (joinSpaces [['\\', '#'], decimal data.length, hex data])

end Trench.Wire.Rdata
