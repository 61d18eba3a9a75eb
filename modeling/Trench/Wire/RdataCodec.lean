import Mathlib
import Trench.Wire.NameCodec
import Trench.Wire.Address
import Trench.Wire.Rdata

set_option autoImplicit false

/- One reader and one writer for each class of record data. -/
namespace Trench.Wire

open Cursor (Parses Ensures raiseIf)
open Name (labelOctets)
open Reader

/-- What `emit` can raise: an address `inet_pton` refuses, a text chunk too long. -/
inductive EmitError where
  | badAddress (s : Text)
  | txtChunk
  deriving DecidableEq

namespace Writer

/-- The numeric writers on a Python integer, cut to its width. -/
def int8 (w : Writer) (v : Int) : Writer := w.u8 (UInt8.ofInt v)

def int16 (w : Writer) (v : Int) : Writer := w.u16 (UInt16.ofInt v)

def int32 (w : Writer) (v : Int) : Writer := w.u32 (UInt32.ofInt v)

/-- `w.u8(len(s)); w.raw(s)`. -/
def counted (w : Writer) (s : Octets) : Writer := (w.u8 (UInt8.ofNat s.length)).raw s

def counted16 (w : Writer) (s : Octets) : Writer := (w.u16 (UInt16.ofNat s.length)).raw s

end Writer

namespace Rdata

/-! ### Readers -/

/-- `r.read(end - r.tell())`. -/
def readTo (stop : Nat) : Read Octets := do
  let here ← tell
  read ((stop : Int) - here)

/-- `r.read(r.u8())`. -/
def readCounted : Read Octets := do
  let n ← u8
  read n.toNat

def readCounted16 : Read Octets := do
  let n ← u16
  read n.toNat

def parseA (rdlen : Nat) : Read Rdata := do
  raiseIf (rdlen ≠ 4) .aLength
  let octets ← read 4
  return .a (inetNtop4 octets)

def parseAaaa (rdlen : Nat) : Read Rdata := do
  raiseIf (rdlen ≠ 16) .aaaaLength
  let octets ← read 16
  return .aaaa (inetNtop6 octets)

/-- `_NameRdata.parse` for each of its classes. -/
def parseName (make : Name → Rdata) (_ : Nat) : Read Rdata := do
  let name ← readName
  return make name

def parseSoa (_ : Nat) : Read Rdata := do
  let mname ← readName
  let rname ← readName
  let serial ← u32
  let refresh ← u32
  let retry ← u32
  let expire ← u32
  let minimum ← u32
  return .soa ⟨mname, rname, serial.toNat, refresh.toNat, retry.toNat, expire.toNat,
    minimum.toNat⟩

def parseMx (_ : Nat) : Read Rdata := do
  let preference ← u16
  let exchange ← readName
  return .mx ⟨preference.toNat, exchange⟩

def parseSrv (_ : Nat) : Read Rdata := do
  let priority ← u16
  let weight ← u16
  let port ← u16
  let target ← readName
  return .srv ⟨priority.toNat, weight.toNat, port.toNat, target⟩

/-- The loop of `TXT.parse`; every round takes an octet at least. -/
def readStrings : Nat → Nat → List Octets → Read (List Octets)
  | 0, _, out => pure out
  | fuel + 1, stop, out => do
      let here ← tell
      if here < stop then
        let s ← readCounted
        readStrings fuel stop (out ++ [s])
      else pure out

def parseTxt (make : List Octets → Rdata) (rdlen : Nat) : Read Rdata := do
  let here ← tell
  let strings ← readStrings (rdlen + 1) (here + rdlen) []
  return make strings

def parseHinfo (_ : Nat) : Read Rdata := do
  let cpu ← readCounted
  let os ← readCounted
  return .hinfo ⟨cpu, os⟩

def parseCaa (rdlen : Nat) : Read Rdata := do
  let here ← tell
  let flags ← u8
  let tag ← readCounted
  let value ← readTo (here + rdlen)
  return .caa ⟨flags.toNat, tag, value⟩

def parseSshfp (rdlen : Nat) : Read Rdata := do
  let algorithm ← u8
  let fpType ← u8
  let fingerprint ← read ((rdlen : Int) - 2)
  return .sshfp ⟨algorithm, fpType, fingerprint⟩

def parseTlsa (rdlen : Nat) : Read Rdata := do
  let usage ← u8
  let selector ← u8
  let mtype ← u8
  let cert ← read ((rdlen : Int) - 3)
  return .tlsa ⟨usage, selector, mtype, cert⟩

def parseDs (make : DsData → Rdata) (rdlen : Nat) : Read Rdata := do
  let keyTag ← u16
  let algorithm ← u8
  let digestType ← u8
  let digest ← read ((rdlen : Int) - 4)
  return make ⟨keyTag, algorithm, digestType, digest⟩

def parseDnskey (make : DnskeyData → Rdata) (rdlen : Nat) : Read Rdata := do
  let flags ← u16
  let protocol ← u8
  let algorithm ← u8
  let publicKey ← read ((rdlen : Int) - 4)
  return make ⟨flags, protocol, algorithm, publicKey⟩

def parseRrsig (rdlen : Nat) : Read Rdata := do
  let here ← tell
  let typeCovered ← u16
  let algorithm ← u8
  let labels ← u8
  let originalTtl ← u32
  let expiration ← u32
  let inception ← u32
  let keyTag ← u16
  let signer ← readName
  let signature ← readTo (here + rdlen)
  return .rrsig ⟨typeCovered, algorithm, labels, originalTtl, expiration, inception, keyTag, signer,
    signature⟩

def parseNsec (rdlen : Nat) : Read Rdata := do
  let here ← tell
  let nextName ← readName
  let typeBitmap ← readTo (here + rdlen)
  return .nsec ⟨nextName, typeBitmap⟩

def parseNsec3param (_ : Nat) : Read Rdata := do
  let hashAlgorithm ← u8
  let flags ← u8
  let iterations ← u16
  let salt ← readCounted
  return .nsec3param ⟨hashAlgorithm, flags, iterations, salt⟩

def parseNsec3 (rdlen : Nat) : Read Rdata := do
  let here ← tell
  let hashAlgorithm ← u8
  let flags ← u8
  let iterations ← u16
  let salt ← readCounted
  let nextHashed ← readCounted
  let typeBitmap ← readTo (here + rdlen)
  return .nsec3 ⟨hashAlgorithm, flags, iterations, salt, nextHashed, typeBitmap⟩

def parseNaptr (_ : Nat) : Read Rdata := do
  let order ← u16
  let preference ← u16
  let flags ← readCounted
  let service ← readCounted
  let regexp ← readCounted
  let replacement ← readName
  return .naptr ⟨order, preference, flags, service, regexp, replacement⟩

def parseUri (rdlen : Nat) : Read Rdata := do
  let priority ← u16
  let weight ← u16
  let target ← read ((rdlen : Int) - 4)
  return .uri ⟨priority, weight, target⟩

def parseSvcb (make : SvcbData → Rdata) (rdlen : Nat) : Read Rdata := do
  let here ← tell
  let priority ← u16
  let target ← readName
  let params ← readTo (here + rdlen)
  return make ⟨priority, target, params⟩

/-- `(r.u16() << 32) | r.u32()`. -/
def joinTime (high : UInt16) (low : UInt32) : BitVec 48 :=
  BitVec.ofNat 48 (high.toNat * 2 ^ 32 + low.toNat)

def parseTsig (_ : Nat) : Read TsigData := do
  let algorithm ← readName
  let high ← u16
  let low ← u32
  let fudge ← u16
  let mac ← readCounted16
  let originalId ← u16
  let error ← u16
  let other ← readCounted16
  return ⟨algorithm, joinTime high low, fudge, mac, originalId, error, other⟩

def parseTsigRdata (rdlen : Nat) : Read Rdata := do
  let data ← parseTsig rdlen
  return .tsig data

/-! ### Writers -/

def emitDs (d : DsData) (w : Writer) : Writer :=
  (((w.u16 d.keyTag).u8 d.algorithm).u8 d.digestType).raw d.digest

def emitDnskey (d : DnskeyData) (w : Writer) : Writer :=
  (((w.u16 d.flags).u8 d.protocol).u8 d.algorithm).raw d.publicKey

def emitSvcb (d : SvcbData) (w : Writer) : Writer :=
  ((w.u16 d.priority).writeName d.target false).raw d.params

def emitTsig (d : TsigData) (w : Writer) : Writer :=
  let w := w.writeName d.algorithm false
  let w := w.u16 (UInt16.ofNat (d.timeSigned.toNat / 2 ^ 32))
  let w := w.u32 (UInt32.ofNat (d.timeSigned.toNat % 2 ^ 32))
  (((w.u16 d.fudge).counted16 d.mac).u16 d.originalId).u16 d.error |>.counted16 d.other

/-- The loop of `TXT.emit`. -/
def emitStrings : Writer → List Octets → Except EmitError Writer
  | w, [] => .ok w
  | w, s :: rest => if s.length > 255 then .error .txtChunk else emitStrings (w.counted s) rest

def emit (w : Writer) : Rdata → Except EmitError Writer
  | .a address =>
      match inetPton4 address with
      | some octets => .ok (w.raw octets)
      | none => .error (.badAddress address)
  | .aaaa address =>
      match inetPton6 address with
      | some octets => .ok (w.raw octets)
      | none => .error (.badAddress address)
  | .ns name | .cname name | .ptr name | .dname name => .ok (w.writeName name false)
  | .soa d =>
      let w := (w.writeName d.mname false).writeName d.rname false
      .ok (((((w.int32 d.serial).int32 d.refresh).int32 d.retry).int32 d.expire).int32 d.minimum)
  | .mx d => .ok ((w.int16 d.preference).writeName d.exchange false)
  | .srv d =>
      .ok ((((w.int16 d.priority).int16 d.weight).int16 d.port).writeName d.target false)
  | .txt strings | .spf strings => emitStrings w strings
  | .hinfo d => .ok ((w.counted d.cpu).counted d.os)
  | .caa d => .ok (((w.int8 d.flags).counted d.tag).raw d.value)
  | .sshfp d => .ok (((w.u8 d.algorithm).u8 d.fpType).raw d.fingerprint)
  | .tlsa d => .ok ((((w.u8 d.usage).u8 d.selector).u8 d.mtype).raw d.cert)
  | .ds d | .cds d => .ok (emitDs d w)
  | .dnskey d | .cdnskey d => .ok (emitDnskey d w)
  | .rrsig d =>
      let w := (((w.u16 d.typeCovered).u8 d.algorithm).u8 d.labels).u32 d.originalTtl
      let w := ((w.u32 d.expiration).u32 d.inception).u16 d.keyTag
      .ok ((w.writeName d.signer false).raw d.signature)
  | .nsec d => .ok ((w.writeName d.nextName false).raw d.typeBitmap)
  | .nsec3 d =>
      let w := ((w.u8 d.hashAlgorithm).u8 d.flags).u16 d.iterations
      .ok (((w.counted d.salt).counted d.nextHashed).raw d.typeBitmap)
  | .nsec3param d =>
      .ok ((((w.u8 d.hashAlgorithm).u8 d.flags).u16 d.iterations).counted d.salt)
  | .naptr d =>
      let w := (w.u16 d.order).u16 d.preference
      .ok ((((w.counted d.flags).counted d.service).counted d.regexp).writeName d.replacement false)
  | .uri d => .ok (((w.u16 d.priority).u16 d.weight).raw d.target)
  | .svcb d | .https d => .ok (emitSvcb d w)
  | .tsig d => .ok (emitTsig d w)
  | .unknown _ data => .ok (w.raw data)

/-! ### Dispatch -/

/-- `rdata_type`. -/
def rdataType : Rdata → RRType
  | .a _ => RRType.a
  | .aaaa _ => RRType.aaaa
  | .ns _ => RRType.ns
  | .cname _ => RRType.cname
  | .ptr _ => RRType.ptr
  | .dname _ => RRType.dname
  | .soa _ => RRType.soa
  | .mx _ => RRType.mx
  | .srv _ => RRType.srv
  | .txt _ => RRType.txt
  | .spf _ => RRType.spf
  | .hinfo _ => RRType.hinfo
  | .caa _ => RRType.caa
  | .sshfp _ => RRType.sshfp
  | .tlsa _ => RRType.tlsa
  | .ds _ => RRType.ds
  | .cds _ => RRType.cds
  | .dnskey _ => RRType.dnskey
  | .cdnskey _ => RRType.cdnskey
  | .rrsig _ => RRType.rrsig
  | .nsec _ => RRType.nsec
  | .nsec3 _ => RRType.nsec3
  | .nsec3param _ => RRType.nsec3param
  | .naptr _ => RRType.naptr
  | .uri _ => RRType.uri
  | .svcb _ => RRType.svcb
  | .https _ => RRType.https
  | .tsig _ => RRType.tsig
  | .unknown rtype _ => rtype

/-- `_REGISTRY`. -/
def registry : List (RRType × (Nat → Read Rdata)) :=
  [(RRType.a, parseA), (RRType.aaaa, parseAaaa), (RRType.ns, parseName .ns),
   (RRType.cname, parseName .cname), (RRType.ptr, parseName .ptr), (RRType.dname, parseName .dname),
   (RRType.soa, parseSoa), (RRType.mx, parseMx), (RRType.srv, parseSrv), (RRType.txt, parseTxt .txt),
   (RRType.spf, parseTxt .spf), (RRType.hinfo, parseHinfo), (RRType.caa, parseCaa),
   (RRType.sshfp, parseSshfp), (RRType.tlsa, parseTlsa), (RRType.ds, parseDs .ds),
   (RRType.cds, parseDs .cds), (RRType.dnskey, parseDnskey .dnskey),
   (RRType.cdnskey, parseDnskey .cdnskey), (RRType.rrsig, parseRrsig), (RRType.nsec, parseNsec),
   (RRType.nsec3, parseNsec3), (RRType.nsec3param, parseNsec3param), (RRType.naptr, parseNaptr),
   (RRType.uri, parseUri), (RRType.svcb, parseSvcb .svcb), (RRType.https, parseSvcb .https),
   (RRType.tsig, parseTsigRdata)]

/-- `_NAME_BEARING`; `KX` is no member of `Type`, so it drops out. -/
def nameBearing : List RRType :=
  [RRType.ns, RRType.cname, RRType.soa, RRType.ptr, RRType.mx, RRType.srv, RRType.naptr,
   RRType.dname, RRType.rrsig, RRType.nsec, RRType.svcb, RRType.https, RRType.rp]

def readUnknown (rtype : RRType) (rdlen : Nat) : Read Rdata := do
  let data ← read rdlen
  return .unknown rtype data

/-- Undecodable data of a type without names in it is kept raw. -/
def parseRdata (rtype : RRType) (rdlen : Nat) : Read Rdata := fun r =>
  match registry.lookup rtype with
  | none => readUnknown rtype rdlen r
  | some codec =>
      match codec rdlen r with
      | .error e =>
          if rtype ∈ nameBearing then .error (.undecodableRdata rtype e)
          else readUnknown rtype rdlen r
      | .ok (rd, next) =>
          if next.pos ≠ r.pos + rdlen then .error (.rdataUsed rtype (next.pos - r.pos) rdlen)
          else .ok (rd, next)

end Rdata

end Trench.Wire
