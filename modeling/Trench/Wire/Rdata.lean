import Mathlib
import Trench.Wire.RRTypes

set_option autoImplicit false

/- The data of one record. A field that only the wire parser or the signer fills
has the width it has there; a field that a zone file or a rewrite rule may set to
any number is an `Int`, and is cut to its width when it is written. -/
namespace Trench.Wire

structure SoaData where
  mname : Name
  rname : Name
  serial : Int
  refresh : Int
  retry : Int
  expire : Int
  minimum : Int
  deriving DecidableEq

structure MxData where
  preference : Int
  exchange : Name
  deriving DecidableEq

structure SrvData where
  priority : Int
  weight : Int
  port : Int
  target : Name
  deriving DecidableEq

structure HinfoData where
  cpu : Octets
  os : Octets
  deriving DecidableEq

structure CaaData where
  flags : Int
  tag : Octets
  value : Octets
  deriving DecidableEq

structure SshfpData where
  algorithm : UInt8
  fpType : UInt8
  fingerprint : Octets
  deriving DecidableEq

structure TlsaData where
  usage : UInt8
  selector : UInt8
  mtype : UInt8
  cert : Octets
  deriving DecidableEq

structure DsData where
  keyTag : UInt16
  algorithm : UInt8
  digestType : UInt8
  digest : Octets
  deriving DecidableEq

structure DnskeyData where
  flags : UInt16
  protocol : UInt8
  algorithm : UInt8
  publicKey : Octets
  deriving DecidableEq

structure RrsigData where
  typeCovered : RRType
  algorithm : UInt8
  labels : UInt8
  originalTtl : UInt32
  expiration : UInt32
  inception : UInt32
  keyTag : UInt16
  signer : Name
  signature : Octets
  deriving DecidableEq

structure NsecData where
  nextName : Name
  typeBitmap : Octets
  deriving DecidableEq

structure Nsec3ParamData where
  hashAlgorithm : UInt8
  flags : UInt8
  iterations : UInt16
  salt : Octets
  deriving DecidableEq

structure Nsec3Data where
  hashAlgorithm : UInt8
  flags : UInt8
  iterations : UInt16
  salt : Octets
  nextHashed : Octets
  typeBitmap : Octets
  deriving DecidableEq

structure NaptrData where
  order : UInt16
  preference : UInt16
  flags : Octets
  service : Octets
  regexp : Octets
  replacement : Name
  deriving DecidableEq

structure UriData where
  priority : UInt16
  weight : UInt16
  target : Octets
  deriving DecidableEq

structure SvcbData where
  priority : UInt16
  target : Name
  params : Octets
  deriving DecidableEq

/-- The time is 48 bits wide on the wire. -/
structure TsigData where
  algorithm : Name
  timeSigned : BitVec 48
  fudge : UInt16
  mac : Octets
  originalId : UInt16
  error : UInt16
  other : Octets
  deriving DecidableEq

/-- One constructor for each class of the source; two classes may share a
structure, as `CDS` inherits from `DS`. -/
inductive Rdata where
  | a (address : Text)
  | aaaa (address : Text)
  | ns (name : Name)
  | cname (name : Name)
  | ptr (name : Name)
  | dname (name : Name)
  | soa (data : SoaData)
  | mx (data : MxData)
  | srv (data : SrvData)
  | txt (strings : List Octets)
  | spf (strings : List Octets)
  | hinfo (data : HinfoData)
  | caa (data : CaaData)
  | sshfp (data : SshfpData)
  | tlsa (data : TlsaData)
  | ds (data : DsData)
  | cds (data : DsData)
  | dnskey (data : DnskeyData)
  | cdnskey (data : DnskeyData)
  | rrsig (data : RrsigData)
  | nsec (data : NsecData)
  | nsec3 (data : Nsec3Data)
  | nsec3param (data : Nsec3ParamData)
  | naptr (data : NaptrData)
  | uri (data : UriData)
  | svcb (data : SvcbData)
  | https (data : SvcbData)
  | tsig (data : TsigData)
  | unknown (rtype : RRType) (data : Octets)
  deriving DecidableEq

/-- Two values are equal in the source exactly when their folded forms are. -/
def Rdata.fold : Rdata → Rdata
  | .ns name => .ns name.canonicalize
  | .cname name => .cname name.canonicalize
  | .ptr name => .ptr name.canonicalize
  | .dname name => .dname name.canonicalize
  | .soa d => .soa { d with mname := d.mname.canonicalize, rname := d.rname.canonicalize }
  | .mx d => .mx { d with exchange := d.exchange.canonicalize }
  | .srv d => .srv { d with target := d.target.canonicalize }
  | .rrsig d => .rrsig { d with signer := d.signer.canonicalize }
  | .nsec d => .nsec { d with nextName := d.nextName.canonicalize }
  | .naptr d => .naptr { d with replacement := d.replacement.canonicalize }
  | .svcb d => .svcb { d with target := d.target.canonicalize }
  | .https d => .https { d with target := d.target.canonicalize }
  | .tsig d => .tsig { d with algorithm := d.algorithm.canonicalize }
  | rd => rd

end Trench.Wire
