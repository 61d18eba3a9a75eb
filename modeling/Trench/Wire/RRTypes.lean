import Mathlib
import Trench.Wire.Name

set_option autoImplicit false

namespace Trench.Wire

/-- Record types stay numbers: an unregistered type is as good as any other. -/
abbrev RRType := UInt16

namespace RRType

def a : RRType := 1
def ns : RRType := 2
def cname : RRType := 5
def soa : RRType := 6
def ptr : RRType := 12
def hinfo : RRType := 13
def mx : RRType := 15
def txt : RRType := 16
def rp : RRType := 17
def aaaa : RRType := 28
def loc : RRType := 29
def srv : RRType := 33
def naptr : RRType := 35
def cert : RRType := 37
def dname : RRType := 39
def opt : RRType := 41
def ds : RRType := 43
def sshfp : RRType := 44
def ipseckey : RRType := 45
def rrsig : RRType := 46
def nsec : RRType := 47
def dnskey : RRType := 48
def nsec3 : RRType := 50
def nsec3param : RRType := 51
def tlsa : RRType := 52
def smimea : RRType := 53
def cds : RRType := 59
def cdnskey : RRType := 60
def openpgpkey : RRType := 61
def svcb : RRType := 64
def https : RRType := 65
def spf : RRType := 99
def tkey : RRType := 249
def tsig : RRType := 250
def ixfr : RRType := 251
def axfr : RRType := 252
def any : RRType := 255
def uri : RRType := 256
def caa : RRType := 257

/-- `_TYPE_TEXT`, number to mnemonic. -/
def typeText : List (RRType × String) :=
  [(a, "A"), (ns, "NS"), (cname, "CNAME"), (soa, "SOA"), (ptr, "PTR"), (hinfo, "HINFO"),
   (mx, "MX"), (txt, "TXT"), (rp, "RP"), (aaaa, "AAAA"), (loc, "LOC"), (srv, "SRV"),
   (naptr, "NAPTR"), (cert, "CERT"), (dname, "DNAME"), (opt, "OPT"), (ds, "DS"),
   (sshfp, "SSHFP"), (ipseckey, "IPSECKEY"), (rrsig, "RRSIG"), (nsec, "NSEC"),
   (dnskey, "DNSKEY"), (nsec3, "NSEC3"), (nsec3param, "NSEC3PARAM"), (tlsa, "TLSA"),
   (smimea, "SMIMEA"), (cds, "CDS"), (cdnskey, "CDNSKEY"), (openpgpkey, "OPENPGPKEY"),
   (svcb, "SVCB"), (https, "HTTPS"), (spf, "SPF"), (uri, "URI"), (caa, "CAA"), (any, "ANY"),
   (axfr, "AXFR"), (ixfr, "IXFR"), (tkey, "TKEY"), (tsig, "TSIG")]

/-- `type_to_text`. -/
def toText (t : RRType) : Text :=
  match typeText.lookup t with
  | some name => name.toList
  | none => "TYPE".toList ++ (toString t.toNat).toList

end RRType

abbrev RRClass := UInt16

namespace RRClass

def «in» : RRClass := 1
def none : RRClass := 254
def any : RRClass := 255

end RRClass

end Trench.Wire
