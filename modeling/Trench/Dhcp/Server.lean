import Mathlib
import Trench.Dhcp.Scope
import Trench.Wire.Cursor

set_option autoImplicit false

/- What a DHCP server replies. -/
namespace Trench.Dhcp

open Wire

inductive MessageType where
  | discover
  | offer
  | request
  | decline
  | ack
  | nak
  | release
  | inform
  deriving DecidableEq

def MessageType.code : MessageType → UInt8
  | .discover => 1
  | .offer => 2
  | .request => 3
  | .decline => 4
  | .ack => 5
  | .nak => 6
  | .release => 7
  | .inform => 8

namespace Opt

def subnet : UInt8 := 1
def router : UInt8 := 3
def dns : UInt8 := 6
def hostname : UInt8 := 12
def requestedIp : UInt8 := 50
def leaseTime : UInt8 := 51
def msgType : UInt8 := 53
def serverId : UInt8 := 54
def paramList : UInt8 := 55
def renewal : UInt8 := 58
def rebind : UInt8 := 59
def dnr : UInt8 := 162
def stop : UInt8 := 255

end Opt

structure DhcpPacket where
  op : UInt8 := 1
  htype : UInt8 := 1
  hlen : UInt8 := 6
  hops : UInt8 := 0
  xid : UInt32 := 0
  secs : UInt16 := 0
  flags : UInt16 := 0
  ciaddr : UInt32 := 0
  yiaddr : UInt32 := 0
  siaddr : UInt32 := 0
  giaddr : UInt32 := 0
  chaddr : Octets := List.replicate 6 0
  options : Dict UInt8 Octets := .empty

namespace DhcpPacket

def hexOctet (o : UInt8) : Text := [Nat.digitChar (o.toNat / 16), Nat.digitChar (o.toNat % 16)]

def mac (p : DhcpPacket) : Text := [':'].intercalate ((p.chaddr.take p.hlen.toNat).map hexOctet)

def msgType (p : DhcpPacket) : Option UInt8 := (p.options.get? Opt.msgType).bind List.head?

/-- An option that holds one address. -/
def address (p : DhcpPacket) (code : UInt8) : Option UInt32 :=
  match p.options.get? code with
  | some [a, b, c, d] => some (join32 (join16 a b) (join16 c d))
  | _ => none

def requestedIp (p : DhcpPacket) : Option UInt32 := p.address Opt.requestedIp

def serverId (p : DhcpPacket) : Option UInt32 := p.address Opt.serverId

/-- Latin-1. -/
def hostname (p : DhcpPacket) : Text :=
  ((p.options.get? Opt.hostname).getD []).map fun o => Char.ofNat o.toNat

def requestedOptions (p : DhcpPacket) : Octets := (p.options.get? Opt.paramList).getD []

/-- `_parse_options`. -/
def parseOptions : Nat → Octets → Dict UInt8 Octets → Option (Dict UInt8 Octets)
  | 0, _, opts => some opts
  | _, [], opts => some opts
  | fuel + 1, code :: rest, opts =>
      if code = Opt.stop then some opts
      else if code = 0 then parseOptions fuel rest opts
      else
        match rest with
        | [] => none
        | length :: rest =>
            if rest.length < length.toNat then none
            else parseOptions fuel (rest.drop length.toNat)
              (opts.set code ((opts.get? code).getD [] ++ rest.take length.toNat))

def u16At (data : Octets) (i : Nat) : UInt16 := join16 (data.getD i 0) (data.getD (i + 1) 0)

def u32At (data : Octets) (i : Nat) : UInt32 := join32 (u16At data i) (u16At data (i + 2))

def parse (data : Octets) : Option DhcpPacket := do
  if data.length < 240 ∨ (data.drop 236).take 4 ≠ [0x63, 0x82, 0x53, 0x63] then none
  else
    let options ← parseOptions data.length (data.drop 240) .empty
    some {
      op := data.getD 0 0
      htype := data.getD 1 0
      hlen := data.getD 2 0
      hops := data.getD 3 0
      xid := u32At data 4
      secs := u16At data 8
      flags := u16At data 10
      ciaddr := u32At data 12
      yiaddr := u32At data 16
      siaddr := u32At data 20
      giaddr := u32At data 24
      chaddr := (data.drop 28).take 16
      options }

end DhcpPacket

/-- `opt_u32`, which raises where four octets do not hold the number. -/
def optU32 (v : ℤ) : Option Octets :=
  if 0 ≤ v ∧ v < 2 ^ 32 then some (octets32 (UInt32.ofNat v.toNat)) else none

/-- `_subnet_mask`, in the octets of its option. -/
def subnetMask (network : Text) : Option Octets := do
  let net ← ipNetwork network
  if net.six then none else some (octets32 (UInt32.ofNat (2 ^ 32 - 2 ^ (32 - net.prefixlen))))

/-- `_reply`; nothing where it raises. -/
def reply (req : DhcpPacket) (s : Scope) (serverIp yiaddr : UInt32) (mtype : MessageType) (dnr : Octets) :
    Option DhcpPacket := do
  let leaseTime ← optU32 s.leaseTime
  let renewal ← optU32 (s.leaseTime / 2)
  let rebind ← optU32 (s.leaseTime * 7 / 8)
  let mask ← subnetMask s.network
  let opts := (((((Dict.empty.set Opt.msgType [mtype.code]).set Opt.serverId (octets32 serverIp)).set
    Opt.leaseTime leaseTime).set Opt.renewal renewal).set Opt.rebind rebind).set Opt.subnet mask
  let opts := match s.router with
    | none => opts
    | some router => opts.set Opt.router (octets32 router)
  let opts := if s.dns = [] then opts else opts.set Opt.dns (s.dns.flatMap octets32)
  let opts := if dnr ≠ [] ∧ Opt.dnr ∈ req.requestedOptions then opts.set Opt.dnr dnr else opts
  some {
    op := 2
    htype := req.htype
    hlen := req.hlen
    xid := req.xid
    flags := req.flags
    yiaddr
    siaddr := serverIp
    giaddr := req.giaddr
    chaddr := req.chaddr
    options := opts }

/-- `_nak`. -/
def nak (req : DhcpPacket) (serverIp : UInt32) : DhcpPacket :=
  { op := 2
    htype := req.htype
    hlen := req.hlen
    xid := req.xid
    flags := req.flags
    chaddr := req.chaddr
    options := (Dict.empty.set Opt.msgType [MessageType.nak.code]).set Opt.serverId (octets32 serverIp) }

/-- `build_reply`: the reply, where there is one, and the leases after it. -/
def buildReply (req : DhcpPacket) (s : Scope) (leases : Leases) (serverIp : UInt32) (now : ℚ) (dnr : Octets) :
    Option DhcpPacket × Leases :=
  match req.msgType with
  | some 1 =>
      match s.allocate leases req.mac req.hostname none now true with
      | (none, leases) => (none, leases)
      | (some lease, leases) => (reply req s serverIp lease.ip .offer dnr, leases)
  | some 3 =>
      if req.serverId.any fun chosen => decide (chosen ≠ serverIp) then (none, leases)
      else
        match s.allocate leases req.mac req.hostname req.requestedIp now false with
        | (none, leases) => (some (nak req serverIp), leases)
        | (some lease, leases) =>
            if req.requestedIp.any fun ip => decide (ip ≠ lease.ip) then (some (nak req serverIp), leases)
            else (reply req s serverIp lease.ip .ack dnr, leases)
  | some 7 => (none, (Scope.release leases req.mac (some req.ciaddr)).2)
  | some 4 =>
      match req.requestedIp with
      | none => (none, leases)
      | some declined => (none, (Scope.release leases req.mac (some declined)).2)
  | _ => (none, leases)

end Trench.Dhcp
