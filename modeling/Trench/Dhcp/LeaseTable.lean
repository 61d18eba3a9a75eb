import Mathlib
import Trench.Dhcp.Server
import Trench.Lib.Machine

set_option autoImplicit false

/- The table of leases along the packets that a server answers. -/
namespace Trench.Dhcp

open Wire

namespace Scope

/-! ### What is granted -/

/-- Why a client is given an address: it is reserved for it, it has it already, or nobody has it. -/
inductive Allowed (s : Scope) (leases : Leases) (mac : Text) (now : ℚ) (offer : Bool) (ip : UInt32) : Prop where
  | reserved (own : s.reservations.get? mac = some ip)
      (ended : offer = true → ∀ lease, leases.get? mac = some lease → lease.live now = false)
  | renewed (lease : Lease) (unreserved : s.reservations.get? mac = none) (held : leases.get? mac = some lease)
      (live : lease.live now = true) (same : lease.ip = ip) (asked : offer = false)
  | free (unreserved : s.reservations.get? mac = none)
      (ended : ∀ lease, leases.get? mac = some lease → lease.live now = false)
      (ranged : s.inRange ip = true) (unused : s.inUse leases now ip = false)
      (few : offer = true → offers leases now < s.offerCap)

section

variable {s : Scope} {leases : Leases} {mac hostname : Text} {requested : Option UInt32} {now : ℚ} {offer : Bool}

theorem firstFree_spec {ip : UInt32} (found : s.firstFree leases now = some ip) :
    s.inRange ip = true ∧ s.inUse leases now ip = false := by
  have unused := List.find?_some found
  obtain ⟨n, small, rfl⟩ := List.mem_map.mp (List.mem_of_find?_eq_some found)
  rw [List.mem_range] at small
  have bound := s.rangeEnd.toNat_lt
  refine ⟨?_, by rwa [Bool.not_eq_true'] at unused⟩
  rw [inRange, Bool.and_eq_true, decide_eq_true_eq, decide_eq_true_eq, UInt32.le_iff_toNat_le,
    UInt32.le_iff_toNat_le, UInt32.toNat_ofNat_of_lt' (by rw [UInt32.size]; omega)]
  omega

/-- What `allocate` does: it repeats a live offer or lease, grants an address, or has none to give. -/
theorem allocate_cases (s : Scope) (leases : Leases) (hostname : Text) (requested : Option UInt32) (now : ℚ)
    (offer : Bool) {mac' : Text} (lower : mac.map Char.toLower = mac') :
    (∃ lease, offer = true ∧ (s.reap leases now).get? mac' = some lease ∧ lease.live now = true ∧
      s.allocate leases mac hostname requested now offer = (some lease, s.reap leases now)) ∨
    (∃ ip, Allowed s (s.reap leases now) mac' now offer ip ∧
      s.allocate leases mac hostname requested now offer =
        (some (s.grant (s.reap leases now) mac' ip hostname now offer).1,
          (s.grant (s.reap leases now) mac' ip hostname now offer).2)) ∨
    s.allocate leases mac hostname requested now offer = (none, s.reap leases now) := by
  rw [allocate, lower]
  dsimp only
  generalize s.reap leases now = table
  generalize found : (table.get? mac').filter (·.live now) = existing
  have ended (missing : existing = none) : ∀ lease, table.get? mac' = some lease → lease.live now = false := by
    intro lease held
    rw [missing, held, Option.filter_eq_none_iff] at found
    exact Bool.eq_false_iff.mpr (found lease rfl)
  split
  · next again =>
      obtain ⟨lease, rfl⟩ := Option.isSome_iff_exists.mp again.2
      obtain ⟨held, live⟩ := Option.filter_eq_some_iff.mp found
      exact .inl ⟨lease, again.1, held, live, rfl⟩
  · next once =>
      refine .inr ?_
      cases own : s.reservations.get? mac' with
      | some ip =>
          refine .inl ⟨ip, .reserved own fun asked => ended ?_, rfl⟩
          exact Option.not_isSome_iff_eq_none.mp fun some => once ⟨asked, some⟩
      | none =>
          cases existing with
          | some lease =>
              obtain ⟨held, live⟩ := Option.filter_eq_some_iff.mp found
              exact .inl ⟨lease.ip, .renewed lease own held live rfl
                (Bool.eq_false_iff.mpr fun asked => once ⟨asked, rfl⟩), rfl⟩
          | none =>
              dsimp only
              split
              · exact .inr rfl
              · next few =>
                  have fresh (ip : UInt32) (ranged : s.inRange ip = true) (unused : s.inUse table now ip = false) :
                      Allowed s table mac' now offer ip :=
                    .free own (ended rfl) ranged unused fun asked => Nat.not_le.mp fun many => few ⟨asked, many⟩
                  split
                  · next ip asked =>
                      have fits := (Option.filter_eq_some_iff.mp asked).2
                      rw [Bool.and_eq_true, Bool.not_eq_true'] at fits
                      exact .inl ⟨ip, fresh ip fits.2 fits.1, rfl⟩
                  · split
                    · next ip first =>
                        obtain ⟨ranged, unused⟩ := firstFree_spec first
                        exact .inl ⟨ip, fresh ip ranged unused, rfl⟩
                    · exact .inr rfl

/-! ### The table -/

/-- The address is somebody's reservation. -/
def reserves (s : Scope) (ip : UInt32) : Bool := s.reservations.entries.any fun e => decide (e.2 = ip)

theorem reserves_iff {ip : UInt32} : s.reserves ip = true ↔ ∃ mac, s.reservations.get? mac = some ip := by
  rw [reserves, List.any_eq_true]
  constructor
  · rintro ⟨⟨mac, held⟩, listed, same⟩
    obtain rfl := of_decide_eq_true same
    exact ⟨mac, Dict.get?_eq_some_iff_mem.mpr listed⟩
  · rintro ⟨mac, held⟩
    exact ⟨(mac, ip), Dict.get?_eq_some_iff_mem.mp held, decide_eq_true rfl⟩

/-- How many offers on unreserved addresses are out. -/
def openOffers (s : Scope) (leases : Leases) (now : ℚ) : Nat :=
  leases.entries.countP fun e => e.2.offered && e.2.live now && !s.reserves e.2.ip

/-- Nobody holds another's address, and the addresses are those they may be. -/
structure Tidy (s : Scope) (leases : Leases) (now : ℚ) : Prop where
  alone : ∀ mac other lease lease', leases.get? mac = some lease → leases.get? other = some lease' →
    lease.live now = true → lease'.live now = true → lease.ip = lease'.ip → mac = other
  reserved : ∀ mac ip lease, s.reservations.get? mac = some ip → leases.get? mac = some lease → lease.ip = ip
  unreserved : ∀ mac lease, s.reservations.get? mac = none → leases.get? mac = some lease →
    s.inRange lease.ip = true ∧ s.reserves lease.ip = false
  offered : s.openOffers leases now ≤ s.offerCap

theorem live_of_later {lease : Lease} {later : ℚ} (order : now ≤ later) (live : lease.live later = true) :
    lease.live now = true := by
  rw [Lease.live, decide_eq_true_eq] at live ⊢
  exact order.trans_lt live

theorem tidy_empty (now : ℚ) : Tidy s .empty now :=
  ⟨fun _ _ _ _ none => (by cases none), fun _ _ _ _ none => (by cases none), fun _ _ _ none => (by cases none),
    Nat.zero_le _⟩

theorem Tidy.later (tidy : Tidy s leases now) {later : ℚ} (order : now ≤ later) : Tidy s leases later := by
  refine ⟨?_, tidy.reserved, tidy.unreserved, le_trans ?_ tidy.offered⟩
  · intro mac other lease lease' held held' live live'
    exact tidy.alone mac other lease lease' held held' (live_of_later order live) (live_of_later order live')
  · refine List.countP_mono_left fun e _ out => ?_
    rw [Bool.and_eq_true, Bool.and_eq_true] at out ⊢
    exact ⟨⟨out.1.1, live_of_later order out.1.2⟩, out.2⟩

/-- With fewer entries, the table stays tidy. -/
theorem Tidy.fewer (tidy : Tidy s leases now) {less : Leases}
    (known : ∀ mac lease, less.get? mac = some lease → leases.get? mac = some lease)
    (sub : less.entries.Sublist leases.entries) : Tidy s less now := by
  refine ⟨?_, ?_, ?_, (List.Sublist.countP_le sub).trans tidy.offered⟩
  · intro mac other lease lease' held held'
    exact tidy.alone mac other lease lease' (known mac lease held) (known other lease' held')
  · exact fun mac ip lease own held => tidy.reserved mac ip lease own (known mac lease held)
  · exact fun mac lease own held => tidy.unreserved mac lease own (known mac lease held)

theorem get?_of_reap {lease : Lease} (held : (s.reap leases now).get? mac = some lease) :
    leases.get? mac = some lease := by
  rw [reap] at held
  split at held
  · exact held
  · exact Dict.get?_of_keep held

/-- A live entry is never reaped. -/
theorem get?_reap_of_live {lease : Lease} (held : leases.get? mac = some lease) (live : lease.live now = true) :
    (s.reap leases now).get? mac = some lease := by
  rw [reap]
  split
  · exact held
  · exact Dict.get?_keep.mpr ⟨held, live⟩

theorem Tidy.reap (tidy : Tidy s leases now) : Tidy s (s.reap leases now) now := by
  refine tidy.fewer (fun mac lease => get?_of_reap) ?_
  rw [Scope.reap]
  split
  · exact List.Sublist.refl _
  · exact List.filter_sublist

theorem inUse_of_live {lease : Lease} (held : leases.get? mac = some lease) (live : lease.live now = true) :
    s.inUse leases now lease.ip = true := by
  rw [inUse, Bool.or_eq_true, List.any_eq_true]
  refine .inl ⟨(mac, lease), Dict.get?_eq_some_iff_mem.mp held, ?_⟩
  rw [Bool.and_eq_true, decide_eq_true_eq]
  exact ⟨live, rfl⟩

/-- An address that a client is given is held by nobody else. -/
theorem Allowed.alone {ip : UInt32} (allowed : Allowed s leases mac now offer ip) (tidy : Tidy s leases now)
    {other : Text} {lease : Lease} (held : leases.get? other = some lease) (live : lease.live now = true)
    (same : lease.ip = ip) : other = mac := by
  cases allowed with
  | reserved own =>
      cases theirs : s.reservations.get? other with
      | some ip' =>
          have right := tidy.reserved other ip' lease theirs held
          rw [same] at right
          rw [← right] at theirs
          exact s.distinct other mac ip theirs own
      | none =>
          have free := (tidy.unreserved other lease theirs held).2
          rw [same, reserves_iff.mpr ⟨mac, own⟩] at free
          cases free
  | renewed mine unreserved owned alive equal =>
      exact tidy.alone other mac lease mine held owned live alive (same.trans equal.symm)
  | free unreserved ended ranged unused few =>
      rw [← same, inUse_of_live held live] at unused
      cases unused

/-- What is granted to an unreserved client lies in the range, and nobody has it reserved. -/
theorem Allowed.unreserved {ip : UInt32} (allowed : Allowed s leases mac now offer ip) (tidy : Tidy s leases now)
    (none : s.reservations.get? mac = none) : s.inRange ip = true ∧ s.reserves ip = false := by
  cases allowed with
  | reserved own =>
      rw [none] at own
      cases own
  | renewed mine unreserved owned alive equal =>
      rw [← equal]
      exact tidy.unreserved mac mine none owned
  | free unreserved ended ranged unused few =>
      rw [inUse, Bool.or_eq_false_iff] at unused
      exact ⟨ranged, unused.2⟩

theorem get?_grant {ip : UInt32} (other : Text) : (s.grant leases mac ip hostname now offer).2.get? other =
    if other = mac then some (s.grant leases mac ip hostname now offer).1 else leases.get? other := by
  change (leases.set mac _).get? other = _
  rw [Dict.get?_set]
  by_cases same : other = mac
  · rw [if_pos same, if_pos (beq_iff_eq.mpr same.symm)]
    rfl
  · rw [if_neg same, if_neg fun equal => same (eq_of_beq equal).symm]

theorem Tidy.grant {ip : UInt32} (tidy : Tidy s leases now) (allowed : Allowed s leases mac now offer ip) :
    Tidy s (s.grant leases mac ip hostname now offer).2 now := by
  refine ⟨?_, ?_, ?_, ?_⟩
  · intro first second lease lease' held held' live live' same
    rw [get?_grant] at held held'
    split at held
    · next here =>
        split at held'
        · next there => exact here.trans there.symm
        · cases held
          exact here.trans (allowed.alone tidy held' live' same.symm).symm
    · split at held'
      · next there =>
          cases held'
          exact (allowed.alone tidy held live same).trans there.symm
      · exact tidy.alone first second lease lease' held held' live live' same
  · intro owner own lease reserved held
    rw [get?_grant] at held
    split at held
    · next here =>
        cases held
        rw [here] at reserved
        change ip = own
        cases allowed with
        | reserved mine =>
            rw [reserved] at mine
            exact (Option.some.inj mine).symm
        | renewed mine unreserved =>
            rw [reserved] at unreserved
            cases unreserved
        | free unreserved =>
            rw [reserved] at unreserved
            cases unreserved
    · exact tidy.reserved owner own lease reserved held
  · intro owner lease unreserved held
    rw [get?_grant] at held
    split at held
    · next here =>
        cases held
        rw [here] at unreserved
        exact allowed.unreserved tidy unreserved
    · exact tidy.unreserved owner lease unreserved held
  · have count := Dict.countP_set_le leases mac (s.grant leases mac ip hostname now offer).1 fun e =>
      e.2.offered && e.2.live now && !s.reserves e.2.ip
    refine count.trans ?_
    split
    · next out =>
        rw [Bool.and_eq_true, Bool.and_eq_true, Bool.not_eq_true'] at out
        obtain ⟨⟨offered, -⟩, unreserved⟩ := out
        change offer = true at offered
        change s.reserves ip = false at unreserved
        cases allowed with
        | reserved own =>
            rw [reserves_iff.mpr ⟨mac, own⟩] at unreserved
            cases unreserved
        | renewed mine none owned alive equal asked =>
            rw [offered] at asked
            cases asked
        | free none ended ranged unused few =>
            refine (Nat.succ_le_succ (List.countP_mono_left fun e _ out => ?_)).trans (few offered)
            rw [Bool.and_eq_true] at out
            exact out.1
    · exact tidy.offered

/-! ### Its size -/

/-- The table has one entry more at most than the larger of its bound and the entries that are live. -/
def Bounded (s : Scope) (leases : Leases) (now : ℚ) : Prop :=
  leases.size ≤ max s.maxLeases (leases.entries.countP fun e => e.2.live now) + 1

theorem size_eq (leases : Leases) (now : ℚ) : leases.size =
    leases.entries.countP (fun e => e.2.live now) + leases.entries.countP (fun e => !e.2.live now) := by
  rw [Dict.size, List.length_eq_countP_add_countP fun e => e.2.live now]
  simp only [Bool.not_eq_true, Bool.decide_eq_false]

/-- After reaping, the table is small or has live entries only. -/
theorem reap_small (s : Scope) (leases : Leases) (now : ℚ) : (s.reap leases now).size ≤ s.maxLeases ∨
    (s.reap leases now).entries.countP (fun e => !e.2.live now) = 0 := by
  rw [reap]
  split
  · next small => exact .inl small
  · refine .inr (List.countP_eq_zero.mpr fun e held => ?_)
    have live := (List.mem_filter.mp held).2
    rw [live]
    exact Bool.false_ne_true

theorem bounded_reap (s : Scope) (leases : Leases) (now : ℚ) : Bounded s (s.reap leases now) now := by
  rw [Bounded]
  rcases reap_small s leases now with small | alive
  · omega
  · have whole := size_eq (s.reap leases now) now
    omega

theorem bounded_grant (s : Scope) (leases : Leases) (mac hostname : Text) (ip : UInt32) (now : ℚ) (offer : Bool) :
    Bounded s (s.grant (s.reap leases now) mac ip hostname now offer).2 now := by
  rw [Bounded]
  have one := Dict.countP_set_le (s.reap leases now) mac
    (s.grant (s.reap leases now) mac ip hostname now offer).1 fun e => !e.2.live now
  have most := Dict.size_set_le (s.reap leases now) mac (s.grant (s.reap leases now) mac ip hostname now offer).1
  have whole := size_eq (s.grant (s.reap leases now) mac ip hostname now offer).2 now
  change (s.grant (s.reap leases now) mac ip hostname now offer).2.size ≤ _ at most
  change (s.grant (s.reap leases now) mac ip hostname now offer).2.entries.countP _ ≤ _ at one
  rcases reap_small s leases now with small | alive
  · omega
  · rw [alive] at one
    split at one <;> omega

end

end Scope

/-! ### The server -/

/-- The client a packet comes from, as the table knows it. -/
def DhcpPacket.client (req : DhcpPacket) : Text := req.mac.map Char.toLower

/-- The address that a packet gives back by name. -/
def DhcpPacket.gaveUp (req : DhcpPacket) : Option UInt32 :=
  match req.msgType with
  | some 7 => some req.ciaddr
  | some 4 => req.requestedIp
  | _ => none

/-- A REQUEST that names another server is that server's. -/
def DhcpPacket.allocates (req : DhcpPacket) (serverIp : UInt32) : Bool :=
  decide (req.msgType = some 1) ||
    (decide (req.msgType = some 3) && !(req.serverId.any fun chosen => decide (chosen ≠ serverIp)))

/-- The leases and the clock, and when an address was last acknowledged to a client that has not given
it back since. -/
structure Server where
  leases : Leases := .empty
  now : ℚ
  acked : Text × UInt32 → Option ℚ := fun _ => none

inductive Event where
  | waits (seconds : ℚ≥0)
  | receives (req : DhcpPacket)

namespace Server

variable (s : Scope) (serverIp : UInt32) (dnr : Octets)

def answer (v : Server) (req : DhcpPacket) : Option DhcpPacket × Leases :=
  buildReply req s v.leases serverIp v.now dnr

/-- The address that a reply acknowledges or offers. -/
def names (out : Option DhcpPacket) (mtype : MessageType) : Option UInt32 :=
  out.bind fun p => if p.msgType = some mtype.code then some p.yiaddr else none

def record (v : Server) (req : DhcpPacket) (out : Option DhcpPacket) : Text × UInt32 → Option ℚ :=
  match names out .ack, req.gaveUp with
  | some ip, _ => Function.update v.acked (req.client, ip) (some v.now)
  | none, some ip => Function.update v.acked (req.client, ip) none
  | none, none => v.acked

def step (v : Server) : Event → Option Server
  | .waits seconds => some { v with now := v.now + seconds }
  | .receives req =>
      let (out, leases) := v.answer s serverIp dnr req
      some { v with leases, acked := v.record req out }

/-- An address that is acknowledged to one client is offered and acknowledged to no other while its
lease lasts. -/
def Exclusive (v : Server) : Event → Prop
  | .waits _ => True
  | .receives req => ∀ ip, names (v.answer s serverIp dnr req).1 .offer = some ip ∨
      names (v.answer s serverIp dnr req).1 .ack = some ip →
      ∀ other time, other ≠ req.client → v.acked (other, ip) = some time → time + s.leaseTime ≤ v.now

/-- Where a packet has the server look for an address, the table is small afterwards. -/
def Trimmed (e : Event) (v' : Server) : Prop :=
  ∀ req, e = .receives req → req.allocates serverIp = true → Scope.Bounded s v'.leases v'.now

section

variable {s : Scope} {serverIp : UInt32} {dnr : Octets} {v v' : Server}

/-- What was acknowledged is still held while its lease lasts. -/
def Honours (s : Scope) (leases : Leases) (now : ℚ) (acked : Text × UInt32 → Option ℚ) : Prop :=
  ∀ mac ip time, acked (mac, ip) = some time → time ≤ now ∧
    (now < time + s.leaseTime → ∃ lease, leases.get? mac = some lease ∧ lease.ip = ip ∧
      time + s.leaseTime ≤ lease.expire)

structure Kept (s : Scope) (v : Server) : Prop where
  tidy : Scope.Tidy s v.leases v.now
  honours : Honours s v.leases v.now v.acked

theorem names_reply {req p : DhcpPacket} {ip : UInt32} {mtype : MessageType}
    (sent : reply req s serverIp ip mtype dnr = some p) : p.msgType = some mtype.code ∧ p.yiaddr = ip := by
  obtain ⟨leaseTime, -, sent⟩ := Option.bind_eq_some_iff.mp sent
  obtain ⟨renewal, -, sent⟩ := Option.bind_eq_some_iff.mp sent
  obtain ⟨rebind, -, sent⟩ := Option.bind_eq_some_iff.mp sent
  obtain ⟨mask, -, sent⟩ := Option.bind_eq_some_iff.mp sent
  cases sent
  refine ⟨?_, rfl⟩
  rw [DhcpPacket.msgType]
  have apart (d : Dict UInt8 Octets) (code : UInt8) (value : Octets) (other : (code == Opt.msgType) = false) :
      (d.set code value).get? Opt.msgType = d.get? Opt.msgType := by
    rw [Dict.get?_set, other]
    rfl
  have dns (d : Dict UInt8 Octets) : (if s.dns = [] then d else
      d.set Opt.dns (s.dns.flatMap octets32)).get? Opt.msgType = d.get? Opt.msgType := by
    split
    · rfl
    · exact apart d Opt.dns _ (by decide)
  have discovery (d : Dict UInt8 Octets) : (if dnr ≠ [] ∧ Opt.dnr ∈ req.requestedOptions then
      d.set Opt.dnr dnr else d).get? Opt.msgType = d.get? Opt.msgType := by
    split
    · exact apart d Opt.dnr _ (by decide)
    · rfl
  have base : ((((((Dict.empty.set Opt.msgType [mtype.code]).set Opt.serverId (octets32 serverIp)).set Opt.leaseTime
      leaseTime).set Opt.renewal renewal).set Opt.rebind rebind).set Opt.subnet mask).get? Opt.msgType =
        some [mtype.code] := by
    rw [apart _ Opt.subnet _ (by decide), apart _ Opt.rebind _ (by decide), apart _ Opt.renewal _ (by decide),
      apart _ Opt.leaseTime _ (by decide), apart _ Opt.serverId _ (by decide), Dict.get?_set, if_pos BEq.rfl]
  rw [discovery, dns]
  cases s.router with
  | none =>
      rw [base]
      rfl
  | some router =>
      dsimp only
      rw [apart _ Opt.router _ (by decide), base]
      rfl

theorem names_nak (req : DhcpPacket) (mtype : MessageType) (other : mtype ≠ .nak) :
    names (some (nak req serverIp)) mtype = none := by
  have kind : (nak req serverIp).msgType = some 6 := rfl
  rw [names, Option.bind_some, kind, if_neg]
  intro same
  cases mtype <;> first | exact other rfl | cases same

/-- What a reply names is what it was made for. -/
theorem names_of_reply {req : DhcpPacket} {ip ip' : UInt32} {mtype kind : MessageType}
    (named : names (reply req s serverIp ip mtype dnr) kind = some ip') : ip' = ip ∧ mtype.code = kind.code := by
  obtain ⟨p, sent, named⟩ := Option.bind_eq_some_iff.mp named
  obtain ⟨is, address⟩ := names_reply sent
  rw [is, address] at named
  split at named
  · next same =>
      cases named
      exact ⟨rfl, Option.some.inj same⟩
  · cases named

/-! ### Each packet -/

/-- The answer to a packet that has the server look for an address. -/
structure Allocates (s : Scope) (v : Server) (req : DhcpPacket) (out : Option DhcpPacket) (leases : Leases)
    (offer : Bool) : Prop where
  table : ∃ requested, leases = (s.allocate v.leases req.mac req.hostname requested v.now offer).2 ∧
    ∀ kind ip, names out kind = some ip → kind = .offer ∨ kind = .ack →
      ∃ lease, (s.allocate v.leases req.mac req.hostname requested v.now offer).1 = some lease ∧ lease.ip = ip
  acks : offer = true → names out .ack = none
  kept : req.gaveUp = none

/-- What the server does with a packet. -/
theorem answer_cases (s : Scope) (serverIp : UInt32) (dnr : Octets) (v : Server) (req : DhcpPacket) :
    (∃ offer, Allocates s v req (v.answer s serverIp dnr req).1 (v.answer s serverIp dnr req).2 offer) ∨
    ((v.answer s serverIp dnr req).1 = none ∧ req.allocates serverIp = false ∧
      ((∃ ip, req.gaveUp = some ip ∧
          (v.answer s serverIp dnr req).2 = (Scope.release v.leases req.mac (some ip)).2) ∨
        (req.gaveUp = none ∧ (v.answer s serverIp dnr req).2 = v.leases))) := by
  rw [answer, buildReply]
  split
  · next kind =>
      have given : req.gaveUp = none := by
        rw [DhcpPacket.gaveUp, kind]
        rfl
      refine .inl ⟨true, ?_⟩
      cases went : s.allocate v.leases req.mac req.hostname none v.now true with
      | mk lease leases =>
          cases lease with
          | none => exact ⟨⟨none, by rw [went], fun _ _ none => (by cases none)⟩, fun _ => rfl, given⟩
          | some lease =>
              refine ⟨⟨none, by rw [went], fun kind ip named _ => ⟨lease, by rw [went], ?_⟩⟩, fun _ => ?_, given⟩
              · exact (names_of_reply named).1.symm
              · cases acked : names (reply req s serverIp lease.ip .offer dnr) .ack with
                | none => rfl
                | some ip => exact absurd (names_of_reply acked).2 (by decide)
  · next kind =>
      have given : req.gaveUp = none := by
        rw [DhcpPacket.gaveUp, kind]
        rfl
      split
      · next elsewhere =>
          refine .inr ⟨rfl, ?_, .inr ⟨given, rfl⟩⟩
          rw [DhcpPacket.allocates, kind, elsewhere]
          rfl
      · refine .inl ⟨false, ?_⟩
        have refused (kind : MessageType) (ip : UInt32) (named : names (some (nak req serverIp)) kind = some ip)
            (good : kind = .offer ∨ kind = .ack) : False := by
          have other : kind ≠ .nak := by rcases good with rfl | rfl <;> decide
          rw [names_nak req kind other] at named
          cases named
        cases went : s.allocate v.leases req.mac req.hostname req.requestedIp v.now false with
        | mk lease leases =>
            cases lease with
            | none =>
                exact ⟨⟨req.requestedIp, by rw [went], fun kind ip named good => (refused kind ip named good).elim⟩,
                  fun no => (by cases no), given⟩
            | some lease =>
                dsimp only
                split
                · exact ⟨⟨req.requestedIp, by rw [went], fun kind ip named good => (refused kind ip named good).elim⟩,
                    fun no => (by cases no), given⟩
                · exact ⟨⟨req.requestedIp, by rw [went], fun kind ip named _ => ⟨lease, by rw [went],
                    (names_of_reply named).1.symm⟩⟩, fun no => (by cases no), given⟩
  · next kind =>
      refine .inr ⟨rfl, ?_, .inl ⟨req.ciaddr, ?_, rfl⟩⟩
      · rw [DhcpPacket.allocates, kind]
        rfl
      · rw [DhcpPacket.gaveUp, kind]
        rfl
  · next kind =>
      have given : req.gaveUp = req.requestedIp := by
        rw [DhcpPacket.gaveUp, kind]
        rfl
      have other : req.allocates serverIp = false := by
        rw [DhcpPacket.allocates, kind]
        rfl
      cases asked : req.requestedIp with
      | none => exact .inr ⟨rfl, other, .inr ⟨given.trans asked, rfl⟩⟩
      | some declined => exact .inr ⟨rfl, other, .inl ⟨declined, given.trans asked, rfl⟩⟩
  · next notDiscover notRequest notRelease notDecline =>
      refine .inr ⟨rfl, ?_, .inr ⟨?_, rfl⟩⟩
      · rw [DhcpPacket.allocates, decide_eq_false notDiscover, decide_eq_false notRequest]
        rfl
      · rw [DhcpPacket.gaveUp]
        split
        · next kind => exact absurd kind notRelease
        · next kind => exact absurd kind notDecline
        · rfl

/-! ### What is kept -/

section

variable {leases : Leases} {now : ℚ} {acked : Text × UInt32 → Option ℚ} {mac hostname : Text} {ip : UInt32}
  {offer : Bool}

theorem live_of_honoured {lease : Lease} {stop : ℚ} (later : now < stop) (lasts : stop ≤ lease.expire) :
    lease.live now = true := decide_eq_true (later.trans_le lasts)

theorem Honours.reap (honours : Honours s leases now acked) : Honours s (s.reap leases now) now acked := by
  intro mac ip time known
  obtain ⟨past, held⟩ := honours mac ip time known
  refine ⟨past, fun later => ?_⟩
  obtain ⟨lease, found, same, lasts⟩ := held later
  exact ⟨lease, Scope.get?_reap_of_live found (live_of_honoured later lasts), same, lasts⟩

/-- A client that still has an address is given that, and for the whole time of a lease. -/
theorem again_of_live (allowed : Scope.Allowed s leases mac now offer ip) (tidy : Scope.Tidy s leases now)
    {lease : Lease} (held : leases.get? mac = some lease) (live : lease.live now = true) :
    ip = lease.ip ∧ offer = false := by
  cases allowed with
  | reserved own ended =>
      refine ⟨(tidy.reserved mac ip lease own held).symm, Bool.eq_false_iff.mpr fun asked => ?_⟩
      rw [ended asked lease held] at live
      cases live
  | renewed mine unreserved owned alive same asked =>
      rw [held] at owned
      cases owned
      exact ⟨same.symm, asked⟩
  | free unreserved ended =>
      rw [ended lease held] at live
      cases live

theorem Honours.grant (hostname : Text) (honours : Honours s leases now acked) (tidy : Scope.Tidy s leases now)
    (allowed : Scope.Allowed s leases mac now offer ip) :
    Honours s (s.grant leases mac ip hostname now offer).2 now acked := by
  intro owner address time known
  obtain ⟨past, held⟩ := honours owner address time known
  refine ⟨past, fun later => ?_⟩
  obtain ⟨lease, found, same, lasts⟩ := held later
  rw [Scope.get?_grant]
  split
  · next here =>
      rw [here] at found
      obtain ⟨equal, whole⟩ := again_of_live allowed tidy found (live_of_honoured later lasts)
      refine ⟨_, rfl, equal.trans same, ?_⟩
      rw [Scope.grant, whole]
      exact add_le_add past (le_refl _)
  · exact ⟨lease, found, same, lasts⟩

theorem Honours.acknowledged (honours : Honours s leases now acked) {lease : Lease}
    (held : leases.get? mac = some lease) (same : lease.ip = ip) (lasts : now + s.leaseTime ≤ lease.expire) :
    Honours s leases now (Function.update acked (mac, ip) (some now)) := by
  intro owner address time known
  by_cases here : (owner, address) = (mac, ip)
  · rw [here, Function.update_self] at known
    cases known
    cases here
    exact ⟨le_refl _, fun _ => ⟨lease, held, same, lasts⟩⟩
  · rw [Function.update_of_ne here] at known
    exact honours owner address time known

theorem release_spec (leases : Leases) (ip : UInt32) {lower : Text} (same : mac.map Char.toLower = lower) :
    (Scope.release leases mac (some ip)).2 = leases ∨
      ((Scope.release leases mac (some ip)).2 = leases.erase lower ∧
        ∃ lease, leases.get? lower = some lease ∧ lease.ip = ip) := by
  rw [Scope.release, same]
  split
  · exact .inl rfl
  · next lease held =>
      split
      · exact .inl rfl
      · next named =>
          refine .inr ⟨rfl, lease, held, ?_⟩
          by_contra other
          exact named (decide_eq_true other)

theorem Honours.released (honours : Honours s leases now acked) {lower : Text}
    (same : mac.map Char.toLower = lower) :
    Honours s (Scope.release leases mac (some ip)).2 now (Function.update acked (lower, ip) none) := by
  intro owner address time known
  by_cases here : (owner, address) = (lower, ip)
  · rw [here, Function.update_self] at known
    cases known
  · rw [Function.update_of_ne here] at known
    obtain ⟨past, held⟩ := honours owner address time known
    refine ⟨past, fun later => ?_⟩
    obtain ⟨lease, found, own, lasts⟩ := held later
    refine ⟨lease, ?_, own, lasts⟩
    rcases release_spec leases ip same with still | ⟨gone, given, theirs, named⟩
    · rw [still]
      exact found
    · rw [gone, Dict.get?_erase, if_neg]
      · exact found
      · intro equal
        obtain rfl := eq_of_beq equal
        rw [found] at theirs
        cases theirs
        exact here (Prod.ext rfl (own.symm.trans named))

theorem tidy_release (tidy : Scope.Tidy s leases now) :
    Scope.Tidy s (Scope.release leases mac (some ip)).2 now := by
  rcases release_spec leases ip (rfl : mac.map Char.toLower = _) with still | ⟨gone, -⟩
  · rw [still]
    exact tidy
  · rw [gone]
    exact tidy.fewer (fun mac lease => Dict.get?_of_erase) List.filter_sublist

end

/-- A packet that has the server look for an address leaves the table as it should be. -/
theorem Kept.allocates (kept : v.Kept s) {req : DhcpPacket} {out : Option DhcpPacket} {leases : Leases}
    {offer : Bool} (went : Allocates s v req out leases offer) :
    Scope.Tidy s leases v.now ∧ Honours s leases v.now (v.record req out) ∧ Scope.Bounded s leases v.now ∧
      ∀ ip, names out .offer = some ip ∨ names out .ack = some ip →
        ∀ other time, other ≠ req.client → v.acked (other, ip) = some time → time + s.leaseTime ≤ v.now := by
  obtain ⟨⟨requested, rfl, named⟩, acks, given⟩ := went
  have tidy := kept.tidy.reap
  have honours := kept.honours.reap
  have unrecorded (none : names out .ack = none) : v.record req out = v.acked := by
    rw [record, none, given]
  -- Whoever was acknowledged this address has a live entry for it, and is the client.
  have exclusive (ip : UInt32) (alone : ∀ other lease, (s.reap v.leases v.now).get? other = some lease →
      lease.live v.now = true → lease.ip = ip → other = req.client) :
      ∀ other time, other ≠ req.client → v.acked (other, ip) = some time → time + s.leaseTime ≤ v.now := by
    intro other time apart known
    by_contra later
    obtain ⟨lease, held, same, lasts⟩ := (honours other ip time known).2 (not_le.mp later)
    exact apart (alone other lease held (live_of_honoured (not_le.mp later) lasts) same)
  have lower : req.mac.map Char.toLower = req.client := rfl
  have looked := Scope.allocate_cases s v.leases req.hostname requested v.now offer lower
  rcases looked with
    ⟨lease, offered, held, live, result⟩ | ⟨ip, allowed, result⟩ | result
  · rw [result] at named ⊢
    refine ⟨tidy, ?_, Scope.bounded_reap _ _ _, fun ip asked => exclusive ip fun other lease' held' live' same => ?_⟩
    · rw [unrecorded (acks offered)]
      exact honours
    · obtain ⟨given, equal, address⟩ : ∃ given, some lease = some given ∧ given.ip = ip := by
        rcases asked with asked | asked
        · exact named .offer ip asked (.inl rfl)
        · exact named .ack ip asked (.inr rfl)
      cases equal
      exact tidy.alone other req.client lease' lease held' held live' live (same.trans address.symm)
  · rw [result] at named ⊢
    have honoured := honours.grant req.hostname tidy allowed
    refine ⟨tidy.grant allowed, ?_, Scope.bounded_grant _ _ _ _ _ _ _, fun address asked =>
      exclusive address fun other lease' held' live' same => ?_⟩
    · cases acked : names out .ack with
      | none =>
          rw [unrecorded acked]
          exact honoured
      | some address =>
          have whole : offer = false := by
            refine Bool.eq_false_iff.mpr fun offered => ?_
            rw [acks offered] at acked
            cases acked
          obtain ⟨lease, equal, same⟩ := named .ack address acked (.inr rfl)
          cases equal
          rw [record, acked]
          refine honoured.acknowledged ?_ same ?_
          · rw [Scope.get?_grant, if_pos rfl]
          · rw [Scope.grant, whole]
            exact le_refl _
    · obtain ⟨lease, equal, same'⟩ : ∃ lease, some (s.grant (s.reap v.leases v.now) req.client ip req.hostname
          v.now offer).1 = some lease ∧ lease.ip = address := by
        rcases asked with asked | asked
        · exact named .offer address asked (.inl rfl)
        · exact named .ack address asked (.inr rfl)
      cases equal
      exact allowed.alone tidy held' live' (same.trans same'.symm)
  · rw [result] at named ⊢
    have silent (kind : MessageType) (good : kind = .offer ∨ kind = .ack) : names out kind = none := by
      cases sent : names out kind with
      | none => rfl
      | some ip =>
          obtain ⟨lease, none, -⟩ := named kind ip sent good
          cases none
    refine ⟨tidy, ?_, Scope.bounded_reap _ _ _, fun ip asked => ?_⟩
    · rw [unrecorded (silent .ack (.inr rfl))]
      exact honours
    · rw [silent .offer (.inl rfl), silent .ack (.inr rfl)] at asked
      rcases asked with none | none <;> cases none

theorem Kept.step (kept : v.Kept s) {e : Event} (taken : v.step s serverIp dnr e = some v') :
    v'.Kept s ∧ v.Exclusive s serverIp dnr e ∧ Trimmed s serverIp e v' := by
  cases e with
  | waits seconds =>
      cases taken
      have later : v.now ≤ v.now + seconds := le_add_of_nonneg_right seconds.2
      refine ⟨⟨kept.tidy.later later, fun mac ip time known => ?_⟩, trivial, fun _ event => by cases event⟩
      obtain ⟨past, held⟩ := kept.honours mac ip time known
      exact ⟨past.trans later, fun more => held (later.trans_lt more)⟩
  | receives req =>
      cases taken
      rcases answer_cases s serverIp dnr v req with
        ⟨offer, went⟩ | ⟨silent, other, rest⟩
      · obtain ⟨tidy, honours, bounded, exclusive⟩ := kept.allocates went
        refine ⟨⟨tidy, honours⟩, exclusive, fun asked event _ => ?_⟩
        cases event
        exact bounded
      · have exclusive : v.Exclusive s serverIp dnr (.receives req) := by
          intro ip asked
          rw [silent] at asked
          rcases asked with none | none <;> cases none
        refine ⟨?_, exclusive, fun asked event allocates => ?_⟩
        · rcases rest with ⟨ip, given, table⟩ | ⟨given, table⟩
          · refine ⟨?_, ?_⟩
            · change Scope.Tidy s (v.answer s serverIp dnr req).2 v.now
              rw [table]
              exact tidy_release kept.tidy
            · change Honours s (v.answer s serverIp dnr req).2 v.now (v.record req (v.answer s serverIp dnr req).1)
              rw [table, silent, record, given]
              exact kept.honours.released rfl
          · refine ⟨?_, ?_⟩
            · change Scope.Tidy s (v.answer s serverIp dnr req).2 v.now
              rw [table]
              exact kept.tidy
            · change Honours s (v.answer s serverIp dnr req).2 v.now (v.record req (v.answer s serverIp dnr req).1)
              rw [table, silent, record, given]
              exact kept.honours
        · cases event
          rw [other] at allocates
          cases allocates

end

/-- Along every run of a server that starts without leases: no two clients hold one address, the
addresses held and the offers out are within what the scope allows, an acknowledged address goes to no
other client while its lease lasts, and the table is small whenever an address has been looked for. -/
theorem kept_run (s : Scope) (serverIp : UInt32) (dnr : Octets) (start : ℚ)
    {steps : List (Machine.Step Server Event)} (run : Machine.Run (step s serverIp dnr) { now := start } steps) :
    ∀ t ∈ steps, Scope.Tidy s t.after.leases t.after.now ∧ t.before.Exclusive s serverIp dnr t.event ∧
      Trimmed s serverIp t.event t.after := by
  intro t taken
  have begins : Kept s { now := start } := ⟨Scope.tidy_empty start, fun _ _ _ none => by cases none⟩
  have keeps {v v' : Server} {e : Event} (kept : v.Kept s) (_ : True) (taken : v.step s serverIp dnr e = some v') :
      v'.Kept s ∧ v.Exclusive s serverIp dnr e ∧ Trimmed s serverIp e v' := kept.step taken
  obtain ⟨kept, does⟩ := Machine.Run.invariant _ _ keeps run begins (fun _ _ => trivial) t taken
  exact ⟨kept.tidy, does⟩

/-! ### A few clients -/

theorem oneReserved (mac other : Text) (ip : UInt32)
    (own : (Dict.empty.set "02:00:00:00:00:09".toList (0xC0A80164 : UInt32)).get? mac = some ip)
    (theirs : (Dict.empty.set "02:00:00:00:00:09".toList (0xC0A80164 : UInt32)).get? other = some ip) :
    mac = other := by
  rw [Dict.get?_set] at own theirs
  split at own
  · next first =>
      split at theirs
      · next second => exact (eq_of_beq first).symm.trans (eq_of_beq second)
      · cases theirs
  · cases own

/-- Ten addresses, one more that is reserved, and a table without a margin. -/
def smallScope : Scope where
  network := "192.168.1.0/24".toList
  rangeStart := 0xC0A8010A
  rangeEnd := 0xC0A80113
  reservations := Dict.empty.set "02:00:00:00:00:09".toList 0xC0A80164
  maxLeases := 0
  distinct := oneReserved

def packet (mtype : MessageType) (device : UInt8) (options : List (UInt8 × Octets)) : DhcpPacket where
  chaddr := [2, 0, 0, 0, 0, device]
  options := options.foldl (fun d e => d.set e.1 e.2) (Dict.empty.set Opt.msgType [mtype.code])

/-- One client takes an address and gives it back, another asks for the same, a third has its own. -/
def visits : List Event :=
  [.receives (packet .discover 1 []), .receives (packet .request 1 [(Opt.requestedIp, [192, 168, 1, 10])]),
    .receives (packet .request 2 [(Opt.requestedIp, [192, 168, 1, 10])]), .receives (packet .discover 9 []),
    .waits 100, .receives (packet .decline 1 [(Opt.requestedIp, [192, 168, 1, 10])]),
    .receives (packet .discover 3 [])]

theorem visits_kept : (Machine.follow (step smallScope 0xC0A80101 []) { now := 0 } visits).length = 7 ∧
    ∀ t ∈ Machine.follow (step smallScope 0xC0A80101 []) { now := 0 } visits,
      Scope.Tidy smallScope t.after.leases t.after.now ∧ t.before.Exclusive smallScope 0xC0A80101 [] t.event ∧
        Trimmed smallScope 0xC0A80101 t.event t.after :=
  ⟨by decide +kernel, kept_run smallScope 0xC0A80101 [] 0 (Machine.run_follow _ _ _)⟩

/-- Entries that have ended stay until the next address is looked for. -/
theorem quiet_unbounded : ¬∀ (s : Scope) (serverIp : UInt32) (dnr : Octets) (start : ℚ)
    (steps : List (Machine.Step Server Event)), Machine.Run (step s serverIp dnr) { now := start } steps →
      ∀ t ∈ steps, Scope.Bounded s t.after.leases t.after.now := by
  intro all
  have taken := List.getElem_mem (l := Machine.follow (step smallScope 0xC0A80101 []) { now := 0 }
    [.receives (packet .discover 1 []), .receives (packet .discover 2 []), .waits 100]) (n := 2) (by decide +kernel)
  have bounded := all smallScope 0xC0A80101 [] 0 _ (Machine.run_follow _ _ _) _ taken
  rw [Scope.Bounded] at bounded
  exact absurd bounded (by decide +kernel)

end Server

end Trench.Dhcp
