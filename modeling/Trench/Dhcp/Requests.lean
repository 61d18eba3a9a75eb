import Mathlib
import Trench.Dhcp.LeaseTable

set_option autoImplicit false

/- Which REQUESTs are answered for the address that they name. -/
namespace Trench.Dhcp

open Wire

/-- The address that a REQUEST names: option 50, or else ciaddr where it is not 0.0.0.0. -/
def DhcpPacket.named (req : DhcpPacket) : Option UInt32 :=
  req.requestedIp.or (if req.ciaddr = 0 then none else some req.ciaddr)

namespace Scope

/-- The lease of a client while it lasts. -/
def standing (leases : Leases) (mac : Text) (now : ℚ) : Option Lease := (leases.get? mac).filter (·.live now)

/-- Only entries that have ended differ. -/
def Unmoved (leases leases' : Leases) (now : ℚ) : Prop := ∀ mac, standing leases' mac now = standing leases mac now

variable (s : Scope)

/-- The address that is a client's own: reserved for it, or leased to it. -/
def own (leases : Leases) (mac : Text) (now : ℚ) : Option UInt32 :=
  (s.reservations.get? mac).or ((standing leases mac now).map Lease.ip)

/-- Some setting does not fit the option it is sent in. -/
def Mute : Prop :=
  optU32 s.leaseTime = none ∨ optU32 (s.leaseTime / 2) = none ∨ optU32 (s.leaseTime * 7 / 8) = none ∨
    subnetMask s.network = none

/-- The table holds already what a new lease of the address would be. -/
def Again (leases : Leases) (req : DhcpPacket) (ip : UInt32) (now : ℚ) : Prop :=
  if 0 < s.leaseTime then
    standing leases req.client now = some ⟨ip, req.client, req.hostname, now + s.leaseTime, false⟩
  else standing leases req.client now = none

/-- The address that a REQUEST names is the client's own, or is free; with ciaddr it has to be the one that
is next. -/
def Suits (leases : Leases) (req : DhcpPacket) (now : ℚ) : Prop :=
  match req.requestedIp, s.own leases req.client now with
  | some ip, some own => own = ip ∨ s.Again leases req own now
  | some ip, none => (s.inUse leases now ip = false ∧ s.inRange ip = true) ∨ s.firstFree leases now = none ∨
      s.leaseTime ≤ 0
  | none, some own => req.ciaddr = 0 ∨ s.Mute ∨ own = req.ciaddr
  | none, none => req.ciaddr = 0 ∨ s.Mute ∨ ∀ ip, s.firstFree leases now = some ip → ip = req.ciaddr

/-! ### What is looked for -/

section

variable {s : Scope} {leases : Leases} {now : ℚ}

theorem standing_reap (s : Scope) (leases : Leases) (mac : Text) (now : ℚ) :
    standing (s.reap leases now) mac now = standing leases mac now := by
  refine Option.ext fun lease => ?_
  rw [standing, standing, Option.filter_eq_some_iff, Option.filter_eq_some_iff]
  exact ⟨fun held => ⟨get?_of_reap held.1, held.2⟩, fun held => ⟨get?_reap_of_live held.1 held.2, held.2⟩⟩

theorem inUse_reap (s : Scope) (leases : Leases) (now : ℚ) (ip : UInt32) :
    s.inUse (s.reap leases now) now ip = s.inUse leases now ip := by
  rw [inUse, inUse, reap]
  congr 1
  split
  · rfl
  · rw [Dict.keep, List.any_filter]
    refine congrArg (List.any leases.entries) (funext fun e => ?_)
    rw [← Bool.and_assoc, Bool.and_self]

theorem firstFree_reap (s : Scope) (leases : Leases) (now : ℚ) :
    s.firstFree (s.reap leases now) now = s.firstFree leases now := by
  rw [firstFree, firstFree]
  refine congrArg (fun p => List.find? p _) (funext fun ip => ?_)
  rw [inUse_reap]

/-- A REQUEST gets the client's own address, else the one it asks for if it is free, else the next. -/
theorem allocate_request (s : Scope) (leases : Leases) (mac hostname : Text) (requested : Option UInt32) (now : ℚ)
    {mac' : Text} (lower : mac.map Char.toLower = mac') :
    s.allocate leases mac hostname requested now false =
      ((s.own leases mac' now).or ((requested.filter fun ip => !s.inUse leases now ip && s.inRange ip).or
          (s.firstFree leases now))).elim (none, s.reap leases now) fun ip =>
        (some (s.grant (s.reap leases now) mac' ip hostname now false).1,
          (s.grant (s.reap leases now) mac' ip hostname now false).2) := by
  rw [allocate, lower, own, ← standing_reap s, standing]
  simp only [inUse_reap, firstFree_reap]
  rw [if_neg (fun both => Bool.false_ne_true both.1)]
  cases reserved : s.reservations.get? mac' with
  | some ip => rfl
  | none =>
      cases held : ((s.reap leases now).get? mac').filter (·.live now) with
      | some lease => rfl
      | none =>
          dsimp only
          rw [if_neg (fun both => Bool.false_ne_true both.1), Option.map_none, Option.none_or, Option.none_or]
          cases requested.filter fun ip => !s.inUse leases now ip && s.inRange ip with
          | some ip => rfl
          | none =>
              rw [Option.none_or]
              cases s.firstFree leases now <;> rfl

theorem unmoved_reap (s : Scope) (leases : Leases) (now : ℚ) : Unmoved leases (s.reap leases now) now :=
  fun mac => standing_reap s leases mac now

/-- A grant leaves the table as it was only where the client had that lease already. -/
theorem unmoved_grant {req : DhcpPacket} {ip : UInt32} :
    Unmoved leases (s.grant (s.reap leases now) req.client ip req.hostname now false).2 now ↔
      s.Again leases req ip now := by
  have here : standing (s.grant (s.reap leases now) req.client ip req.hostname now false).2 req.client now =
      if 0 < s.leaseTime then some ⟨ip, req.client, req.hostname, now + s.leaseTime, false⟩ else none := by
    rw [standing, get?_grant, if_pos rfl, grant, Option.filter_some, Lease.live]
    refine if_congr ?_ rfl rfl
    rw [decide_eq_true_eq, if_neg Bool.false_ne_true, lt_add_iff_pos_right, Int.cast_pos]
  have elsewhere {mac : Text} (other : mac ≠ req.client) :
      standing (s.grant (s.reap leases now) req.client ip req.hostname now false).2 mac now =
        standing leases mac now := by
    rw [← standing_reap s leases, standing, get?_grant, if_neg other]
    rfl
  have same : Unmoved leases (s.grant (s.reap leases now) req.client ip req.hostname now false).2 now ↔
      standing (s.grant (s.reap leases now) req.client ip req.hostname now false).2 req.client now =
        standing leases req.client now := by
    refine ⟨fun unmoved => unmoved req.client, fun equal mac => ?_⟩
    by_cases other : mac = req.client
    · rw [other, equal]
    · exact elsewhere other
  rw [same, here, Again]
  split <;> exact eq_comm

/-- A client without an address has no lease that lasts. -/
theorem again_of_unowned {req : DhcpPacket} {ip : UInt32} (unowned : s.own leases req.client now = none) :
    s.Again leases req ip now ↔ s.leaseTime ≤ 0 := by
  have nothing := Option.map_eq_none_iff.mp (Option.or_eq_none_iff.mp unowned).2
  rw [Again, nothing]
  split
  · next positive => exact iff_of_false (fun none => by cases none) (not_le.mpr positive)
  · next short => exact iff_of_true rfl (not_lt.mp short)

end

end Scope

/-! ### What is answered -/

/-- What is acknowledged is what was named, and what is refused changes nothing. -/
structure Answered (req : DhcpPacket) (out : Option DhcpPacket) (leases leases' : Leases) (now : ℚ) : Prop where
  acked : ∀ ip, Server.names out .ack = some ip → ∀ named, req.named = some named → ip = named
  refused : (Server.names out .nak).isSome = true → Scope.Unmoved leases leases' now

section

variable {s : Scope} {leases : Leases} {now : ℚ} {req : DhcpPacket} {serverIp : UInt32} {dnr : Octets}

theorem reply_eq_none {ip : UInt32} {mtype : MessageType} : reply req s serverIp ip mtype dnr = none ↔ s.Mute := by
  rw [reply, Scope.Mute]
  cases optU32 s.leaseTime with
  | none => exact iff_of_true rfl (.inl rfl)
  | some leaseTime =>
      cases optU32 (s.leaseTime / 2) with
      | none => exact iff_of_true rfl (.inr (.inl rfl))
      | some renewal =>
          cases optU32 (s.leaseTime * 7 / 8) with
          | none => exact iff_of_true rfl (.inr (.inr (.inl rfl)))
          | some rebind =>
              cases subnetMask s.network with
              | none => exact iff_of_true rfl (.inr (.inr (.inr rfl)))
              | some mask => exact iff_of_false nofun (by rintro (none | none | none | none) <;> cases none)

theorem answered_nak {leases' : Leases} :
    Answered req (some (nak req serverIp)) leases leases' now ↔ Scope.Unmoved leases leases' now := by
  refine ⟨fun answered => answered.refused rfl, fun unmoved => ⟨fun ip acked => ?_, fun _ => unmoved⟩⟩
  rw [Server.names_nak req .ack (by decide)] at acked
  cases acked

theorem answered_reply {leases' : Leases} {ip : UInt32} :
    Answered req (reply req s serverIp ip .ack dnr) leases leases' now ↔
      s.Mute ∨ ∀ named, req.named = some named → ip = named := by
  cases sent : reply req s serverIp ip .ack dnr with
  | none => 
      exact iff_of_true ⟨fun _ none => (by cases none), fun none => (by cases none)⟩ (.inl (reply_eq_none.mp sent))
  | some p =>
      obtain ⟨kind, address⟩ := Server.names_reply sent
      have speaks : ¬s.Mute := fun mute => by
        rw [reply_eq_none.mpr mute] at sent
        cases sent
      have acked : Server.names (some p) .ack = some ip := by
        rw [Server.names, Option.bind_some, if_pos kind, address]
      have given : Server.names (some p) .nak = none := by
        rw [Server.names, Option.bind_some, kind, if_neg (by decide)]
      refine ⟨fun answered => .inr (answered.acked ip acked), fun named => ⟨fun ip' acked' => ?_, fun none => ?_⟩⟩
      · rw [acked] at acked'
        cases acked'
        exact named.resolve_left speaks
      · rw [given] at none
        cases none

/-- What the server makes of a REQUEST that is for it. -/
theorem buildReply_request (kind : req.msgType = some MessageType.request.code)
    (ours : ∀ chosen, req.serverId = some chosen → chosen = serverIp) :
    buildReply req s leases serverIp now dnr =
      match s.allocate leases req.mac req.hostname req.requestedIp now false with
      | (none, leases) => (some (nak req serverIp), leases)
      | (some lease, leases) =>
          if req.requestedIp.any fun ip => decide (ip ≠ lease.ip) then (some (nak req serverIp), leases)
          else (reply req s serverIp lease.ip .ack dnr, leases) := by
  rw [buildReply, kind]
  refine if_neg ?_
  rw [Option.any_eq_true]
  rintro ⟨chosen, named, other⟩
  exact of_decide_eq_true other (ours chosen named)

/-- A REQUEST for this server is answered for the address it names just when that suits. -/
theorem answered_iff_suits (kind : req.msgType = some MessageType.request.code)
    (ours : ∀ chosen, req.serverId = some chosen → chosen = serverIp) :
    Answered req (buildReply req s leases serverIp now dnr).1 leases (buildReply req s leases serverIp now dnr).2 now ↔
      s.Suits leases req now := by
  have lower : req.mac.map Char.toLower = req.client := rfl
  have apart {a b : UInt32} : a ≠ b ↔ ¬b = a := ne_comm
  rw [buildReply_request kind ours, Scope.allocate_request s leases req.mac req.hostname _ now lower, Scope.Suits]
  cases asked : req.requestedIp with
  | some ip =>
      have named : req.named = some ip := by rw [DhcpPacket.named, asked, Option.some_or]
      have granted (address : UInt32) :
          Answered req (if (some ip).any fun ip => decide (ip ≠ address) then
              (some (nak req serverIp), (s.grant (s.reap leases now) req.client address req.hostname now false).2)
            else (reply req s serverIp address .ack dnr,
              (s.grant (s.reap leases now) req.client address req.hostname now false).2)).1 leases
            (if (some ip).any fun ip => decide (ip ≠ address) then
              (some (nak req serverIp), (s.grant (s.reap leases now) req.client address req.hostname now false).2)
            else (reply req s serverIp address .ack dnr,
              (s.grant (s.reap leases now) req.client address req.hostname now false).2)).2 now ↔
            address = ip ∨ s.Again leases req address now := by
        by_cases same : ip = address
        · rw [Option.any_some, decide_eq_false (not_not_intro same), if_neg Bool.false_ne_true]
          refine iff_of_true (answered_reply.mpr (.inr fun other given => ?_)) (.inl same.symm)
          rw [named] at given
          exact same.symm.trans (Option.some.inj given)
        · rw [Option.any_some, decide_eq_true same, if_pos rfl, answered_nak, Scope.unmoved_grant]
          exact ⟨.inr, fun suits => suits.resolve_left (Ne.symm same)⟩
      cases own : s.own leases req.client now with
      | some address => exact granted address
      | none =>
          rw [Option.none_or]
          by_cases free : (!s.inUse leases now ip && s.inRange ip) = true
          · rw [Option.filter_some, if_pos free, Option.some_or]
            rw [Bool.and_eq_true, Bool.not_eq_true'] at free
            exact iff_of_true ((granted ip).mpr (.inl rfl)) (.inl free)
          · rw [Option.filter_some, if_neg free, Option.none_or]
            rw [Bool.and_eq_true, Bool.not_eq_true'] at free
            cases first : s.firstFree leases now with
            | none => exact iff_of_true (answered_nak.mpr (Scope.unmoved_reap s leases now)) (.inr (.inl rfl))
            | some next =>
                have other : next ≠ ip := by
                  rintro rfl
                  exact free (Scope.firstFree_spec first).symm
                refine (granted next).trans ⟨fun suits => ?_, fun suits => .inr ?_⟩
                · exact .inr (.inr ((Scope.again_of_unowned own).mp (suits.resolve_left other)))
                · rcases suits with fits | none | short
                  · exact absurd fits free
                  · cases none
                  · exact (Scope.again_of_unowned own).mpr short
  | none =>
      have granted (address : UInt32) : Answered req (reply req s serverIp address .ack dnr) leases
          (s.grant (s.reap leases now) req.client address req.hostname now false).2 now ↔
            req.ciaddr = 0 ∨ s.Mute ∨ address = req.ciaddr := by
        rw [answered_reply, DhcpPacket.named, asked, Option.none_or]
        split
        · next zero => exact iff_of_true (.inr fun _ none => by cases none) (.inl zero)
        · next given => simp [given]
      cases own : s.own leases req.client now with
      | some address => exact granted address
      | none =>
          rw [Option.none_or, Option.filter_none, Option.none_or]
          cases first : s.firstFree leases now with
          | none =>
              refine iff_of_true (answered_nak.mpr (Scope.unmoved_reap s leases now)) (.inr (.inr fun _ none => ?_))
              cases none
          | some next =>
              refine (granted next).trans (or_congr_right (or_congr_right ⟨fun same ip given => ?_, fun all => ?_⟩))
              · exact (Option.some.inj given).symm.trans same
              · exact all next rfl

end

namespace Server

/-- The server behind a packet. -/
def after (s : Scope) (serverIp : UInt32) (dnr : Octets) (v : Server) (req : DhcpPacket) : Server :=
  { v with
    leases := (v.answer s serverIp dnr req).2
    acked := v.record req (v.answer s serverIp dnr req).1 }

theorem step_receives (s : Scope) (serverIp : UInt32) (dnr : Octets) (v : Server) (req : DhcpPacket) :
    v.step s serverIp dnr (.receives req) = some (v.after s serverIp dnr req) := rfl

theorem step_waits (s : Scope) (serverIp : UInt32) (dnr : Octets) (v : Server) (seconds : ℚ≥0) :
    v.step s serverIp dnr (.waits seconds) = some { v with now := v.now + seconds } := rfl

/-- The server answers a REQUEST for the address it names, and refuses it without granting another, just
where the address named is the client's own or is free. -/
theorem request_answered (s : Scope) (serverIp : UInt32) (dnr : Octets) (start : ℚ)
    {steps : List (Machine.Step Server Event)} (run : Machine.Run (step s serverIp dnr) { now := start } steps) :
    ∀ t ∈ steps, ∀ req, t.event = .receives req → req.msgType = some MessageType.request.code →
      (∀ chosen, req.serverId = some chosen → chosen = serverIp) →
      (Answered req (t.before.answer s serverIp dnr req).1 t.before.leases t.after.leases t.before.now ↔
        s.Suits t.before.leases req t.before.now) := by
  intro t taken req event kind ours
  have keeps {v : Server} {e : Event} {v' : Server} (taken : v.step s serverIp dnr e = some v') :
      ∀ req, e = .receives req → v'.leases = (v.answer s serverIp dnr req).2 := by
    intro req event
    rw [event, step_receives] at taken
    cases taken
    rfl
  have after := run.each keeps t taken req event
  rw [after]
  exact answered_iff_suits kind ours

theorem toAnyServer {req : DhcpPacket} {serverIp : UInt32} (none : req.serverId = none) :
    ∀ chosen, req.serverId = some chosen → chosen = serverIp := by
  intro chosen named
  rw [none] at named
  cases named

/-- A device takes an address that is free. -/
def takes : DhcpPacket := packet .request 1 [(Opt.requestedIp, [192, 168, 1, 10])]

/-- Another device asks for the same address. -/
def wants : DhcpPacket := packet .request 2 [(Opt.requestedIp, [192, 168, 1, 10])]

/-- The first device renews a third address. -/
def renews : DhcpPacket := { packet .request 1 [] with ciaddr := 0xC0A8010C }

theorem request_answered_free : Answered takes (answer smallScope 0xC0A80101 [] { now := 0 } takes).1 .empty
    (after smallScope 0xC0A80101 [] { now := 0 } takes).leases 0 := by
  have run := Machine.Run.cons (step_receives smallScope 0xC0A80101 [] { now := 0 } takes) (.nil _)
  refine (request_answered smallScope 0xC0A80101 [] 0 run _ (List.mem_singleton.mpr rfl) takes rfl (by decide +kernel)
    (toAnyServer (by decide +kernel))).mpr ?_
  have asked : takes.requestedIp = some 0xC0A8010A := by decide +kernel
  have own : smallScope.own .empty takes.client 0 = none := by decide +kernel
  rw [Scope.Suits, asked, own]
  exact .inl (by decide +kernel)

/-- The second device is given another address by the very step that refuses it, and the first one, whose
lease has ended, is acknowledged an address it has not named. -/
theorem request_misanswered :
    (¬∀ (s : Scope) (serverIp : UInt32) (dnr : Octets) (start : ℚ) (steps : List (Machine.Step Server Event)),
      Machine.Run (step s serverIp dnr) { now := start } steps → ∀ t ∈ steps, ∀ req, t.event = .receives req →
        req.msgType = some MessageType.request.code → (∀ chosen, req.serverId = some chosen → chosen = serverIp) →
          (names (t.before.answer s serverIp dnr req).1 .nak).isSome = true →
            Scope.Unmoved t.before.leases t.after.leases t.before.now) ∧
    ¬∀ (s : Scope) (serverIp : UInt32) (dnr : Octets) (start : ℚ) (steps : List (Machine.Step Server Event)),
      Machine.Run (step s serverIp dnr) { now := start } steps → ∀ t ∈ steps, ∀ req, t.event = .receives req →
        req.msgType = some MessageType.request.code → (∀ chosen, req.serverId = some chosen → chosen = serverIp) →
          ∀ ip, names (t.before.answer s serverIp dnr req).1 .ack = some ip →
            ∀ named, req.named = some named → ip = named := by
  have run := Machine.Run.cons (step_receives smallScope 0xC0A80101 [] { now := 0 } takes)
    (.cons (step_receives smallScope 0xC0A80101 [] _ wants) (.cons (step_waits smallScope 0xC0A80101 [] _ 90000)
      (.cons (step_receives smallScope 0xC0A80101 [] _ renews) (.nil _))))
  refine ⟨fun all => ?_, fun all => ?_⟩
  · have unmoved := all smallScope 0xC0A80101 [] 0 _ run _ (.tail _ (.head _)) wants rfl (by decide +kernel)
      (toAnyServer (by decide +kernel)) (by decide +kernel) wants.client
    exact absurd unmoved (by decide +kernel)
  · have same := all smallScope 0xC0A80101 [] 0 _ run _ (.tail _ (.tail _ (.tail _ (.head _)))) renews rfl
      (by decide +kernel) (toAnyServer (by decide +kernel)) 0xC0A8010A (by decide +kernel) 0xC0A8010C (by decide +kernel)
    exact absurd same (by decide)

end Server

end Trench.Dhcp
