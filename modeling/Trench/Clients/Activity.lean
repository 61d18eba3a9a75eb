import Mathlib
import Trench.Filter.Engine
import Trench.Lib.Machine

set_option autoImplicit false

/- Which devices were heard from last, and what they did. -/
namespace Trench.Clients.Activity

open Wire

/-- `BOOTSTRAP_NAMES`. -/
def bootstrapNames : List Text := List.map String.toList
  ["cloudflare-dns.com", "one.one.one.one", "1dot1dot1dot1.cloudflare-dns.com", "security.cloudflare-dns.com",
    "family.cloudflare-dns.com", "dns.google", "dns.google.com", "dns.quad9.net", "dns9.quad9.net",
    "dns10.quad9.net", "dns11.quad9.net", "dns.adguard.com", "dns.adguard-dns.com", "family.adguard-dns.com",
    "unfiltered.adguard-dns.com", "dns.nextdns.io", "nextdns.io", "dns.controld.com", "freedns.controld.com",
    "dns.mullvad.net", "doh.mullvad.net", "doh.opendns.com", "dns.opendns.com", "doh.dns.sb", "dns.sb",
    "dnsforge.de", "doh.pub", "dot.pub", "dns.alidns.com", "doh.dns.apple.com", "mask.icloud.com",
    "mask-h2.icloud.com", "use-application-dns.net"]

structure Device where
  ip : Text
  firstSeen : ℚ := 0
  lastQuery : ℚ := 0
  queries : Nat := 0
  bootstrapHits : Nat := 0
  bootstrapLast : Text := []
  bootstrapAt : ℚ := 0
  leaseSeen : ℚ := 0
  name : Text := []

/-- What `_evict` compares. -/
def Device.heard (d : Device) : ℚ := max d.lastQuery d.leaseSeen

structure Ledger where
  maxDevices : Nat := 4096
  devices : Dict Text Device := .empty

namespace Ledger

/-- The first of those that were heard from least recently. -/
def oldest (devices : Dict Text Device) : Option Device := (devices.entries.map Prod.snd).argmin Device.heard

/-- The loop of `_evict`, which shortens the table each time. -/
def evictFrom : Nat → Nat → Dict Text Device → Dict Text Device
  | 0, _, devices => devices
  | fuel + 1, most, devices =>
      if most < devices.size then
        match oldest devices with
        | none => devices
        | some dev => evictFrom fuel most (devices.erase dev.ip)
      else devices

/-- `_evict`. -/
def evict (l : Ledger) : Ledger := { l with devices := evictFrom l.devices.size l.maxDevices l.devices }

/-- The device of an address; one that is new is put into the table, which may then be too large. -/
def find (l : Ledger) (ip : Text) (now : ℚ) : Device × Ledger :=
  match l.devices.get? ip with
  | some dev => (dev, l)
  | none =>
      let dev : Device := { ip, firstSeen := now }
      (dev, evict { l with devices := l.devices.set ip dev })

/-- A device is changed in place, in the table only if it is still there. -/
def change (l : Ledger) (dev : Device) : Ledger :=
  if l.devices.contains dev.ip then { l with devices := l.devices.set dev.ip dev } else l

/-- The bootstrap name that a query asks for. -/
def bootstrap (qname : Text) : Option Text := (Filter.suffixes qname).find? (· ∈ bootstrapNames)

/-- `note`. -/
def note (l : Ledger) (clientIp qname : Text) (now : ℚ) : Ledger :=
  if clientIp = [] then l
  else
    let (dev, l) := l.find clientIp now
    let dev := { dev with lastQuery := now, queries := dev.queries + 1 }
    l.change (match bootstrap qname with
      | none => dev
      | some suffix =>
          { dev with bootstrapHits := dev.bootstrapHits + 1, bootstrapLast := suffix, bootstrapAt := now })

/-- `note_lease`. -/
def noteLease (l : Ledger) (ip hostname : Text) (now : ℚ) : Ledger :=
  let (dev, l) := l.find ip now
  let dev := { dev with leaseSeen := now }
  l.change (if hostname = [] then dev else { dev with name := hostname })

end Ledger

/-! ### Calls -/

inductive Call where
  | note (clientIp qname : Text) (now : ℚ)
  | lease (ip hostname : Text) (now : ℚ)

namespace Call

def ip : Call → Text
  | note clientIp _ _ => clientIp
  | lease ip _ _ => ip

def now : Call → ℚ
  | note _ _ now => now
  | lease _ _ now => now

/-- A query from nowhere is not for any device. -/
def concerns : Call → Bool
  | note clientIp _ _ => decide (clientIp ≠ [])
  | lease _ _ _ => true

def isNote : Call → Bool
  | note _ _ _ => true
  | lease _ _ _ => false

def isLease (c : Call) : Bool := !c.isNote

def bootstrap : Call → Option Text
  | note _ qname _ => Ledger.bootstrap qname
  | lease _ _ _ => none

def hostname : Call → Text
  | note _ _ _ => []
  | lease _ hostname _ => hostname

def on (l : Ledger) : Call → Ledger
  | note clientIp qname now => l.note clientIp qname now
  | lease ip hostname now => l.noteLease ip hostname now

end Call

/-- The time of the newest call of a kind, 0 where there is none. -/
def timeOf (kind : Call → Bool) (calls : List Call) : ℚ := ((calls.find? kind).map Call.now).getD 0

/-- A device is what the calls for it make of it. -/
structure Tells (ip : Text) (dev : Device) (calls : List Call) : Prop where
  ip : dev.ip = ip
  lastQuery : dev.lastQuery = timeOf Call.isNote calls
  queries : dev.queries = calls.countP Call.isNote
  bootstrapHits : dev.bootstrapHits = calls.countP fun c => c.bootstrap.isSome
  bootstrapLast : dev.bootstrapLast = (calls.findSome? Call.bootstrap).getD []
  bootstrapAt : dev.bootstrapAt = timeOf (fun c => c.bootstrap.isSome) calls
  leaseSeen : dev.leaseSeen = timeOf Call.isLease calls
  name : dev.name = ((calls.find? fun c => decide (c.hostname ≠ [])).map Call.hostname).getD []

/-- The ledger, the time of the last call, all calls for devices with the newest first, and of each device
those since it last entered the ledger. -/
structure World where
  ledger : Ledger := {}
  now : ℚ
  history : List Call := []
  since : Text → List Call := fun _ => []

namespace World

def holds (w : World) (ip : Text) : Bool := w.ledger.devices.contains ip

/-- The newest call for a device. -/
def last (w : World) (ip : Text) : Option Call := w.history.find? fun c => decide (c.ip = ip)

/-- Nothing where the clock runs backwards. -/
def step (w : World) (c : Call) : Option World :=
  if w.now ≤ c.now ∧ 0 < c.now then
    some {
      ledger := c.on w.ledger
      now := c.now
      history := if c.concerns then c :: w.history else w.history
      since := if c.concerns then
          Function.update w.since c.ip (if w.holds c.ip then c :: w.since c.ip else [c])
        else w.since }
  else none

/-- The devices held are as many of those heard from last as there may be, and each is what the calls for
it since it entered make of it. -/
structure Faithful (w : World) : Prop where
  heard : ∀ ip, w.holds ip = true → ip ∈ w.history.map Call.ip
  number : w.ledger.devices.size = min w.ledger.maxDevices (w.history.map Call.ip).toFinset.card
  latest : ∀ ip other c c', w.holds ip = true → w.holds other = false → w.last ip = some c →
    w.last other = some c' → c'.now ≤ c.now
  told : ∀ ip dev, w.ledger.devices.get? ip = some dev → Tells ip dev (w.since ip)

/-- The call is for a device that is held, or for one that there is room for; or those that are held were
all heard from at this very moment. -/
def Fits (w : World) (c : Call) : Prop :=
  c.concerns = false ∨ w.holds c.ip = true ∨ w.ledger.devices.size < w.ledger.maxDevices ∨
    ∀ ip, w.holds ip = true → ∀ c', w.last ip = some c' → c'.now = c.now

end World

/-! ### One call -/

namespace Ledger

section

variable {l : Ledger} {dev : Device} {devices : Dict Text Device}

theorem evictFrom_of_le {fuel most : Nat} (small : devices.size ≤ most) : evictFrom fuel most devices = devices := by
  cases fuel with
  | zero => rfl
  | succ fuel => rw [evictFrom, if_neg (not_lt.mpr small)]

/-- A device that was not heard from at all is the oldest. -/
theorem oldest_set (missing : devices.contains dev.ip = false)
    (least : ∀ e ∈ devices.entries, dev.heard < e.2.heard) : oldest (devices.set dev.ip dev) = some dev := by
  rw [oldest, Dict.entries_set_new missing, List.map_append, List.map_singleton]
  cases found : (devices.entries.map Prod.snd ++ [dev]).argmin Device.heard with
  | none =>
      rw [List.argmin_eq_none] at found
      exact absurd found (List.append_ne_nil_of_right_ne_nil _ (List.cons_ne_nil _ _))
  | some d =>
      have under : d.heard ≤ dev.heard :=
        List.le_of_mem_argmin (List.mem_append_right _ List.mem_cons_self) found
      rcases List.mem_append.mp (List.argmin_mem found) with old | same
      · obtain ⟨e, held, rfl⟩ := List.mem_map.mp old
        exact absurd under (not_le.mpr (least e held))
      · rw [List.mem_singleton.mp same]

theorem find_held {ip : Text} {now : ℚ} (held : l.devices.get? ip = some dev) : l.find ip now = (dev, l) := by
  rw [find, held]

theorem find_room {ip : Text} {now : ℚ} (missing : l.devices.get? ip = none) (room : l.devices.size < l.maxDevices) :
    l.find ip now = ({ ip, firstSeen := now }, { l with devices := l.devices.set ip { ip, firstSeen := now } }) := by
  rw [find, missing]
  dsimp only
  rw [evict, evictFrom_of_le ((Dict.size_set_le _ _ _).trans room)]

/-- A device that is new in a full table is the one that is evicted. -/
theorem find_full {ip : Text} {now : ℚ} (missing : l.devices.get? ip = none) (full : l.devices.size = l.maxDevices)
    (heard : ∀ e ∈ l.devices.entries, 0 < e.2.heard) : l.find ip now = ({ ip, firstSeen := now }, l) := by
  have absent : l.devices.contains ip = false := by
    rw [← Bool.not_eq_true, Dict.contains_iff, missing]
    exact Bool.false_ne_true
  have least : ∀ e ∈ l.devices.entries, Device.heard { ip, firstSeen := now } < e.2.heard := by
    intro e held
    rw [Device.heard, max_self]
    exact heard e held
  have grown : (l.devices.set ip { ip, firstSeen := now }).size = l.maxDevices + 1 := by
    rw [Dict.size_set_new absent, full]
  have first : oldest (l.devices.set ip { ip, firstSeen := now }) = some { ip, firstSeen := now } :=
    oldest_set absent least
  rw [find, missing]
  dsimp only
  rw [evict, grown, evictFrom, if_pos (by rw [grown]; exact Nat.lt_succ_self _), first]
  dsimp only
  rw [Dict.erase_set_new absent, evictFrom_of_le full.le]

end

end Ledger

namespace Call

/-- What a call changes of its device. -/
def mark : Call → Device → Device
  | note _ qname now, dev =>
      let dev := { dev with lastQuery := now, queries := dev.queries + 1 }
      match Ledger.bootstrap qname with
      | none => dev
      | some suffix => { dev with bootstrapHits := dev.bootstrapHits + 1, bootstrapLast := suffix, bootstrapAt := now }
  | lease _ hostname now, dev =>
      let dev := { dev with leaseSeen := now }
      if hostname = [] then dev else { dev with name := hostname }

theorem on_eq {c : Call} (concerns : c.concerns = true) (l : Ledger) :
    c.on l = (l.find c.ip c.now).2.change (c.mark (l.find c.ip c.now).1) := by
  cases c with
  | note clientIp qname now => exact if_neg (of_decide_eq_true concerns)
  | lease ip hostname now => rfl

theorem mark_ip (c : Call) (dev : Device) : (c.mark dev).ip = dev.ip := by
  cases c with
  | note clientIp qname now =>
      rw [mark]
      dsimp only
      split <;> rfl
  | lease ip hostname now =>
      rw [mark]
      dsimp only
      split <;> rfl

end Call

section

variable {ip : Text} {dev : Device} {calls : List Call} {c : Call}

theorem timeOf_cons_pos {kind : Call → Bool} (same : kind c = true) : timeOf kind (c :: calls) = c.now := by
  rw [timeOf, List.find?_cons_of_pos same]
  rfl

theorem timeOf_cons_neg {kind : Call → Bool} (other : kind c = false) :
    timeOf kind (c :: calls) = timeOf kind calls := by
  rw [timeOf, List.find?_cons_of_neg (by rw [other]; exact Bool.false_ne_true), timeOf]

theorem tells_new (ip : Text) (now : ℚ) : Tells ip { ip, firstSeen := now } [] :=
  ⟨rfl, rfl, rfl, rfl, rfl, rfl, rfl, rfl⟩

/-- A call more. -/
theorem Tells.mark (tells : Tells ip dev calls) (c : Call) : Tells ip (c.mark dev) (c :: calls) := by
  obtain ⟨same, lastQuery, queries, bootstrapHits, bootstrapLast, bootstrapAt, leaseSeen, name⟩ := tells
  have keeps := (c.mark_ip dev).trans same
  cases c with
  | note clientIp qname now =>
      cases found : Ledger.bootstrap qname with
      | none =>
          have asks : (Call.note clientIp qname now).bootstrap = none := found
          have marked : (Call.note clientIp qname now).mark dev =
              { dev with lastQuery := now, queries := dev.queries + 1 } := by
            rw [Call.mark]
            dsimp only
            rw [found]
          rw [marked] at keeps ⊢
          refine ⟨keeps, ?_, ?_, ?_, ?_, ?_, ?_, ?_⟩
          · exact Eq.symm (timeOf_cons_pos rfl)
          · rw [List.countP_cons_of_pos rfl, ← queries]
          · rw [List.countP_cons_of_neg (by rw [asks]; exact Bool.false_ne_true)]
            exact bootstrapHits
          · rw [List.findSome?_cons_of_isNone (by rw [asks]; rfl)]
            exact bootstrapLast
          · exact bootstrapAt.trans (timeOf_cons_neg (by rw [asks]; rfl)).symm
          · exact leaseSeen.trans (Eq.symm (timeOf_cons_neg rfl))
          · exact name
      | some suffix =>
          have asks : (Call.note clientIp qname now).bootstrap = some suffix := found
          have marked : (Call.note clientIp qname now).mark dev =
              { dev with
                lastQuery := now, queries := dev.queries + 1, bootstrapHits := dev.bootstrapHits + 1,
                bootstrapLast := suffix, bootstrapAt := now } := by
            rw [Call.mark]
            dsimp only
            rw [found]
          rw [marked] at keeps ⊢
          refine ⟨keeps, ?_, ?_, ?_, ?_, ?_, ?_, ?_⟩
          · exact Eq.symm (timeOf_cons_pos rfl)
          · rw [List.countP_cons_of_pos rfl, ← queries]
          · rw [List.countP_cons_of_pos (by rw [asks]; rfl), ← bootstrapHits]
          · rw [List.findSome?_cons, asks]
            rfl
          · exact Eq.symm (timeOf_cons_pos (by rw [asks]; rfl))
          · exact leaseSeen.trans (Eq.symm (timeOf_cons_neg rfl))
          · exact name
  | lease ip' hostname now =>
      have marked : ∃ name', (Call.lease ip' hostname now).mark dev = { dev with leaseSeen := now, name := name' } ∧
          name' = if hostname = [] then dev.name else hostname := by
        rw [Call.mark]
        dsimp only
        split <;> exact ⟨_, rfl, rfl⟩
      obtain ⟨name', marked, called⟩ := marked
      rw [marked] at keeps ⊢
      refine ⟨keeps, lastQuery, queries, bootstrapHits, bootstrapLast, bootstrapAt, ?_, ?_⟩
      · exact Eq.symm (timeOf_cons_pos rfl)
      · rw [List.find?_cons]
        change name' = _
        rw [called]
        by_cases none : hostname = []
        · have silent : decide ((Call.lease ip' hostname now).hostname ≠ []) = false :=
            decide_eq_false (not_not_intro none)
          rw [if_pos none, silent]
          exact name
        · have speaks : decide ((Call.lease ip' hostname now).hostname ≠ []) = true := decide_eq_true none
          rw [if_neg none, speaks]
          rfl

theorem Tells.heard_pos (tells : Tells ip dev calls) (some' : calls ≠ []) (positive : ∀ c ∈ calls, 0 < c.now) :
    0 < dev.heard := by
  cases calls with
  | nil => exact absurd rfl some'
  | cons c calls =>
      have first := positive c List.mem_cons_self
      rw [Device.heard]
      cases kind : c.isNote with
      | true =>
          have asked : dev.lastQuery = c.now := by rw [tells.lastQuery, timeOf_cons_pos kind]
          exact lt_max_of_lt_left (asked ▸ first)
      | false =>
          have served : dev.leaseSeen = c.now := by
            rw [tells.leaseSeen, timeOf_cons_pos (by rw [Call.isLease, kind]; rfl)]
          exact lt_max_of_lt_right (served ▸ first)

end

/-! ### Runs -/

namespace World

/-- What holds besides while every call fits. -/
structure Kept (w : World) : Prop where
  faithful : w.Faithful
  past : ∀ c ∈ w.history, c.now ≤ w.now
  entered : ∀ ip, w.holds ip = true → w.since ip ≠ []
  positive : ∀ ip, ∀ c ∈ w.since ip, 0 < c.now

section

variable {w w' : World} {c : Call}

theorem holds_iff {ip : Text} : w.holds ip = true ↔ ∃ dev, w.ledger.devices.get? ip = some dev := by
  rw [holds, Dict.contains_iff, Option.isSome_iff_exists]

theorem not_holds_iff {ip : Text} : w.holds ip = false ↔ w.ledger.devices.get? ip = none := by
  rw [← Bool.not_eq_true, holds, Dict.contains_iff, Option.not_isSome_iff_eq_none]

/-- While there is room, every device that was heard from is held. -/
theorem Faithful.whole (faithful : w.Faithful) (room : w.ledger.devices.size < w.ledger.maxDevices) :
    ∀ ip ∈ w.history.map Call.ip, w.holds ip = true := by
  have held : (w.ledger.devices.entries.map Prod.fst).toFinset ⊆ (w.history.map Call.ip).toFinset := by
    intro ip listed
    obtain ⟨e, held, rfl⟩ := List.mem_map.mp (List.mem_toFinset.mp listed)
    exact List.mem_toFinset.mpr (faithful.heard _ (List.any_eq_true.mpr ⟨e, held, BEq.rfl⟩))
  have size : (w.ledger.devices.entries.map Prod.fst).toFinset.card = w.ledger.devices.size := by
    rw [List.toFinset_card_of_nodup w.ledger.devices.nodup_keys, List.length_map]
    rfl
  have number := faithful.number
  have same := Finset.eq_of_subset_of_card_le held (by omega)
  intro ip listed
  rw [← List.mem_toFinset, ← same, List.mem_toFinset, List.mem_map] at listed
  obtain ⟨e, held, rfl⟩ := listed
  exact List.any_eq_true.mpr ⟨e, held, BEq.rfl⟩

theorem last_mem {ip : Text} (found : w.last ip = some c) : c ∈ w.history ∧ c.ip = ip := by
  have hit := List.find?_some found
  exact ⟨List.mem_of_find?_eq_some found, of_decide_eq_true hit⟩

/-- The world behind a call for a device. -/
theorem step_eq (concerns : c.concerns = true) (taken : w.step c = some w') :
    w.now ≤ c.now ∧ 0 < c.now ∧ w' = {
      ledger := c.on w.ledger
      now := c.now
      history := c :: w.history
      since := Function.update w.since c.ip (if w.holds c.ip then c :: w.since c.ip else [c]) } := by
  rw [step] at taken
  split at taken
  · next clock =>
      cases taken
      exact ⟨clock.1, clock.2, rfl⟩
  · cases taken

theorem step_quiet (concerns : c.concerns = false) (taken : w.step c = some w') :
    w.now ≤ c.now ∧ w' = { w with now := c.now } := by
  rw [step] at taken
  split at taken
  · next clock =>
      rw [concerns, if_neg Bool.false_ne_true, if_neg Bool.false_ne_true] at taken
      cases taken
      refine ⟨clock.1, ?_⟩
      cases c with
      | note clientIp qname now =>
          have nowhere : clientIp = [] := not_not.mp (of_decide_eq_false concerns)
          rw [Call.on, Ledger.note, if_pos nowhere]
      | lease ip hostname now => cases concerns
  · cases taken

/-- The ledger behind a call for a device that is held, or that there is room for. -/
theorem Kept.changes (kept : w.Kept) (concerns : c.concerns = true)
    (fits : w.holds c.ip = true ∨ w.ledger.devices.size < w.ledger.maxDevices) :
    ∃ dev, Tells c.ip dev (if w.holds c.ip then c :: w.since c.ip else [c]) ∧
      (c.on w.ledger).maxDevices = w.ledger.maxDevices ∧
      (∀ other, (c.on w.ledger).devices.get? other =
        if c.ip = other then some dev else w.ledger.devices.get? other) ∧
      (c.on w.ledger).devices.size =
        if w.holds c.ip then w.ledger.devices.size else w.ledger.devices.size + 1 := by
  cases held : w.holds c.ip with
  | true =>
      obtain ⟨dev, found⟩ := holds_iff.mp held
      have tells := kept.faithful.told _ _ found
      have same : (c.mark dev).ip = c.ip := (c.mark_ip dev).trans tells.ip
      have on : c.on w.ledger = { w.ledger with devices := w.ledger.devices.set c.ip (c.mark dev) } := by
        rw [Call.on_eq concerns, Ledger.find_held found]
        dsimp only
        rw [Ledger.change, same]
        exact if_pos held
      rw [on, if_pos rfl, if_pos rfl]
      refine ⟨c.mark dev, tells.mark c, rfl, fun other => Dict.get?_set_eq _ _ _ _, ?_⟩
      exact Dict.size_set_held held _
  | false =>
      have room := fits.resolve_left (by rw [held]; exact Bool.false_ne_true)
      have there : (w.ledger.devices.set c.ip { ip := c.ip, firstSeen := c.now }).contains c.ip = true := by
        rw [Dict.contains_set, BEq.rfl, Bool.true_or]
      have on : c.on w.ledger = { w.ledger with
          devices := (w.ledger.devices.set c.ip { ip := c.ip, firstSeen := c.now }).set c.ip
            (c.mark { ip := c.ip, firstSeen := c.now }) } := by
        rw [Call.on_eq concerns, Ledger.find_room (not_holds_iff.mp held) room]
        dsimp only
        rw [Ledger.change, Call.mark_ip, if_pos there]
      rw [on, if_neg Bool.false_ne_true, if_neg Bool.false_ne_true]
      refine ⟨_, (tells_new c.ip c.now).mark c, rfl, fun other => ?_, ?_⟩
      · rw [Dict.get?_set_eq, Dict.get?_set_eq]
        split <;> rfl
      · exact (Dict.size_set_held there _).trans (Dict.size_set_new held _)

theorem last_cons (c : Call) (ip : Text) :
    (c :: w.history).find? (fun c => decide (c.ip = ip)) = if c.ip = ip then some c else w.last ip := by
  rw [List.find?_cons]
  by_cases same : c.ip = ip
  · rw [decide_eq_true same, if_pos same]
  · rw [decide_eq_false same, if_neg same, last]

theorem Kept.takes (kept : w.Kept) (concerns : c.concerns = true) (taken : w.step c = some w')
    (fits : w.holds c.ip = true ∨ w.ledger.devices.size < w.ledger.maxDevices) : w'.Kept := by
  obtain ⟨clock, positive, rfl⟩ := step_eq concerns taken
  obtain ⟨dev, tells, most, found, size⟩ := kept.changes concerns fits
  have holds : ∀ ip, (c.on w.ledger).devices.contains ip = true ↔ c.ip = ip ∨ w.holds ip = true := by
    intro ip
    rw [Dict.contains_iff, found, World.holds, Dict.contains_iff]
    split
    · next same => exact iff_of_true rfl (.inl same)
    · next other => rw [or_iff_right other]
  refine ⟨⟨?_, ?_, ?_, ?_⟩, ?_, ?_, ?_⟩
  · intro ip held
    rw [List.map_cons, List.mem_cons]
    exact ((holds ip).mp held).imp Eq.symm (kept.faithful.heard ip)
  · rw [most, size]
    dsimp only
    rw [List.map_cons, List.toFinset_cons]
    have number := kept.faithful.number
    split
    · next held =>
        rw [Finset.insert_eq_self.mpr (List.mem_toFinset.mpr (kept.faithful.heard _ held))]
        exact number
    · next missing =>
        have room := fits.resolve_left missing
        have new : c.ip ∉ (w.history.map Call.ip).toFinset := fun listed =>
          missing (kept.faithful.whole room _ (List.mem_toFinset.mp listed))
        rw [Finset.card_insert_of_notMem new]
        omega
  · intro ip other d d' held missing newest newest'
    rw [World.last, last_cons] at newest newest'
    have missing' := not_or.mp ((holds other).not.mp (Bool.eq_false_iff.mp missing))
    rw [if_neg missing'.1] at newest'
    split at newest
    · cases newest
      exact (kept.past _ (last_mem newest').1).trans clock
    · next apart =>
        exact kept.faithful.latest ip other d d' (((holds ip).mp held).resolve_left apart)
          (Bool.eq_false_iff.mpr missing'.2) newest newest'
  · intro ip dev' told
    rw [found] at told
    dsimp only
    split at told
    · next same =>
        cases told
        rw [← same, Function.update_self]
        exact tells
    · next apart =>
        rw [Function.update_of_ne (Ne.symm apart)]
        exact kept.faithful.told ip dev' told
  · intro d listed
    rcases List.mem_cons.mp listed with rfl | old
    · exact le_rfl
    · exact (kept.past d old).trans clock
  · intro ip held
    dsimp only
    by_cases same : c.ip = ip
    · rw [← same, Function.update_self]
      split <;> exact List.cons_ne_nil _ _
    · rw [Function.update_of_ne (Ne.symm same)]
      exact kept.entered ip (((holds ip).mp held).resolve_left same)
  · intro ip d listed
    dsimp only at listed
    by_cases same : c.ip = ip
    · rw [← same, Function.update_self] at listed
      split at listed
      · rcases List.mem_cons.mp listed with rfl | old
        · exact positive
        · exact kept.positive _ d old
      · rw [List.mem_singleton.mp listed]
        exact positive
    · rw [Function.update_of_ne (Ne.symm same)] at listed
      exact kept.positive ip d listed

/-- Where there is no room, a new device leaves the ledger as it was. -/
theorem Kept.on_full (kept : w.Kept) (concerns : c.concerns = true) (missing : w.holds c.ip = false)
    (full : w.ledger.devices.size = w.ledger.maxDevices) : c.on w.ledger = w.ledger := by
  have heard : ∀ e ∈ w.ledger.devices.entries, 0 < e.2.heard := by
    intro e listed
    have found : w.ledger.devices.get? e.1 = some e.2 := Dict.get?_eq_some_iff_mem.mpr listed
    exact (kept.faithful.told _ _ found).heard_pos (kept.entered _ (holds_iff.mpr ⟨_, found⟩)) (kept.positive _)
  rw [Call.on_eq concerns, Ledger.find_full (not_holds_iff.mp missing) full heard, Ledger.change, Call.mark_ip]
  exact if_neg (Bool.eq_false_iff.mp missing)

theorem Kept.refuses (kept : w.Kept) (concerns : c.concerns = true) (taken : w.step c = some w')
    (missing : w.holds c.ip = false) (full : w.ledger.devices.size = w.ledger.maxDevices) :
    (w'.Faithful ↔ ∀ ip, w.holds ip = true → ∀ c', w.last ip = some c' → c'.now = c.now) ∧
      (w'.Faithful → w'.Kept) := by
  obtain ⟨clock, positive, rfl⟩ := step_eq concerns taken
  rw [kept.on_full concerns missing full, missing, if_neg Bool.false_ne_true]
  have apart : ∀ {ip}, w.holds ip = true → c.ip ≠ ip := by
    rintro ip held rfl
    rw [missing] at held
    cases held
  refine ⟨⟨?_, ?_⟩, ?_⟩
  · intro faithful ip held d newest
    refine le_antisymm ((kept.past d (last_mem newest).1).trans clock) ?_
    refine faithful.latest ip c.ip d c held missing ?_ ?_
    · rw [World.last, last_cons, if_neg (apart held)]
      exact newest
    · rw [World.last, last_cons, if_pos rfl]
  · intro now
    refine ⟨?_, ?_, ?_, ?_⟩
    · exact fun ip held => List.mem_cons_of_mem _ (kept.faithful.heard ip held)
    · have number := kept.faithful.number
      have more : (w.history.map Call.ip).toFinset.card ≤ (insert c.ip (w.history.map Call.ip).toFinset).card :=
        Finset.card_le_card (Finset.subset_insert _ _)
      dsimp only
      rw [List.map_cons, List.toFinset_cons]
      omega
    · intro ip other d d' held absent newest newest'
      rw [World.last, last_cons] at newest newest'
      rw [if_neg (apart held)] at newest
      split at newest'
      · cases newest'
        exact (now ip held d newest).ge
      · exact kept.faithful.latest ip other d d' held absent newest newest'
    · intro ip dev told
      dsimp only
      rw [Function.update_of_ne (Ne.symm (apart (holds_iff.mpr ⟨dev, told⟩)))]
      exact kept.faithful.told ip dev told
  · intro faithful
    refine ⟨faithful, ?_, ?_, ?_⟩
    · intro d listed
      rcases List.mem_cons.mp listed with rfl | old
      · exact le_rfl
      · exact (kept.past d old).trans clock
    · intro ip held
      dsimp only
      rw [Function.update_of_ne (Ne.symm (apart held))]
      exact kept.entered ip held
    · intro ip d listed
      dsimp only at listed
      by_cases same : c.ip = ip
      · rw [← same, Function.update_self] at listed
        rw [List.mem_singleton.mp listed]
        exact positive
      · rw [Function.update_of_ne (Ne.symm same)] at listed
        exact kept.positive ip d listed

/-- A call leaves the ledger faithful exactly when it fits. -/
theorem Kept.step (kept : w.Kept) (taken : w.step c = some w') :
    (w'.Faithful ↔ w.Fits c) ∧ (w.Fits c → w'.Kept) := by
  have always (fits : w.Fits c) (kept' : w'.Kept) : (w'.Faithful ↔ w.Fits c) ∧ (w.Fits c → w'.Kept) :=
    ⟨iff_of_true kept'.faithful fits, fun _ => kept'⟩
  cases concerns : c.concerns with
  | false =>
      obtain ⟨clock, rfl⟩ := step_quiet concerns taken
      obtain ⟨⟨heard, number, latest, told⟩, past, entered, positive⟩ := kept
      exact always (.inl concerns)
        ⟨⟨heard, number, latest, told⟩, fun d old => (past d old).trans clock, entered, positive⟩
  | true =>
      by_cases fits : w.holds c.ip = true ∨ w.ledger.devices.size < w.ledger.maxDevices
      · exact always (.inr (fits.imp_right .inl)) (kept.takes concerns taken fits)
      · obtain ⟨missing, crowded⟩ := not_or.mp fits
        have full : w.ledger.devices.size = w.ledger.maxDevices := by
          have number := kept.faithful.number
          omega
        obtain ⟨exactly, keeps⟩ := kept.refuses concerns taken (Bool.eq_false_iff.mpr missing) full
        have same : w.Fits c ↔ ∀ ip, w.holds ip = true → ∀ c', w.last ip = some c' → c'.now = c.now := by
          rw [Fits, or_iff_right (by rw [concerns]; exact Bool.noConfusion), or_iff_right missing,
            or_iff_right crowded]
        rw [same]
        exact ⟨exactly, fun now => keeps (exactly.mpr now)⟩

end

/-- An empty ledger, before the first call. -/
def start (maxDevices : Nat) (now : ℚ) : World := { ledger := { maxDevices }, now }

theorem kept_start (maxDevices : Nat) (now : ℚ) : (start maxDevices now).Kept where
  faithful := {
    heard := fun _ held => nomatch held
    number := (Nat.min_zero _).symm
    latest := fun _ _ _ _ held => nomatch held
    told := fun _ _ found => nomatch found }
  past := fun _ old => absurd old List.not_mem_nil
  entered := fun _ held => nomatch held
  positive := fun _ _ old => absurd old List.not_mem_nil

end World

/-- The ledger is faithful behind every call exactly when each call is for a device that is held, or for one
that there is room for, or comes at the moment that all those held were last heard from. -/
theorem run_faithful (maxDevices : Nat) (now : ℚ) {steps : List (Machine.Step World Call)}
    (run : Machine.Run World.step (World.start maxDevices now) steps) :
    (∀ t ∈ steps, t.after.Faithful) ↔ ∀ t ∈ steps, t.before.Fits t.event :=
  run.good_iff World.Kept.step (World.kept_start maxDevices now)

/-- Two calls for one device, both of which happen. -/
def renewed : List (Machine.Step World Call) := Machine.follow World.step (World.start 1 0)
  [.note ['a'] ['x'] 1, .lease ['a'] ['h'] 2]

theorem run_faithful_renewed : renewed.length = 2 ∧ ∀ t ∈ renewed, t.after.Faithful := by
  refine ⟨by decide +kernel, (run_faithful 1 0 (Machine.run_follow World.step _ _)).mpr fun t taken => ?_⟩
  rcases List.mem_cons.mp taken with rfl | more
  · exact .inr (.inr (.inl Nat.zero_lt_one))
  · rcases List.mem_cons.mp more with rfl | none
    · exact .inr (.inl (by decide +kernel))
    · exact absurd none List.not_mem_nil

/-- With room for one device, a second that is heard from later is not taken in. -/
theorem run_unfaithful : ¬∀ (maxDevices : Nat) (now : ℚ) (steps : List (Machine.Step World Call)),
    Machine.Run World.step (World.start maxDevices now) steps → ∀ t ∈ steps, t.after.Faithful := by
  intro faithful
  have run := Machine.run_follow World.step (World.start 1 0) [.note ['a'] ['x'] 1, .note ['b'] ['x'] 2]
  have last := faithful 1 0 _ run _ (List.mem_cons_of_mem _ List.mem_cons_self)
  have late := last.latest ['a'] ['b'] (.note ['a'] ['x'] 1) (.note ['b'] ['x'] 2) (by decide +kernel)
    (by decide +kernel) rfl rfl
  exact absurd late (by decide +kernel)

end Trench.Clients.Activity
