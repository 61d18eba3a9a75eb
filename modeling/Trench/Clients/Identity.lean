import Mathlib
import Trench.Clients.Registry

set_option autoImplicit false

/- Who a client is, against what is listed and what the network says. -/
namespace Trench.Clients

open Wire

section

variable {π : Type}

/-! ### What should be given -/

/-- The first stage at which a live entry fits decides, and an entry that fits there is taken. -/
def FirstOf (live : Client π → Prop) (fallback : π) : List (Client π → Prop) → π → Prop
  | [], policy => policy = fallback
  | stage :: rest, policy => (∃ e, live e ∧ stage e ∧ e.policy = policy) ∨
      (∀ e, live e → ¬stage e) ∧ FirstOf live fallback rest policy

/-- The same type and the same ident; for networks, the same network. -/
def Replaces (d e : Client π) : Prop :=
  d.identType = e.identType ∧ (d.ident = e.ident ∨
    d.identType = .cidr ∧ ∃ net, ipNetwork d.ident = some net ∧ ipNetwork e.ident = some net)

/-- An entry that no managed one replaces. -/
def Live (configured managed : List (Client π)) (e : Client π) : Prop :=
  e ∈ managed ∨ e ∈ configured ∧ ∀ d ∈ managed, ¬Replaces d e

def HasClientId (clientId : Text) (e : Client π) : Prop :=
  (e.identType = .clientid ∨ e.identType = .token) ∧ clientId ≠ [] ∧ e.ident = clientId

def HasAddress (ip : Text) (e : Client π) : Prop := e.identType = .ip ∧ e.ident = ip

def HasNetwork (ip : Text) (e : Client π) : Prop :=
  e.identType = .cidr ∧ ∃ net addr, ipNetwork e.ident = some net ∧ ipAddress ip = some addr ∧ net.contains addr = true

def HasMac (lib : Library) (neighbours : Dict Text Text) (ip : Text) (e : Client π) : Prop :=
  e.identType = .mac ∧ lib.lower e.ident ≠ [] ∧ neighbours.get? ip = some (lib.lower e.ident)

def stages (lib : Library) (neighbours : Dict Text Text) (ip clientId : Text) : List (Client π → Prop) :=
  [HasClientId clientId, HasAddress ip, HasNetwork ip, HasMac lib neighbours ip]

/-! ### What the lookups find -/

variable {lib : Library} {configured managed clients : List (Client π)} {fallback : π}

theorem create_snoc (clients : List (Client π)) (c : Client π) :
    Registry.create lib (clients ++ [c]) fallback = (Registry.create lib clients fallback).add lib c := by
  rw [Registry.create, List.foldl_append]
  rfl

/-- The last entry that sets the key. -/
def lastOf (sets : Client π → Bool) (clients : List (Client π)) : Option (Client π) := clients.reverse.find? sets

theorem lastOf_snoc (sets : Client π → Bool) (clients : List (Client π)) (c : Client π) :
    lastOf sets (clients ++ [c]) = if sets c then some c else lastOf sets clients := by
  rw [lastOf, List.reverse_append, List.reverse_singleton, List.singleton_append, List.find?_cons]
  cases sets c with
  | true => rfl
  | false => rfl

/-- A table that every entry with a key is written to. -/
theorem get?_table (lib : Library) (fallback : π) (table : Registry π → Dict Text (Client π))
    (keyOf : Client π → Option Text)
    (bare : table (.create lib [] fallback) = .empty)
    (adds : ∀ (reg : Registry π) c, table (reg.add lib c) =
      (keyOf c).elim (table reg) fun key => (table reg).set key c)
    (clients : List (Client π)) (key : Text) : (table (.create lib clients fallback)).get? key =
      lastOf (fun c => decide (keyOf c = some key)) clients := by
  induction clients using List.reverseRecOn with
  | nil => rw [bare]; rfl
  | append_singleton clients c ih =>
      rw [create_snoc, lastOf_snoc, ← ih, adds]
      cases keyed : keyOf c with
      | none => simp only [reduceCtorEq, decide_false, Bool.false_eq_true, if_false, Option.elim_none]
      | some own => simp only [Option.elim_some, Dict.get?_set_eq, Option.some.injEq, decide_eq_true_eq]

def exactKey (c : Client π) : Option Text := if c.identType = .ip then some c.ident else none

def clientIdKey (c : Client π) : Option Text :=
  if c.identType = .clientid ∨ c.identType = .token then some c.ident else none

def macKey (lib : Library) (c : Client π) : Option Text := if c.identType = .mac then some (lib.lower c.ident) else none

theorem exact_add (reg : Registry π) (c : Client π) :
    (reg.add lib c).exact = (exactKey c).elim reg.exact fun key => reg.exact.set key c := by
  rw [Registry.add, exactKey]
  cases c.identType with
  | cidr =>
      cases ipNetwork c.ident with
      | none => rfl
      | some net => rfl
  | _ => rfl

theorem byClientid_add (reg : Registry π) (c : Client π) :
    (reg.add lib c).byClientid = (clientIdKey c).elim reg.byClientid fun key => reg.byClientid.set key c := by
  rw [Registry.add, clientIdKey]
  cases c.identType with
  | cidr =>
      cases ipNetwork c.ident with
      | none => rfl
      | some net => rfl
  | _ => rfl

theorem byMac_add (reg : Registry π) (c : Client π) :
    (reg.add lib c).byMac = (macKey lib c).elim reg.byMac fun key => reg.byMac.set key c := by
  rw [Registry.add, macKey]
  cases c.identType with
  | cidr =>
      cases ipNetwork c.ident with
      | none => rfl
      | some net => rfl
  | _ => rfl

theorem cidrs_create (clients : List (Client π)) : (Registry.create lib clients fallback).cidrs =
    clients.filterMap fun c => if c.identType = .cidr then (ipNetwork c.ident).map (·, c) else none := by
  induction clients using List.reverseRecOn with
  | nil => rfl
  | append_singleton clients c ih =>
      rw [create_snoc, List.filterMap_append, ← ih, Registry.add, List.filterMap_cons]
      cases type : c.identType with
      | cidr =>
          cases ipNetwork c.ident with
          | none => exact (List.append_nil _).symm
          | some net => rfl
      | _ => exact (List.append_nil _).symm

theorem fallback_create (clients : List (Client π)) : (Registry.create lib clients fallback).fallback = fallback := by
  induction clients using List.reverseRecOn with
  | nil => rfl
  | append_singleton clients c ih =>
      rw [create_snoc, Registry.add]
      split
      · exact ih
      · split
        · exact ih
        · exact ih
      · exact ih
      · exact ih
      · exact ih
      · exact ih

/-- The last entry with a key is live: whatever replaces it has the key too and comes later. -/
theorem live_of_lastOf {keyOf : Client π → Option Text} {key : Text} {e : Client π}
    (shared : ∀ d : Client π, Replaces d e → keyOf e = some key → keyOf d = some key)
    (found : lastOf (fun c => decide (keyOf c = some key)) (configured ++ managed) = some e) :
    Live configured managed e ∧ keyOf e = some key := by
  have hit := List.find?_some found
  have keyed : keyOf e = some key := of_decide_eq_true hit
  refine ⟨?_, keyed⟩
  rw [lastOf, List.reverse_append, List.find?_append] at found
  rcases Option.or_eq_some_iff.mp found with later | ⟨none, earlier⟩
  · exact .inl (List.mem_reverse.mp (List.mem_of_find?_eq_some later))
  · refine .inr ⟨List.mem_reverse.mp (List.mem_of_find?_eq_some earlier), fun d held replaces => ?_⟩
    have other := List.find?_eq_none.mp none d (List.mem_reverse.mpr held)
    exact other (decide_eq_true (shared d replaces keyed))

theorem mem_of_live {e : Client π} (live : Live configured managed e) : e ∈ configured ++ managed :=
  List.mem_append.mpr (live.elim .inr fun here => .inl here.1)

theorem none_of_lastOf {keyOf : Client π → Option Text} {key : Text}
    (none : lastOf (fun c => decide (keyOf c = some key)) clients = none) {e : Client π} (held : e ∈ clients) :
    keyOf e ≠ some key := fun keyed =>
  List.find?_eq_none.mp none e (List.mem_reverse.mpr held) (decide_eq_true keyed)

/-- A lookup agrees with a stage: what it finds is live and fits, and where it finds nothing nothing fits. -/
structure Agrees (live : Client π → Prop) (looked : Option (Client π)) (stage : Client π → Prop) : Prop where
  hit : ∀ e, looked = some e → live e ∧ stage e
  miss : looked = none → ∀ e, live e → ¬stage e

theorem firstOf_lookups {live : Client π → Prop} {lookups : List (Option (Client π) × (Client π → Prop))}
    (agree : ∀ l ∈ lookups, Agrees live l.1 l.2) : FirstOf live fallback (lookups.map Prod.snd)
      ((((lookups.map Prod.fst).foldr Option.or none).map Client.policy).getD fallback) := by
  induction lookups with
  | nil => rfl
  | cons l rest ih =>
      obtain ⟨first, later⟩ := List.forall_mem_cons.mp agree
      rw [List.map_cons, List.map_cons, List.foldr_cons]
      cases looked : l.1 with
      | none => exact .inr ⟨first.miss looked, ih later⟩
      | some e => exact .inl ⟨e, (first.hit e looked).1, (first.hit e looked).2, rfl⟩

/-! ### Lookups -/

/-- The first listed entry whose network contains the address is live: no managed one replaces it. -/
def FirstLive (lib : Library) (configured managed : List (Client π)) (fallback : π) (ip : Text) : Prop :=
  ∀ net c, (Registry.fromConfig lib configured managed fallback).inCidr ip = some (net, c) → Live configured managed c

def Given (lib : Library) (configured managed : List (Client π)) (fallback : π) (neighbours : Dict Text Text)
    (ip clientId : Text) (policy : π) : Prop :=
  FirstOf (Live configured managed) fallback (stages lib neighbours ip clientId) policy

theorem hasNetwork_of_find {ip : Text} {net : IpNetwork} {c : Client π}
    (found : (Registry.create lib clients fallback).inCidr ip = some (net, c)) : HasNetwork ip c := by
  rw [Registry.inCidr] at found
  split at found
  · cases found
  · next addr read =>
      have held := List.mem_of_find?_eq_some found
      have inside := List.find?_some found
      rw [cidrs_create, List.mem_filterMap] at held
      obtain ⟨d, -, made⟩ := held
      split at made
      · next type =>
          obtain ⟨own, reads, same⟩ := Option.map_eq_some_iff.mp made
          cases same
          exact ⟨type, net, addr, reads, read, inside⟩
      · cases made

theorem none_of_inCidr {ip : Text} (none : (Registry.create lib clients fallback).inCidr ip = none) {e : Client π}
    (held : e ∈ clients) : ¬HasNetwork ip e := by
  rintro ⟨type, net, addr, reads, read, inside⟩
  rw [Registry.inCidr, read] at none
  have listed : (net, e) ∈ (Registry.create lib clients fallback).cidrs := by
    rw [cidrs_create, List.mem_filterMap]
    exact ⟨e, held, by rw [if_pos type, reads]; rfl⟩
  exact List.find?_eq_none.mp none _ listed inside

theorem resolve_eq (reg : Registry π) (neighbours : Dict Text Text) (ip clientId : Text) :
    reg.resolve neighbours ip clientId =
      ((([if clientId = [] then none else reg.byClientid.get? clientId, reg.exact.get? ip, (reg.inCidr ip).map Prod.snd,
        reg.throughMac neighbours ip].foldr Option.or none).map Client.policy).getD reg.fallback) := by
  rw [Registry.resolve, Registry.named]
  simp only [List.foldr_cons, List.foldr_nil, Option.or_none]
  cases (if clientId = [] then none else reg.byClientid.get? clientId) with
  | some c => rfl
  | none =>
      cases reg.exact.get? ip with
      | some c => rfl
      | none =>
          cases reg.inCidr ip with
          | some found => rfl
          | none => rfl

/-- A table whose key replacing entries share agrees with the stage of that key. -/
theorem agrees_table (table : Registry π → Dict Text (Client π)) {keyOf : Client π → Option Text}
    {stage : Client π → Prop} {key : Text}
    (looked : (table (.fromConfig lib configured managed fallback)).get? key =
      lastOf (fun c => decide (keyOf c = some key)) (configured ++ managed))
    (shared : ∀ d e : Client π, Replaces d e → keyOf e = some key → keyOf d = some key)
    (fits : ∀ e, stage e ↔ keyOf e = some key) :
    Agrees (Live configured managed) ((table (.fromConfig lib configured managed fallback)).get? key) stage := by
  rw [looked]
  constructor
  · intro e found
    obtain ⟨live, keyed⟩ := live_of_lastOf (fun d => shared d e) found
    exact ⟨live, (fits e).mpr keyed⟩
  · exact fun none e live fit => none_of_lastOf none (mem_of_live live) ((fits e).mp fit)

theorem agrees_nothing {live stage : Client π → Prop} (never : ∀ e, ¬stage e) : Agrees live none stage :=
  ⟨nofun, fun _ e _ => never e⟩

theorem agrees_clientId (clientId : Text) : Agrees (Live configured managed)
    (if clientId = [] then none else (Registry.fromConfig lib configured managed fallback).byClientid.get? clientId)
    (HasClientId clientId) := by
  split
  · next empty => exact agrees_nothing fun e fits => fits.2.1 empty
  · next named =>
      refine agrees_table Registry.byClientid
        (get?_table lib fallback Registry.byClientid clientIdKey rfl byClientid_add _ clientId) ?_ fun e => ?_
      · rintro d e ⟨type, same | ⟨cidr, -⟩⟩ keyed
        · rw [clientIdKey, type, same]
          exact keyed
        · rw [clientIdKey, ← type, cidr] at keyed
          cases keyed
      · rw [HasClientId, clientIdKey, Option.ite_none_right_eq_some, Option.some.injEq]
        exact ⟨fun fits => ⟨fits.1, fits.2.2⟩, fun keyed => ⟨keyed.1, named, keyed.2⟩⟩

theorem agrees_address (ip : Text) : Agrees (Live configured managed)
    ((Registry.fromConfig lib configured managed fallback).exact.get? ip) (HasAddress ip) := by
  refine agrees_table Registry.exact (get?_table lib fallback Registry.exact exactKey rfl exact_add _ ip) ?_ fun e => ?_
  · rintro d e ⟨type, same | ⟨cidr, -⟩⟩ keyed
    · rw [exactKey, type, same]
      exact keyed
    · rw [exactKey, ← type, cidr] at keyed
      cases keyed
  · rw [HasAddress, exactKey, Option.ite_none_right_eq_some, Option.some.injEq]

theorem agrees_mac (neighbours : Dict Text Text) (ip : Text) : Agrees (Live configured managed)
    ((Registry.fromConfig lib configured managed fallback).throughMac neighbours ip) (HasMac lib neighbours ip) := by
  rw [Registry.throughMac]
  split
  · next unknown =>
      refine agrees_nothing fun e fits => ?_
      rw [HasMac, unknown] at fits
      cases fits.2.2
  · next mac known =>
      split
      · next empty =>
          refine agrees_nothing fun e fits => fits.2.1 ?_
          rw [HasMac, known] at fits
          exact (Option.some.inj fits.2.2).symm.trans empty
      · next some_mac =>
          refine agrees_table Registry.byMac (get?_table lib fallback Registry.byMac (macKey lib) rfl byMac_add _ mac)
            ?_ fun e => ?_
          · rintro d e ⟨type, same | ⟨cidr, -⟩⟩ keyed
            · rw [macKey, type, same]
              exact keyed
            · rw [macKey, ← type, cidr] at keyed
              cases keyed
          · rw [HasMac, macKey, Option.ite_none_right_eq_some, known, Option.some.injEq, Option.some.injEq]
            exact ⟨fun fits => ⟨fits.1, fits.2.2.symm⟩, fun keyed => ⟨keyed.1, keyed.2 ▸ some_mac, keyed.2.symm⟩⟩

theorem agrees_network {ip : Text} (first : FirstLive lib configured managed fallback ip) :
    Agrees (Live configured managed) (((Registry.fromConfig lib configured managed fallback).inCidr ip).map Prod.snd)
      (HasNetwork ip) := by
  constructor
  · intro e found
    obtain ⟨⟨net, c⟩, here, rfl⟩ := Option.map_eq_some_iff.mp found
    exact ⟨first net c here, hasNetwork_of_find here⟩
  · exact fun none e live => none_of_inCidr (Option.map_eq_none_iff.mp none) (mem_of_live live)

/-- `_resolve` gives what should be given, where the network stage finds a live entry. -/
theorem given_resolve (neighbours : Dict Text Text) (ip clientId : Text)
    (first : FirstLive lib configured managed fallback ip) :
    Given lib configured managed fallback neighbours ip clientId
      ((Registry.fromConfig lib configured managed fallback).resolve neighbours ip clientId) := by
  set reg := Registry.fromConfig lib configured managed fallback with made
  have agree : ∀ l ∈ [(if clientId = [] then none else reg.byClientid.get? clientId, HasClientId clientId),
      (reg.exact.get? ip, HasAddress ip), ((reg.inCidr ip).map Prod.snd, HasNetwork ip),
      (reg.throughMac neighbours ip, HasMac lib neighbours ip)],
      Agrees (Live configured managed) l.1 l.2 := by
    intro l held
    simp only [List.mem_cons, List.not_mem_nil, or_false] at held
    rcases held with rfl | rfl | rfl | rfl
    · exact agrees_clientId clientId
    · exact agrees_address ip
    · exact agrees_network first
    · exact agrees_mac neighbours ip
  have found : FirstOf (Live configured managed) reg.fallback _ _ := firstOf_lookups agree
  rw [resolve_eq]
  rw [made, Registry.fromConfig, fallback_create] at found ⊢
  exact found

/-! ### Along a run -/

/-- The new table leads every remembered address that no earlier stage names to the entry it led to
before. -/
def Event.settled (lib : Library) (w : World π) : Event → Prop
  | .identifies _ _ => True
  | .refreshes outputs => ∀ ip clientId policy, w.registry.cache.get? (ip, clientId) = some policy →
      w.registry.named ip clientId = none → w.registry.inCidr ip = none →
        w.registry.throughMac (refreshNeighbours lib outputs) ip = w.registry.throughMac w.neighbours ip

/-- The listed clients stay, and what is remembered is what a lookup would find now. -/
structure Sound (reg : Registry π) (w : World π) : Prop where
  listed : w.registry = { reg with cache := w.registry.cache }
  fresh : ∀ ip clientId policy, w.registry.cache.get? (ip, clientId) = some policy →
    policy = reg.resolve w.neighbours ip clientId

variable {reg : Registry π} {w w' : World π} {e : Event}

theorem given_eq (sound : Sound reg w) (ip clientId : Text) :
    w.given ip clientId = reg.resolve w.neighbours ip clientId := by
  rw [World.given, Registry.identify]
  cases held : w.registry.cache.get? (ip, clientId) with
  | some policy => exact sound.fresh ip clientId policy held
  | none =>
      change w.registry.resolve w.neighbours ip clientId = _
      rw [sound.listed]
      rfl

/-- What is remembered after a lookup is its answer, or was remembered before. -/
theorem remembered_identify (reg : Registry π) (neighbours : Dict Text Text) (ip clientId : Text) {key : Text × Text}
    {policy : π} (held : (reg.identify neighbours ip clientId).2.cache.get? key = some policy) :
    key = (ip, clientId) ∧ policy = (reg.identify neighbours ip clientId).1 ∨ reg.cache.get? key = some policy := by
  rw [Registry.identify] at held ⊢
  cases cached : reg.cache.get? (ip, clientId) with
  | some old =>
      simp only [cached] at held ⊢
      rw [Dict.get?_set_eq] at held
      split at held
      · next same => exact .inl ⟨same.symm, (Option.some.inj held).symm⟩
      · exact .inr (Dict.get?_of_erase held)
  | none =>
      simp only [cached] at held ⊢
      have held := Dict.get?_of_dropFirst held
      rw [Dict.get?_set_eq] at held
      split at held
      · next same => exact .inl ⟨same.symm, (Option.some.inj held).symm⟩
      · exact .inr held

theorem identify_listed (reg : Registry π) (neighbours : Dict Text Text) (ip clientId : Text) :
    ∃ cache, (reg.identify neighbours ip clientId).2 = { reg with cache } := by
  rw [Registry.identify]
  split
  · exact ⟨_, rfl⟩
  · exact ⟨_, rfl⟩

theorem sound_identifies (sound : Sound reg w) (ip clientId : Text) :
    Sound reg { w with registry := (w.registry.identify w.neighbours ip clientId).2 } := by
  constructor
  · obtain ⟨cache, same⟩ := identify_listed w.registry w.neighbours ip clientId
    change (w.registry.identify w.neighbours ip clientId).2 =
      { reg with cache := (w.registry.identify w.neighbours ip clientId).2.cache }
    rw [same, sound.listed]
  · intro ip' clientId' policy held
    rcases remembered_identify w.registry w.neighbours ip clientId held with ⟨same, new⟩ | old
    · cases same
      exact new.trans (given_eq sound ip clientId)
    · exact sound.fresh ip' clientId' policy old

/-- A table that leads to the same entry leads to the same policy. -/
theorem resolve_congr {neighbours neighbours' : Dict Text Text} {ip clientId : Text}
    (same : reg.named ip clientId = none → reg.inCidr ip = none →
      reg.throughMac neighbours' ip = reg.throughMac neighbours ip) :
    reg.resolve neighbours' ip clientId = reg.resolve neighbours ip clientId := by
  rw [Registry.resolve, Registry.resolve]
  cases named : reg.named ip clientId with
  | some c => rfl
  | none =>
      cases inside : reg.inCidr ip with
      | some found => rfl
      | none => simp only [same named inside]

theorem sound_step (sound : Sound reg w) (settled : e.settled lib w) (taken : w.step lib e = some w') :
    Sound reg w' := by
  cases e with
  | identifies ip clientId =>
      cases taken
      exact sound_identifies sound ip clientId
  | refreshes outputs =>
      cases taken
      refine ⟨sound.listed, fun ip clientId policy held => ?_⟩
      have same := settled ip clientId policy held
      rw [sound.listed] at same
      rw [sound.fresh ip clientId policy held]
      exact (resolve_congr same).symm

def World.create (lib : Library) (configured managed : List (Client π)) (fallback : π)
    (neighbours : Dict Text Text) : World π := ⟨.fromConfig lib configured managed fallback, neighbours⟩

theorem cache_create (clients : List (Client π)) : (Registry.create lib clients fallback).cache = .empty := by
  induction clients using List.reverseRecOn with
  | nil => rfl
  | append_singleton clients c ih =>
      rw [create_snoc, Registry.add]
      cases c.identType with
      | cidr =>
          cases ipNetwork c.ident with
          | none => exact ih
          | some net => exact ih
      | _ => exact ih

/-- In a run whose refreshes leave the remembered addresses with the MAC entries they had, every lookup
gives what should be given, for an address whose first listed network is not replaced. -/
theorem identity_given {neighbours : Dict Text Text} {steps : List (Machine.Step (World π) Event)}
    (run : Machine.Run (World.step lib) (World.create lib configured managed fallback neighbours) steps)
    (settled : ∀ t ∈ steps, t.event.settled lib t.before) :
    ∀ t ∈ steps, ∀ ip clientId, t.event = .identifies ip clientId →
      FirstLive lib configured managed fallback ip →
        Given lib configured managed fallback t.before.neighbours ip clientId (t.before.given ip clientId) := by
  set reg := Registry.fromConfig lib configured managed fallback with made
  have keeps {w w' : World π} {e : Event} (sound : Sound reg w) (settled : e.settled lib w)
      (taken : w.step lib e = some w') : Sound reg w' ∧ Sound reg w := ⟨sound_step sound settled taken, sound⟩
  have start : Sound reg (.create lib configured managed fallback neighbours) := by
    refine ⟨rfl, fun ip clientId policy held => ?_⟩
    change reg.cache.get? _ = some policy at held
    rw [made, Registry.fromConfig, cache_create] at held
    cases held
  intro t held ip clientId _ first
  have sound := (Machine.Run.invariant (fun w e => Event.settled lib w e) (fun w _ _ => Sound reg w) keeps run start
    settled t held).2
  rw [given_eq sound]
  exact given_resolve t.before.neighbours ip clientId first

end

/-! ### A phone that is seen before its MAC -/

/-- As Python reads ASCII. -/
def asciiLibrary : Library := ⟨fun s => s.map Char.toLower, Name.isDigit⟩

def phone : Client ℕ := ⟨"AA:BB:CC:DD:EE:FF".toList, .mac, 1⟩

/-- It is looked up, the neighbour table arrives, and it is looked up again. -/
def phoneSteps : List (Machine.Step (World ℕ) Event) :=
  Machine.follow (World.step asciiLibrary) (World.create asciiLibrary [phone] [] 0 .empty)
    [.identifies "10.0.0.9".toList [],
      .refreshes [some "10.0.0.9 dev eth0 lladdr aa:bb:cc:dd:ee:ff REACHABLE\n".toList],
      .identifies "10.0.0.9".toList []]

theorem phoneSteps_ne : phoneSteps ≠ [] := List.cons_ne_nil _ _

theorem phone_given : ((phoneSteps.getLast phoneSteps_ne).before.neighbours.get? "10.0.0.9".toList,
    (phoneSteps.getLast phoneSteps_ne).before.given "10.0.0.9".toList []) =
      (some (asciiLibrary.lower phone.ident), 0) := by decide +kernel

theorem memo_outlives_table : ¬∀ (lib : Library) (configured managed : List (Client ℕ)) (fallback : ℕ)
    (neighbours : Dict Text Text) (steps : List (Machine.Step (World ℕ) Event)),
    Machine.Run (World.step lib) (World.create lib configured managed fallback neighbours) steps →
    ∀ t ∈ steps, ∀ ip clientId, t.event = .identifies ip clientId →
      Given lib configured managed fallback t.before.neighbours ip clientId (t.before.given ip clientId) := by
  intro claim
  have given := claim asciiLibrary [phone] [] 0 .empty phoneSteps (Machine.run_follow _ _ _)
    (phoneSteps.getLast phoneSteps_ne) (List.getLast_mem _) "10.0.0.9".toList [] rfl
  obtain ⟨table, answer⟩ := Prod.ext_iff.mp phone_given
  have live : Live [phone] [] phone := .inr ⟨List.mem_cons_self, fun _ held => absurd held List.not_mem_nil⟩
  have fits : HasMac asciiLibrary (phoneSteps.getLast phoneSteps_ne).before.neighbours "10.0.0.9".toList phone :=
    ⟨rfl, by decide, table⟩
  rcases given with ⟨e, -, fit, -⟩ | ⟨-, ⟨e, held, fit, -⟩ | ⟨-, ⟨e, held, fit, -⟩ | ⟨-, ⟨e, held, -, same⟩ | ⟨none, -⟩⟩⟩⟩
  · exact fit.2.1 rfl
  · obtain rfl := List.mem_singleton.mp (mem_of_live held)
    cases fit.1
  · obtain rfl := List.mem_singleton.mp (mem_of_live held)
    cases fit.1
  · obtain rfl := List.mem_singleton.mp (mem_of_live held)
    cases same.trans answer
  · exact none phone live fits

/-- The table arrives before the phone is looked up. -/
def orderlySteps : List (Machine.Step (World ℕ) Event) :=
  Machine.follow (World.step asciiLibrary) (World.create asciiLibrary [phone] [] 0 .empty)
    [.refreshes [some "10.0.0.9 dev eth0 lladdr aa:bb:cc:dd:ee:ff REACHABLE\n".toList],
      .identifies "10.0.0.9".toList []]

theorem orderlySteps_ne : orderlySteps ≠ [] := List.cons_ne_nil _ _

theorem orderly_settled : ∀ t ∈ orderlySteps, t.event.settled asciiLibrary t.before := by
  refine List.forall_mem_cons.mpr ⟨fun ip clientId policy held => ?_, List.forall_mem_cons.mpr ⟨trivial, nofun⟩⟩
  cases held

theorem identity_given_phone : Given asciiLibrary [phone] [] 0
    (orderlySteps.getLast orderlySteps_ne).before.neighbours "10.0.0.9".toList [] 1 := by
  have given := identity_given (Machine.run_follow _ _ _) orderly_settled (orderlySteps.getLast orderlySteps_ne)
    (List.getLast_mem _) "10.0.0.9".toList [] rfl fun net c found => by cases found
  have answer : (orderlySteps.getLast orderlySteps_ne).before.given "10.0.0.9".toList [] = 1 := by decide +kernel
  rwa [answer] at given

/-- A managed network does not replace the configured one. -/
example : ((Registry.fromConfig asciiLibrary [⟨"10.0.0.0/8".toList, .cidr, 1⟩] [⟨"10.0.0.0/8".toList, .cidr, 2⟩] 0).resolve
    .empty "10.0.0.9".toList []) = 1 := by decide +kernel

end Trench.Clients
