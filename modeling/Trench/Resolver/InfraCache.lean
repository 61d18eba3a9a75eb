import Mathlib
import Trench.Resolver.Bailiwick

set_option autoImplicit false

/- The map of the namespace that resolutions share: what each entry rests on, how many there are and
how long they stay. -/
namespace Trench.Resolver

open Wire
open Coroutine (Keeps keeps_pure keeps_get keeps_modify)

abbrev Exchange : Type := Request × Reply

/-! ### Authority -/

/-- A server speaks for a zone: for the root where it is a hint, for a zone that a server of a zone
above delegated to its name where it has the address of that name, by the glue of the delegation or
by the answer of a server that speaks for a zone of the name. -/
inductive Serves (hints : List Text) (heard : List Exchange) : Name → Text → Prop
  | root {ip : Text} (hint : ip ∈ hints) : Serves hints heard Name.root ip
  | glue {q : Request} {msg : Message} {dz nm : Name} {rr : RR} {ip : Text} (asked : Serves hints heard q.zone q.ip)
      (said : (q, .message msg) ∈ heard) (delegates : Delegates msg q.zone dz nm) (held : rr ∈ msg.additional)
      (owner : (rr.name == nm) = true) (inside : rr.name.isSubdomainOf q.zone = true)
      (address : address? rr.rdata = some ip) : Serves hints heard dz ip
  | found {q q' : Request} {msg msg' : Message} {dz nm : Name} {rr : RR} {ip : Text}
      (asked : Serves hints heard q.zone q.ip) (said : (q, .message msg) ∈ heard)
      (delegates : Delegates msg q.zone dz nm) (asked' : Serves hints heard q'.zone q'.ip)
      (said' : (q', .message msg') ∈ heard) (held : rr ∈ msg'.answers) (owner : (rr.name == nm) = true)
      (inside : rr.name.isSubdomainOf q'.zone = true) (address : rr.rdata = .a ip) : Serves hints heard dz ip

/-- A record that a server of a zone around it has said, in that part of its reply. -/
def Told (hints : List Text) (heard : List Exchange) (part : Message → List RR) (rr : RR) : Prop :=
  ∃ q msg, Serves hints heard q.zone q.ip ∧ (q, .message msg) ∈ heard ∧ rr ∈ part msg ∧
    rr.name.isSubdomainOf q.zone = true

/-- A zone is delegated to a nameserver by a server that speaks for a zone above. -/
def Delegation (hints : List Text) (heard : List Exchange) (dz nm : Name) : Prop :=
  ∃ q msg, Serves hints heard q.zone q.ip ∧ (q, .message msg) ∈ heard ∧ Delegates msg q.zone dz nm

/-- A nameserver has an address by the answer of a server that speaks for a zone around its name. -/
def Hosts (hints : List Text) (heard : List Exchange) (nm : Name) (ip : Text) : Prop :=
  ∃ rr, Told hints heard Message.answers rr ∧ (rr.name == nm) = true ∧ rr.rdata = .a ip

section

variable {hints : List Text} {heard more : List Exchange} {zone nm : Name} {ip : Text}

theorem Serves.mono (grown : heard ⊆ more) (serves : Serves hints heard zone ip) : Serves hints more zone ip := by
  induction serves with
  | root hint => exact .root hint
  | glue _ said delegates held owner inside address ih =>
      exact .glue ih (grown said) delegates held owner inside address
  | found _ said delegates _ said' held owner inside address ih ih' =>
      exact .found ih (grown said) delegates ih' (grown said') held owner inside address

theorem Told.mono (grown : heard ⊆ more) {part : Message → List RR} {rr : RR} (told : Told hints heard part rr) :
    Told hints more part rr := by
  obtain ⟨q, msg, serves, said, held, inside⟩ := told
  exact ⟨q, msg, serves.mono grown, grown said, held, inside⟩

theorem Delegation.mono (grown : heard ⊆ more) (delegation : Delegation hints heard zone nm) :
    Delegation hints more zone nm := by
  obtain ⟨q, msg, serves, said, delegates⟩ := delegation
  exact ⟨q, msg, serves.mono grown, grown said, delegates⟩

theorem Hosts.mono (grown : heard ⊆ more) (hosts : Hosts hints heard nm ip) : Hosts hints more nm ip := by
  obtain ⟨rr, told, owner, address⟩ := hosts
  exact ⟨rr, told.mono grown, owner, address⟩

theorem Hosts.congr {other : Name} (hosts : Hosts hints heard nm ip) (same : (nm == other) = true) :
    Hosts hints heard other ip := by
  obtain ⟨rr, told, owner, address⟩ := hosts
  exact ⟨rr, told, BEq.trans owner same, address⟩

/-- The address of a nameserver that a zone is delegated to serves the zone. -/
theorem Delegation.serves (delegation : Delegation hints heard zone nm) (hosts : Hosts hints heard nm ip) :
    Serves hints heard zone ip := by
  obtain ⟨q, msg, asked, said, delegates⟩ := delegation
  obtain ⟨rr, ⟨q', msg', asked', said', held, inside⟩, owner, address⟩ := hosts
  exact .found asked said delegates asked' said' held owner inside address

end

/-! ### What is kept -/

variable (r : Recursive)

/-- Every delegation and address was said by a server that speaks for it, none is kept longer than a
day, and there are no more than there is room for. -/
structure Kept (heard : List Exchange) (s : Shared) : Prop where
  keyed : ∀ e ∈ s.cuts.entries, (e.1 == e.2.zone) = true
  delegated : ∀ e ∈ s.cuts.entries, ∀ nm ∈ e.2.names, Delegation r.rootHints heard e.2.zone nm
  serves : ∀ e ∈ s.cuts.entries, ∀ ip ∈ e.2.flat, Serves r.rootHints heard e.2.zone ip
  hosts : ∀ e ∈ s.addrs.entries, ∀ ip ∈ e.2.1, Hosts r.rootHints heard e.1 ip
  cutsFit : s.cuts.size ≤ r.maxZones
  addrsFit : s.addrs.size ≤ r.maxZones
  cutsExpire : ∀ e ∈ s.cuts.entries, e.2.expires ≤ r.clock s.readings + 86400
  addrsExpire : ∀ e ∈ s.addrs.entries, e.2.2 ≤ r.clock s.readings + 86400

section

variable {r} {heard more : List Exchange} {s : Shared}

theorem Kept.mono (grown : heard ⊆ more) (kept : Kept r heard s) : Kept r more s where
  keyed := kept.keyed
  delegated e held nm named := (kept.delegated e held nm named).mono grown
  serves e held ip there := (kept.serves e held ip there).mono grown
  hosts e held ip there := (kept.hosts e held ip there).mono grown
  cutsFit := kept.cutsFit
  addrsFit := kept.addrsFit
  cutsExpire := kept.cutsExpire
  addrsExpire := kept.addrsExpire

/-- Fewer entries, and a later time, keep what is kept. -/
theorem Kept.fewer {s' : Shared} (kept : Kept r heard s) (cuts : s'.cuts.entries.Sublist s.cuts.entries)
    (addrs : s'.addrs.entries.Sublist s.addrs.entries) (later : s ≤ s') : Kept r heard s' where
  keyed e held := kept.keyed e (cuts.subset held)
  delegated e held := kept.delegated e (cuts.subset held)
  serves e held := kept.serves e (cuts.subset held)
  hosts e held := kept.hosts e (addrs.subset held)
  cutsFit := cuts.length_le.trans kept.cutsFit
  addrsFit := addrs.length_le.trans kept.addrsFit
  cutsExpire e held := (kept.cutsExpire e (cuts.subset held)).trans (by linarith [r.steady later])
  addrsExpire e held := (kept.addrsExpire e (addrs.subset held)).trans (by linarith [r.steady later])

theorem lifetime_le (ttl : Int) : ((Recursive.lifetime ttl : Int) : ℚ) ≤ 86400 := by
  have bound : Recursive.lifetime ttl ≤ 86400 := by
    rw [Recursive.lifetime]
    omega
  exact_mod_cast bound

theorem roomIn_sublist {ν : Type} (expires : ν → ℚ) (now : ℚ) (d : Dict Name ν) :
    (r.roomIn expires now d).entries.Sublist d.entries :=
  (List.drop_sublist _ _).trans List.filter_sublist

theorem roomIn_size {ν : Type} (expires : ν → ℚ) (now : ℚ) (d : Dict Name ν) :
    (r.roomIn expires now d).size + 1 ≤ r.maxZones := by
  have room := r.room
  rw [Recursive.roomIn, Dict.size_dropFirst]
  omega

/-! ### The operations -/

theorem keeps_now (kept : Kept r heard s) : Keeps (Kept r heard) r.now s fun now s' =>
    r.clock s.readings ≤ now ∧ now ≤ r.clock s'.readings ∧ s'.cuts = s.cuts ∧ s'.addrs = s.addrs :=
  ⟨kept.fewer (List.Sublist.refl _) (List.Sublist.refl _) (Nat.le_succ _), Nat.le_succ _, le_rfl,
    r.steady (Nat.le_succ _), rfl, rfl⟩

/-- A cut that encloses one of the names, with addresses that serve it. -/
structure Usable (hints : List Text) (heard : List Exchange) (zones : List Name) (cut : Cut) : Prop where
  encloses : ∃ zone ∈ zones, (zone == cut.zone) = true
  delegated : ∀ nm ∈ cut.names, Delegation hints heard cut.zone nm
  serves : ∀ ip ∈ cut.flat, Serves hints heard cut.zone ip

theorem usable_of_get? (kept : Kept r heard s) {zone : Name} {cut : Cut} (found : s.cuts.get? zone = some cut)
    {zones : List Name} (inside : zone ∈ zones) : Usable r.rootHints heard zones cut := by
  obtain ⟨e, held, same, rfl⟩ := Dict.get?_eq_some.mp found
  exact ⟨⟨zone, inside, BEq.trans (BEq.symm same) (kept.keyed e held)⟩, kept.delegated e held, kept.serves e held⟩

theorem Usable.wider {zone : Name} {zones : List Name} {cut : Cut} (usable : Usable r.rootHints heard zones cut) :
    Usable r.rootHints heard (zone :: zones) cut := by
  obtain ⟨⟨other, held, same⟩, delegated, serves⟩ := usable
  exact ⟨⟨other, List.mem_cons_of_mem _ held, same⟩, delegated, serves⟩

theorem keeps_closestFrom (now : ℚ) (zones : List Name) (kept : Kept r heard s) :
    Keeps (Kept r heard) (Recursive.closestFrom now zones) s fun cut _ => ∀ found ∈ cut,
      Usable r.rootHints heard zones found := by
  induction zones generalizing s with
  | nil => exact keeps_pure kept (by rintro _ ⟨⟩)
  | cons zone zones ih =>
      rw [Recursive.closestFrom]
      refine Keeps.bind (keeps_get kept) fun s₁ s₂ _ kept₂ same => ?_
      subst same
      cases found : s₁.cuts.get? zone with
      | none => exact (ih kept₂).imp fun cut _ all found there => (all found there).wider
      | some cut =>
          dsimp only
          split
          · refine Keeps.bind (keeps_modify (kept₂.fewer List.filter_sublist (List.Sublist.refl _) (same_time rfl)) (same_time rfl)) ?_
            exact fun _ _ _ kept₃ _ => (ih kept₃).imp fun cut _ all found there => (all found there).wider
          · split
            · refine keeps_pure kept₂ ?_
              rintro _ ⟨⟩
              exact usable_of_get? kept₂ found List.mem_cons_self
            · exact (ih kept₂).imp fun cut _ all found there => (all found there).wider

/-- What `closest` finds encloses the name. -/
theorem keeps_closest (name : Name) (kept : Kept r heard s) : Keeps (Kept r heard) (r.closest name) s fun cut _ =>
    ∀ found ∈ cut, name.isSubdomainOf found.zone = true ∧
      (∀ nm ∈ found.names, Delegation r.rootHints heard found.zone nm) ∧
        ∀ ip ∈ found.flat, Serves r.rootHints heard found.zone ip := by
  rw [Recursive.closest]
  refine Keeps.bind (keeps_now kept) fun now s' _ kept' _ => ?_
  refine (keeps_closestFrom now _ kept').imp fun cut _ all found there => ?_
  obtain ⟨⟨zone, held, same⟩, delegated, serves⟩ := all found there
  refine ⟨?_, delegated, serves⟩
  obtain ⟨labels, inside, rfl⟩ := List.mem_map.mp held
  obtain ⟨n, rfl⟩ : ∃ n, labels = name.labels.drop n :=
    ⟨_, List.suffix_iff_eq_drop.mp ((List.mem_tails _ _).mp inside)⟩
  rw [Name.isSubdomainOf_iff, ← Name.beq_iff.mp same]
  exact Name.isSubdomainOf_iff.mp (subdomain_drop name n)

/-- Room for an entry that is not there yet. -/
theorem roomy {ν : Type} {d : Dict Name ν} {k : Name} {v : ν} (fits : d.size ≤ r.maxZones)
    (room : d.contains k = false → d.size + 1 ≤ r.maxZones) : (d.set k v).size ≤ r.maxZones := by
  cases held : d.contains k with
  | true => rwa [Dict.size_set_held held]
  | false =>
      rw [Dict.size_set_new held]
      exact room held

/-- What holds of every entry, and of the new one under each key that is equal to it. -/
theorem forall_set {ν : Type} {d : Dict Name ν} {k : Name} {v : ν} {p : Name × ν → Prop}
    (old : ∀ e ∈ d.entries, p e) (new : ∀ other, (other == k) = true → p (other, v)) :
    ∀ e ∈ (d.set k v).entries, p e := by
  rintro ⟨other, w⟩ held
  rcases Dict.mem_set.mp held with ⟨held, -⟩ | ⟨value, ⟨-, -, same⟩ | ⟨key, -⟩⟩
  · exact old _ held
  · obtain rfl : w = v := value
    exact new other same
  · obtain rfl : w = v := value
    obtain rfl : other = k := key
    exact new other BEq.rfl

/-- A delegation that is put in the cache rests on what was heard. -/
theorem keeps_putCut {zone : Name} {names : List Name} {addrs : Dict Name (List Text)} (ttl : Int)
    (kept : Kept r heard s) (delegated : ∀ nm ∈ names, Delegation r.rootHints heard zone nm)
    (serves : ∀ nm ∈ names, ∀ ips, addrs.get? nm = some ips → ∀ ip ∈ ips, Serves r.rootHints heard zone ip) :
    Keeps (Kept r heard) (r.putCut zone names addrs ttl) s fun cut _ => cut.zone = zone ∧ cut.names = names ∧
      ∀ ip ∈ cut.flat, Serves r.rootHints heard zone ip := by
  have flat (expires : ℚ) : ∀ ip ∈ (Cut.mk zone names addrs expires).flat, Serves r.rootHints heard zone ip := by
    intro ip held
    obtain ⟨nm, named, there⟩ := List.mem_flatMap.mp held
    cases found : addrs.get? nm with
    | none =>
        rw [found] at there
        cases there
    | some ips =>
        rw [found] at there
        exact serves nm named ips found ip there
  have stored {s' : Shared} {written : ℚ} (kept' : Kept r heard s') (past : written ≤ r.clock s'.readings)
      (room : s'.cuts.contains zone = false → s'.cuts.size + 1 ≤ r.maxZones) : Kept r heard
        { s' with cuts := s'.cuts.set zone ⟨zone, names, addrs, written + Recursive.lifetime ttl⟩ } := by
    exact {
      keyed := forall_set kept'.keyed fun k same => same
      delegated := forall_set kept'.delegated fun k _ => delegated
      serves := forall_set kept'.serves fun k _ => flat _
      hosts := kept'.hosts
      cutsFit := roomy kept'.cutsFit room
      addrsFit := kept'.addrsFit
      cutsExpire := forall_set kept'.cutsExpire fun k _ => add_le_add past (lifetime_le ttl)
      addrsExpire := kept'.addrsExpire }
  rw [Recursive.putCut]
  refine Keeps.bind (keeps_now kept) fun written s₁ _ kept₁ ⟨_, past, _⟩ => ?_
  refine Keeps.bind (keeps_get kept₁) fun s₂ s₂' later₂ kept₂ same => ?_
  subst same
  have past₂ := past.trans (r.steady later₂)
  dsimp only
  split
  · refine Keeps.bind (keeps_now kept₂) fun now s₃ later₃ kept₃ ⟨_, _, _⟩ => ?_
    have thinned : Kept r heard { s₃ with cuts := r.roomIn Cut.expires now s₃.cuts } :=
      kept₃.fewer (roomIn_sublist _ _ _) (List.Sublist.refl _) (same_time rfl)
    refine Keeps.bind (keeps_modify thinned (same_time rfl)) fun _ s₄ _ kept₄ same => ?_
    subst same
    refine Keeps.bind (keeps_modify (stored kept₄ (past₂.trans (r.steady later₃)) fun _ => roomIn_size _ _ _) (same_time rfl)) ?_
    exact fun _ s₅ _ kept₅ _ => keeps_pure kept₅ ⟨rfl, rfl, flat _⟩
  · next none =>
      have room : s₂.cuts.contains zone = false → s₂.cuts.size + 1 ≤ r.maxZones := by
        intro absent
        by_contra full
        exact none ⟨by omega, absent⟩
      refine Keeps.bind (keeps_modify (stored kept₂ past₂ room) (same_time rfl)) ?_
      exact fun _ s₃ _ kept₃ _ => keeps_pure kept₃ ⟨rfl, rfl, flat _⟩

/-- The addresses that are known of a nameserver are its own. -/
theorem keeps_addrsFor (nsname : Name) (kept : Kept r heard s) : Keeps (Kept r heard) (r.addrsFor nsname) s fun ips _ =>
    ∀ ip ∈ ips, Hosts r.rootHints heard nsname ip := by
  rw [Recursive.addrsFor]
  refine Keeps.bind (keeps_get kept) fun s₁ s₂ _ kept₂ same => ?_
  subst same
  cases found : s₁.addrs.get? nsname with
  | none => exact keeps_pure kept₂ fun ip none => absurd none List.not_mem_nil
  | some pair =>
      obtain ⟨ips, exp⟩ := pair
      dsimp only
      refine Keeps.bind (keeps_now kept₂) fun now s₃ _ kept₃ _ => ?_
      split
      · refine Keeps.bind (keeps_modify (kept₃.fewer (List.Sublist.refl _) List.filter_sublist (same_time rfl)) (same_time rfl)) ?_
        exact fun _ s₄ _ kept₄ _ => keeps_pure kept₄ fun ip none => absurd none List.not_mem_nil
      · refine keeps_pure kept₃ fun ip held => ?_
        obtain ⟨e, there, same, value⟩ := Dict.get?_eq_some.mp found
        exact (kept₂.hosts e there ip (by rw [value]; exact held)).congr same

/-- Addresses that are put in the cache rest on what was heard. -/
theorem keeps_putAddrs {nsname : Name} {ips : List Text} (ttl : Int) (kept : Kept r heard s)
    (hosts : ∀ ip ∈ ips, Hosts r.rootHints heard nsname ip) :
    Keeps (Kept r heard) (r.putAddrs nsname ips ttl) s fun _ _ => True := by
  have stored {s' : Shared} {written : ℚ} (kept' : Kept r heard s') (past : written ≤ r.clock s'.readings)
      (room : s'.addrs.contains nsname = false → s'.addrs.size + 1 ≤ r.maxZones) : Kept r heard
        { s' with addrs := s'.addrs.set nsname (ips, written + Recursive.lifetime ttl) } :=
    { keyed := kept'.keyed
      delegated := kept'.delegated
      serves := kept'.serves
      hosts := forall_set kept'.hosts fun other same ip held => (hosts ip held).congr (BEq.symm same)
      cutsFit := kept'.cutsFit
      addrsFit := roomy kept'.addrsFit room
      cutsExpire := kept'.cutsExpire
      addrsExpire := forall_set kept'.addrsExpire fun _ _ => add_le_add past (lifetime_le ttl) }
  have ends {s' : Shared} (kept' : Kept r heard s')
      (room : s'.addrs.contains nsname = false → s'.addrs.size + 1 ≤ r.maxZones) : Keeps (Kept r heard)
        (r.now >>= fun written =>
          modify fun s => { s with addrs := s.addrs.set nsname (ips, written + Recursive.lifetime ttl) })
        s' fun _ _ => True := by
    refine Keeps.bind (keeps_now kept') fun written s₁ _ kept₁ ⟨_, past, _, same⟩ => ?_
    exact (keeps_modify (stored kept₁ past (by rwa [same])) (same_time rfl)).imp fun _ _ _ => trivial
  rw [Recursive.putAddrs]
  split
  · exact keeps_pure kept trivial
  · refine Keeps.bind (keeps_get kept) fun s₁ s₂ _ kept₂ same => ?_
    subst same
    dsimp only
    split
    · refine Keeps.bind (keeps_now kept₂) fun now s₃ _ kept₃ _ => ?_
      have thinned : Kept r heard { s₃ with addrs := r.roomIn Prod.snd now s₃.addrs } :=
        kept₃.fewer (List.Sublist.refl _) (roomIn_sublist _ _ _) (same_time rfl)
      refine Keeps.bind (keeps_modify thinned (same_time rfl)) fun _ s₄ _ kept₄ same => ?_
      subst same
      exact ends kept₄ fun _ => roomIn_size _ _ _
    · next none =>
        refine ends kept₂ fun absent => ?_
        by_contra full
        exact none ⟨by omega, absent⟩

/-- The servers that are asked are some of those given. -/
theorem keeps_order (servers : List Text) (kept : Kept r heard s) : Keeps (Kept r heard) (r.order servers) s fun ips _ =>
    ips ⊆ servers := by
  rw [Recursive.order]
  refine Keeps.bind (keeps_get kept) fun s₁ s₂ _ kept₂ same => ?_
  subst same
  have listed : (if (fromKeys servers).filter r.reachable = [] then fromKeys servers
      else (fromKeys servers).filter r.reachable) ⊆ servers := by
    intro ip held
    split at held
    · exact mem_fromKeys held
    · exact mem_fromKeys (List.mem_filter.mp held).1
  refine ⟨kept₂.fewer (List.Sublist.refl _) (List.Sublist.refl _) (same_time rfl), (same_time rfl), fun ip held => listed ?_⟩
  have ranked := List.mem_mergeSort.mp (List.mem_of_mem_take held)
  exact (r.shuffled _ _).subset ranked

theorem keeps_learn (ip : Text) (f : Peer → Peer) (kept : Kept r heard s) :
    Keeps (Kept r heard) (Recursive.learn ip f) s fun _ _ => True :=
  (keeps_modify (kept.fewer (List.Sublist.refl _) (List.Sublist.refl _) (same_time rfl)) (same_time rfl)).imp fun _ _ _ => trivial

end

end Trench.Resolver
