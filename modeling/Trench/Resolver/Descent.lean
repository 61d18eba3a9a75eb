import Mathlib
import Trench.Resolver.Turns

set_option autoImplicit false

/- One name, followed down from the deepest cut that is known: every server that is asked serves the
zone it is asked for, and what is found was said with authority. -/
namespace Trench.Resolver

open Wire
open Engine.Rcode (noerror nxdomain servfail)
open Coroutine (Task Rules Meets Runs Keeps keeps_pure)

section

variable {r : Recursive} {D : ℚ} {c : Nat} {heard more past later : List Exchange} {low : Shared}

/-- What was found for a name was said by servers of zones around it, and leads from the name. -/
structure Trusted (r : Recursive) (heard : List Exchange) (name : Name) (found : Recursive.Found) : Prop where
  answers : ∀ rr ∈ found.1.answers, Told r.rootHints heard Message.answers rr
  authority : ∀ rr ∈ found.1.authority, Told r.rootHints heard Message.authority rr
  additional : ∀ rr ∈ found.1.additional, Told r.rootHints heard Message.additional rr
  chained : ∀ rr ∈ found.1.answers, OnChain found.1.answers name rr.name
  target : ∀ target ∈ found.2, ∃ rr ∈ found.1.answers, (rr.name == name) = true ∧ rr.rtype = RRType.cname ∧
    nameOf rr.rdata = .ok target

theorem failure_empty {qname : Text} {qtype : RRType} {msg : Message} (failed : failure qname qtype = .ok msg) :
    msg.answers = [] ∧ msg.authority = [] ∧ msg.additional = [] ∧ msg.has flagAd = false := by
  rw [failure] at failed
  cases read : Name.fromText qname with
  | error e =>
      rw [read] at failed
      cases failed
  | ok name =>
      rw [read] at failed
      cases failed
      have unsaid : (((flagQr ||| flagRa) &&& ~~~rcodeMask ||| 2) &&& flagAd != 0) = false := by decide
      exact ⟨rfl, rfl, rfl, unsaid⟩

theorem Trusted.failed {name : Name} {qname : Text} {qtype : RRType} {msg : Message}
    (failed : failure qname qtype = .ok msg) : Trusted r heard name (msg, none) := by
  obtain ⟨answers, authority, additional, -⟩ := failure_empty failed
  exact ⟨by simp [answers], by simp [authority], by simp [additional], by simp [answers], by rintro _ ⟨⟩⟩

/-- Where a descent stands: at servers of the zone, with a probe between it and the name. -/
structure Standing (r : Recursive) (heard past : List Exchange) (name : Name) (w : Recursive.Walk) : Prop where
  serves : ∀ ip ∈ w.servers, Serves r.rootHints heard w.zone ip
  toward : name.isSubdomainOf w.probe = true
  below : w.probe.isSubdomainOf w.zone = true
  probed : w.probe = w.zone ∨ ∃ q msg, (q, .message msg) ∈ past ∧ Asks q w.probe ∧ q.zone = w.zone ∧
    msg.rcode = noerror ∧ w.probe.labels.length < name.labels.length
  widened : w.widened = true → w.qmin = false
  whole : r.qmin = true → w.qmin = false → ∃ q msg less, (q, .message msg) ∈ past ∧ Asks q less ∧
    w.zone.isSubdomainOf q.zone = true ∧ name.isSubdomainOf less = true ∧
      less.labels.length < name.labels.length ∧ msg.rcode ≠ noerror

/-- What a descent asks next is between the probe and the name, and no more than is discreet. -/
structure Standing.Next (r : Recursive) (past : List Exchange) (name : Name) (w : Recursive.Walk) (qn : Name) :
    Prop where
  under : qn.isSubdomainOf w.probe = true
  toward : name.isSubdomainOf qn = true
  discreet : r.qmin = true → Discreet past w.zone qn
  /-- Only a name that is cut short is another one. -/
  other : (qn == name) = false → w.qmin = true ∧ qn.labels.length < name.labels.length

theorem Standing.next {name qn : Name} {w : Recursive.Walk} (standing : Standing r heard past name w)
    (chosen : qn = if (w.qmin && decide (w.probe.labels.length + 1 < name.labels.length)) = true then
      Recursive.child name w.probe else name) : Standing.Next r past name w qn := by
  have above := Name.isSubdomainOf_iff.mp standing.toward
  have least : w.probe.labels.length ≤ name.labels.length := by simpa [Name.lower] using above.length_le
  -- one label more than the probe
  have one (longer : qn.labels.length = w.probe.labels.length + 1) (under : qn.isSubdomainOf w.probe = true) :
      Discreet past w.zone qn := by
    rcases standing.probed with same | ⟨q, msg, said, asks, zone, fine, -⟩
    · exact .inl (by rw [longer, same])
    · refine .inr ⟨q, msg, w.probe, said, asks, ?_, under, by omega, fun _ => longer⟩
      rw [zone]
      exact subdomain_refl _
  split at chosen
  · next minimized =>
      rw [Bool.and_eq_true, decide_eq_true_eq] at minimized
      have longer := length_child minimized.2
      rw [← chosen] at longer
      have toward : name.isSubdomainOf qn = true := chosen ▸ subdomain_drop name _
      have under := subdomain_of_length toward standing.toward ((Nat.le_succ _).trans longer.ge)
      exact ⟨under, toward, fun _ => one longer under, fun _ => ⟨minimized.1, by omega⟩⟩
  · next whole =>
      obtain rfl := chosen
      refine ⟨standing.toward, subdomain_refl _, fun on => ?_, fun other => ?_⟩
      · cases off : w.qmin with
        | false =>
            obtain ⟨q, msg, less, said, asks, zone, under, shorter, bad⟩ := standing.whole on off
            exact .inr ⟨q, msg, less, said, asks, zone, under, shorter, fun fine => absurd fine bad⟩
        | true =>
            rw [off, Bool.true_and, decide_eq_true_eq, not_lt] at whole
            rcases standing.probed with same | ⟨q, msg, said, asks, zone, fine, shorter⟩
            · exact .inl (by rw [← same]; exact whole)
            · exact one (by omega) standing.toward
      · rw [show (qn == qn) = true from BEq.rfl] at other
        cases other

/-- More that was heard, by the task and by the others, leaves a descent where it stands. -/
theorem Standing.mono {name : Name} {w : Recursive.Walk} (standing : Standing r heard past name w)
    (grown : heard ⊆ more) (longer : past <+: later) : Standing r more later name w := by
  refine ⟨fun ip held => (standing.serves ip held).mono grown, standing.toward, standing.below, ?_, standing.widened,
    fun on off => ?_⟩
  · rcases standing.probed with same | ⟨q, msg, said, rest⟩
    · exact .inl same
    · exact .inr ⟨q, msg, longer.subset said, rest⟩
  · obtain ⟨q, msg, less, said, rest⟩ := standing.whole on off
    exact ⟨q, msg, less, longer.subset said, rest⟩

/-- A chain from a name is one from each spelling of it. -/
theorem OnChain.from_congr {answers : List RR} {start other name : Name} (on : OnChain answers start name)
    (same : (other == start) = true) : OnChain answers other name := by
  induction on with
  | here first => exact .here (BEq.trans same first)
  | hop _ held cname names first ih => exact .hop ih held cname names first

theorem Reliable.mono {zone qn : Name} {msg : Message} (reliable : Reliable r heard past zone qn msg)
    (grown : heard ⊆ more) : Reliable r more past zone qn msg := by
  obtain ⟨q, raw, mine, said, zone, asks, serves, scrubbed⟩ := reliable
  exact ⟨q, raw, mine, grown said, zone, asks, serves.mono grown, scrubbed⟩

theorem Reliable.trusted {zone qn name : Name} {msg : Message} (reliable : Reliable r heard past zone qn msg)
    (same : (qn == name) = true) {target : Option Name} (leads : ∀ t ∈ target, ∃ rr ∈ msg.answers,
      (rr.name == name) = true ∧ rr.rtype = RRType.cname ∧ nameOf rr.rdata = .ok t) :
    Trusted r heard name (msg, target) := by
  obtain ⟨q, raw, -, said, rfl, -, serves, scrubbed⟩ := reliable
  have told {part : Message → List RR} {rr : RR} (there : rr ∈ part raw ∧ rr.name.isSubdomainOf q.zone = true) :
      Told r.rootHints heard part rr := ⟨q, raw, serves, said, there.1, there.2⟩
  exact ⟨fun rr held => told (scrubbed.answers rr held), fun rr held => told (scrubbed.authority rr held),
    fun rr held => told (scrubbed.additional rr held),
    fun rr held => (scrubbed.chained rr held).from_congr (BEq.symm same), leads⟩

/-- Where a cut is served: at the addresses that were found for it. -/
def Locates (r : Recursive) (D : ℚ) (addresses : Cut → Act (List Text)) : Prop :=
  ∀ heard past low cut, (∀ nm ∈ cut.names, Delegation r.rootHints heard cut.zone nm) →
    (∀ ip ∈ cut.flat, Serves r.rootHints heard cut.zone ip) →
      Runs r D 0 0 (addresses cut) heard past low fun heard _ ips => ∀ ip ∈ ips, Serves r.rootHints heard cut.zone ip

theorem runs_failure {name : Name} {qtype : RRType} : Runs r D 0 0
    (do return (← .ofExcept (failure name.toText qtype), none)) heard past low
      fun heard _ found => Trusted r heard name found := by
  refine Runs.bind .ofExcept ?_ le_rfl
  rintro heard₁ _ low₁ msg - - - ⟨rfl, failed⟩
  exact .pure (.failed failed)

/-- A referral of the zone's server, with its glue, is a cut that may be kept. -/
theorem runs_putCut {zone qn name : Name} {msg : Message} {qtype : RRType} {deleg : Referral}
    (reliable : Reliable r heard past zone qn msg) (leads : Leads msg zone name qtype deleg) :
    Runs r D 0 0 (.atomic (r.putCut deleg.zone deleg.names (glue msg deleg.names) deleg.ttl)) heard past low
      fun heard later cut => later = past ∧ cut.zone = deleg.zone ∧
        (∀ nm ∈ cut.names, Delegation r.rootHints heard cut.zone nm) ∧
          ∀ ip ∈ cut.flat, Serves r.rootHints heard cut.zone ip := by
  refine .atomic fun more s grown goes kept => ?_
  obtain ⟨q, raw, -, said, rfl, -, serves, scrubbed⟩ := reliable
  have asked := serves.mono grown
  have delegates : ∀ nm ∈ deleg.names, Delegates raw q.zone deleg.zone nm := by
    intro nm named
    obtain ⟨deeper, below, rr, held, rest⟩ := leads.names nm named
    exact ⟨deeper, below, rr, (scrubbed.authority rr held).1, rest⟩
  have delegated : ∀ nm ∈ deleg.names, Delegation r.rootHints more deleg.zone nm :=
    fun nm named => ⟨q, raw, asked, grown said, delegates nm named⟩
  refine (keeps_putCut deleg.ttl kept delegated fun nm named ips found ip held => ?_).imp ?_
  · obtain ⟨rr, there, owner, address⟩ := glue_spec found held
    obtain ⟨inside, bailiwick⟩ := scrubbed.additional rr there
    exact .glue asked (grown said) (delegates nm named) inside owner bailiwick address
  · rintro cut _ ⟨zone, names, flat⟩
    rw [zone, names]
    exact ⟨rfl, delegated, flat⟩

section

variable {zone qn name : Name} {msg : Message} {w : Recursive.Walk} (standing : Standing r heard past name w)
  (next : Standing.Next r past name w qn) (reliable : Reliable r heard later w.zone qn msg) (longer : past <+: later)

include standing next reliable longer

/-- What is known to exist is the next probe. -/
theorem Standing.probes (fine : msg.rcode = noerror) (other : (qn == name) = false) :
    Standing r heard later name { w with probe := qn } := by
  have here := standing.mono (List.Subset.refl heard) longer
  obtain ⟨q, raw, said, -, zone, asks, -, scrubbed⟩ := reliable
  refine ⟨here.serves, next.toward, subdomain_trans next.under here.below, ?_, here.widened, here.whole⟩
  exact .inr ⟨q, raw, said, asks, zone, scrubbed.rcode.symm.trans fine, (next.other other).2⟩

/-- After another rcode the whole name is asked. -/
theorem Standing.widens (bad : msg.rcode ≠ noerror) (other : (qn == name) = false) :
    Standing r heard later name { w with widened := true, qmin := false } := by
  have here := standing.mono (List.Subset.refl heard) longer
  obtain ⟨q, raw, said, -, zone, asks, -, scrubbed⟩ := reliable
  refine ⟨here.serves, here.toward, here.below, here.probed, fun _ => rfl, fun _ _ => ?_⟩
  refine ⟨q, raw, qn, said, asks, ?_, next.toward, (next.other other).2, fun fine => bad (scrubbed.rcode.trans fine)⟩
  rw [zone]
  exact subdomain_refl _

end

/-- A step of the descent asks for no more than is discreet and goes down to a zone toward the name. -/
theorem runs_descend {addresses : Cut → Act (List Text)} (locates : Locates r D addresses) {name : Name}
    {qtype : RRType} {steps : Nat} {w : Recursive.Walk} (standing : Standing r heard past name w) :
    Runs r D 0 0 (r.descend addresses name qtype steps w) heard past low
      fun heard _ found => Trusted r heard name found := by
  induction steps generalizing w heard past low with
  | zero => exact runs_failure
  | succ steps ih =>
      rw [Recursive.descend]
      split
      · exact runs_failure
      extract_lets minimized qn qt
      have next : Standing.Next r past name w qn := standing.next rfl
      clear_value qn qt
      have inside := subdomain_trans next.under standing.below
      refine Runs.bind (runs_ask standing.serves inside next.toward next.discreet) ?_ le_rfl
      rintro heard₁ past₁ low₁ (_ | msg) grown₁ longer₁ - reliable
      · exact runs_failure
      refine Runs.bind .ofExcept ?_ le_rfl
      rintro heard₂ _ low₂ (_ | deleg) grown₂ - - ⟨rfl, referred⟩
      all_goals
        replace reliable := (reliable msg rfl).mono grown₂
        replace standing := standing.mono (List.Subset.trans grown₁ grown₂) List.prefix_rfl
      · dsimp only
        split
        · next other =>
            split
            · next fine => exact ih (standing.probes next reliable longer₁ fine other)
            · next bad =>
                split
                · exact ih (standing.widens next reliable longer₁ bad other)
                · next twice =>
                    have on := (next.other other).1
                    rw [standing.widened (by simpa using twice)] at on
                    cases on
        · next same =>
            rw [Bool.not_eq_false] at same
            split
            · exact .pure (reliable.trusted same (by rintro _ ⟨⟩))
            · split
              · next rr found =>
                  refine Runs.bind .ofExcept ?_ le_rfl
                  rintro heard₃ _ low₃ target grown₃ - - ⟨rfl, names⟩
                  refine .pure ((reliable.mono grown₃).trusted same ?_)
                  rintro _ ⟨⟩
                  have cname := List.find?_some found
                  rw [Bool.and_eq_true] at cname
                  exact ⟨rr, List.mem_of_find?_eq_some found, cname.1, beq_iff_eq.mp cname.2, names⟩
              · exact .pure (reliable.trusted same (by rintro _ ⟨⟩))
      · refine Runs.bind (runs_putCut reliable (referral_spec referred)) ?_ le_rfl
        rintro heard₃ _ low₃ cut grown₃ - - ⟨rfl, zone, delegated, flat⟩
        refine Runs.bind (locates _ _ _ cut delegated flat) ?_ le_rfl
        rintro heard₄ past₄ low₄ servers grown₄ longer₄ - serves
        split
        · exact runs_failure
        have leads := referral_spec referred
        refine ih ⟨by rwa [zone] at serves, leads.toward, subdomain_refl _, .inl rfl, standing.widened, ?_⟩
        intro on off
        obtain ⟨q, msg, less, said, asks, above, rest⟩ := standing.whole on off
        exact ⟨q, msg, less, (longer₁.trans longer₄).subset said, asks, subdomain_trans leads.below above, rest⟩

/-- A name that is resolved is followed down from a cut around it. -/
def Finds (r : Recursive) (D : ℚ) (resolve : Name → RRType → Act Recursive.Found) : Prop :=
  ∀ heard past low name qtype, Runs r D 0 0 (resolve name qtype) heard past low
    fun heard _ found => Trusted r heard name found

theorem subdomain_parent (name : Name) : name.isSubdomainOf name.parent = true := subdomain_drop name 1

theorem runs_resolveName {addresses : Cut → Act (List Text)} (locates : Locates r D addresses) :
    Finds r D (r.resolveName addresses) := by
  intro heard past low name qtype
  -- where a descent begins there is nothing to be discreet about yet
  have begins {heard past : List Exchange} {zone : Name} {servers : List Text}
      (serves : ∀ ip ∈ servers, Serves r.rootHints heard zone ip) (toward : name.isSubdomainOf zone = true) :
      Standing r heard past name { zone, servers, probe := zone, qmin := r.qmin } :=
    ⟨serves, toward, subdomain_refl _, .inl rfl, by rintro ⟨⟩, fun on off => by rw [on] at off; cases off⟩
  rw [Recursive.resolveName]
  have above : name.isSubdomainOf (if qtype = RRType.ds ∧ name.isRoot = false then name.parent else name) = true := by
    split
    · exact subdomain_parent name
    · exact subdomain_refl name
  refine Runs.bind (.atomic fun _ _ _ _ kept => keeps_closest _ kept) ?_ le_rfl
  rintro heard₁ _ low₁ cut grown₁ - - ⟨rfl, found⟩
  cases cut with
  | none => exact runs_descend locates (begins (fun ip hint => .root hint) (subdomain_root name))
  | some cut =>
      obtain ⟨encloses, delegated, flat⟩ := found cut rfl
      refine Runs.bind (locates _ _ _ cut delegated flat) ?_ le_rfl
      rintro heard₂ past₂ low₂ servers - - - serves
      exact runs_descend locates (begins serves (subdomain_trans above encloses))

/-! ### The addresses of a cut -/

theorem runs_chasing (f : List Name → List Name) :
    Runs r D 0 0 (.modifyJob fun job => { job with chasing := f job.chasing }) heard past low
      fun _ later _ => later = past :=
  .modifyJob fun _ going => ⟨going.early, going.deadline, going.paid, going.since⟩

theorem Trusted.hosts {nm : Name} {found : Recursive.Found} (trusted : Trusted r heard nm found) {ip : Text}
    (held : ip ∈ Recursive.addressesIn nm found.1.answers) : Hosts r.rootHints heard nm ip := by
  obtain ⟨rr, there, given⟩ := List.mem_filterMap.mp held
  split at given
  · next address data =>
      split at given
      · next mine =>
          cases given
          exact ⟨rr, trusted.answers rr there, mine.2, data⟩
      · cases given
  · cases given

theorem runs_putAddrs {nm : Name} {ips : List Text} (ttl : Int) (hosts : ∀ ip ∈ ips, Hosts r.rootHints heard nm ip) :
    Runs r D 0 0 (.atomic (r.putAddrs nm ips ttl)) heard past low fun _ later _ => later = past ∧ True :=
  .atomic fun _ _ grown _ kept => keeps_putAddrs ttl kept fun ip held => (hosts ip held).mono grown

theorem runs_addressOf {resolve : Name → RRType → Act Recursive.Found} (finds : Finds r D resolve) (nm : Name) :
    Runs r D 0 0 (r.addressOf resolve nm) heard past low fun heard _ ips => ∀ ip ∈ ips, Hosts r.rootHints heard nm ip := by
  rw [Recursive.addressOf]
  refine Runs.bind (finds _ _ _ nm RRType.a) ?_ le_rfl
  rintro heard₁ past₁ low₁ ⟨msg, target⟩ - - - trusted
  have hosts : ∀ ip ∈ Recursive.addressesIn nm msg.answers, Hosts r.rootHints heard₁ nm ip :=
    fun ip held => trusted.hosts held
  dsimp only
  split
  · refine Runs.bind (runs_putAddrs _ hosts) ?_ le_rfl
    rintro heard₂ _ low₂ - grown₂ - - ⟨rfl, -⟩
    exact .pure fun ip held => (hosts ip held).mono grown₂
  · exact .pure hosts

theorem runs_chase {resolve : Name → RRType → Act Recursive.Found} (finds : Finds r D resolve) (names : List Name) :
    Runs r D 0 0 (r.chase resolve names) heard past low
      fun heard _ ips => ∀ ip ∈ ips, ∃ nm ∈ names, Hosts r.rootHints heard nm ip := by
  induction names generalizing heard past low with
  | nil => exact .pure fun ip none => absurd none List.not_mem_nil
  | cons nm names ih =>
      have rest {heard past : List Exchange} {low : Shared} : Runs r D 0 0 (r.chase resolve names) heard past low
          fun heard _ ips => ∀ ip ∈ ips, ∃ nm' ∈ nm :: names, Hosts r.rootHints heard nm' ip := by
        refine ih.imp fun more later ips _ _ all ip held => ?_
        obtain ⟨nm', named, hosts⟩ := all ip held
        exact ⟨nm', List.mem_cons_of_mem _ named, hosts⟩
      rw [Recursive.chase]
      refine Runs.bind .job ?_ le_rfl
      rintro heard₁ _ low₁ job grown₁ - - ⟨rfl, -⟩
      split
      · exact rest
      refine Runs.bind runs_now ?_ le_rfl
      rintro heard₂ _ low₂ now grown₂ - - ⟨rfl, -⟩
      split
      · exact rest
      refine Runs.bind (runs_chasing fun chasing => chasing ++ [nm]) ?_ le_rfl
      rintro heard₃ _ low₃ - grown₃ - - rfl
      refine Runs.bind (runs_addressOf finds nm).attempt ?_ le_rfl
      rintro heard₄ past₄ low₄ found grown₄ longer₄ - hosts
      refine Runs.bind (runs_chasing fun chasing => chasing.filter fun other => !(other == nm)) ?_ le_rfl
      rintro heard₅ _ low₅ - grown₅ - - rfl
      split
      · exact .pure fun other held => ⟨nm, List.mem_cons_self, (hosts _ rfl other held).mono grown₅⟩
      · exact rest

theorem keeps_allAddrs (names : List Name) {s : Shared} (kept : Kept r heard s) :
    Keeps (Kept r heard) (names.flatMapM r.addrsFor) s fun ips _ =>
      ∀ ip ∈ ips, ∃ nm ∈ names, Hosts r.rootHints heard nm ip := by
  induction names generalizing s with
  | nil => exact keeps_pure kept fun ip none => absurd none List.not_mem_nil
  | cons nm names ih =>
      rw [List.flatMapM_cons]
      refine Keeps.bind (keeps_addrsFor nm kept) fun mine s₁ _ kept₁ hosts => ?_
      refine Keeps.bind (ih kept₁) fun others s₂ _ kept₂ rest => keeps_pure kept₂ fun ip held => ?_
      rcases List.mem_append.mp held with held | held
      · exact ⟨nm, List.mem_cons_self, hosts ip held⟩
      · obtain ⟨nm', named, hosts⟩ := rest ip held
        exact ⟨nm', List.mem_cons_of_mem _ named, hosts⟩

theorem runs_known {cut : Cut} {finds : Act (List Text)}
    (delegated : ∀ nm ∈ cut.names, Delegation r.rootHints heard cut.zone nm)
    (flat : ∀ ip ∈ cut.flat, Serves r.rootHints heard cut.zone ip)
    (runs : ∀ more low, heard ⊆ more → Runs r D 0 0 finds more past low fun heard _ ips =>
      ∀ ip ∈ ips, ∃ nm ∈ cut.names, Hosts r.rootHints heard nm ip) :
    Runs r D 0 0 (r.known cut finds) heard past low fun heard _ ips =>
      ∀ ip ∈ ips, Serves r.rootHints heard cut.zone ip := by
  have found {more : List Exchange} (grown : heard ⊆ more) {ip : Text}
      (held : ∃ nm ∈ cut.names, Hosts r.rootHints more nm ip) : Serves r.rootHints more cut.zone ip := by
    obtain ⟨nm, named, hosts⟩ := held
    exact ((delegated nm named).mono grown).serves hosts
  rw [Recursive.known]
  split
  · exact .pure flat
  refine Runs.bind (.atomic fun _ _ _ _ kept => keeps_allAddrs cut.names kept) ?_ le_rfl
  rintro heard₁ _ low₁ known grown₁ - - ⟨rfl, hosts⟩
  split
  · exact .pure fun ip held => found grown₁ (hosts ip held)
  split
  · next root =>
      rw [Name.isRoot, beq_iff_eq, List.length_eq_zero_iff] at root
      rw [show cut.zone = Name.root from congrArg Name.mk root]
      exact .pure fun ip hint => .root hint
  · exact (runs heard₁ low₁ grown₁).imp fun _ _ _ grown₂ _ all ip held =>
      found (List.Subset.trans grown₁ grown₂) (all ip held)

/-- By induction on how many nameservers may still be resolved one below the other. -/
theorem runs_addresses (depth : Nat) : Locates r D (r.addresses depth) := by
  induction depth with
  | zero =>
      exact fun heard past low cut delegated flat =>
        runs_known delegated flat fun _ _ _ => .pure fun ip none => absurd none List.not_mem_nil
  | succ depth ih =>
      refine fun heard past low cut delegated flat => runs_known delegated flat fun more low _ => ?_
      refine (runs_chase (runs_resolveName ih) (cut.names.take 2)).imp fun heard later ips _ _ all ip held => ?_
      obtain ⟨nm, named, hosts⟩ := all ip held
      exact ⟨nm, List.mem_of_mem_take named, hosts⟩

theorem runs_lookup : Finds r D r.lookup := runs_resolveName (runs_addresses r.maxNsDepth)

end

end Trench.Resolver
