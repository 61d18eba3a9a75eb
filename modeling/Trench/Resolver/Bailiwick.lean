import Mathlib
import Trench.Resolver.Recursive

set_option autoImplicit false

/- What a reply is taken for: records of the zone that was asked, on the chain from the question, and
delegations that lead down and toward the name. -/
namespace Trench.Resolver

open Wire

/-! ### Names -/

theorem subdomain_refl (name : Name) : name.isSubdomainOf name = true :=
  Name.isSubdomainOf_iff.mpr (List.suffix_refl _)

theorem subdomain_root (name : Name) : name.isSubdomainOf Name.root = true :=
  Name.isSubdomainOf_iff.mpr (List.nil_suffix)

theorem subdomain_trans {a b c : Name} (first : a.isSubdomainOf b = true) (second : b.isSubdomainOf c = true) :
    a.isSubdomainOf c = true :=
  Name.isSubdomainOf_iff.mpr ((Name.isSubdomainOf_iff.mp second).trans (Name.isSubdomainOf_iff.mp first))

theorem subdomain_drop (name : Name) (n : Nat) : name.isSubdomainOf ⟨name.labels.drop n⟩ = true := by
  rw [Name.isSubdomainOf_iff, Name.lower, Name.lower, List.map_drop]
  exact List.drop_suffix n _

/-- Of two names above a third, the shorter is above the longer. -/
theorem subdomain_of_length {name a b : Name} (first : name.isSubdomainOf a = true)
    (second : name.isSubdomainOf b = true) (longer : b.labels.length ≤ a.labels.length) :
    a.isSubdomainOf b = true := by
  rw [Name.isSubdomainOf_iff] at first second ⊢
  exact List.suffix_of_suffix_length_le second first (by simpa [Name.lower] using longer)

theorem length_child {name probe : Name} (below : probe.labels.length + 1 < name.labels.length) :
    (Recursive.child name probe).labels.length = probe.labels.length + 1 := by
  rw [Recursive.child, List.length_drop]
  omega

theorem within_iff {names : List Name} {name : Name} : within names name = true ↔ ∃ n ∈ names, (n == name) = true :=
  List.any_eq_true

theorem mem_fromKeys {α : Type} [BEq α] {xs : List α} {x : α} (held : x ∈ fromKeys xs) : x ∈ xs := by
  have all : ∀ y ∈ fromKeys xs, y ∈ xs := by
    refine List.foldlRecOn (motive := fun seen => ∀ y ∈ seen, y ∈ xs) xs _
      (fun y none => absurd none List.not_mem_nil) fun seen kept y there => ?_
    split
    · exact kept
    · exact List.forall_mem_append.mpr ⟨kept, List.forall_mem_singleton.mpr there⟩
  exact all x held

/-! ### The answers -/

/-- The names of the CNAME chains from a start in the records. -/
inductive OnChain (answers : List RR) (start : Name) : Name → Prop
  | here {name : Name} (same : (start == name) = true) : OnChain answers start name
  | hop {rr : RR} {target name : Name} (owned : OnChain answers start rr.name) (held : rr ∈ answers)
      (cname : rr.rtype = RRType.cname) (names : nameOf rr.rdata = .ok target) (same : (target == name) = true) :
      OnChain answers start name

section

variable {answers more rrs : List RR} {start name other : Name} {chain chain' : List Name}

theorem OnChain.congr (on : OnChain answers start name) (same : (name == other) = true) :
    OnChain answers start other := by
  cases on with
  | here first => exact .here (BEq.trans first same)
  | hop owned held cname names first => exact .hop owned held cname names (BEq.trans first same)

theorem OnChain.mono (on : OnChain answers start name) (kept : answers ⊆ more) : OnChain more start name := by
  induction on with
  | here same => exact .here same
  | hop _ held cname names same ih => exact .hop ih (kept held) cname names same

/-- A chain that begins on a chain goes on with it. -/
theorem OnChain.trans (first : OnChain answers start other) (second : OnChain answers other name) :
    OnChain answers start name := by
  induction second with
  | here same => exact first.congr same
  | hop _ held cname names same ih => exact .hop ih held cname names same

/-- One pass adds names on the chain only, of records that are kept in the end. -/
theorem chainPass_spec (read : chainPass rrs chain = .ok chain') : chain ⊆ chain' ∧
    ∀ (start : Name) (kept : List RR), (∀ rr ∈ rrs, within chain' rr.name = true → rr ∈ kept) →
      (∀ n ∈ chain, OnChain kept start n) → ∀ n ∈ chain', OnChain kept start n := by
  induction rrs generalizing chain with
  | nil =>
      cases read
      exact ⟨List.Subset.refl _, fun _ _ _ all => all⟩
  | cons rr rrs ih =>
      rw [chainPass] at read
      split at read
      · next cname =>
          cases names : nameOf rr.rdata with
          | error fault =>
              rw [names] at read
              cases read
          | ok target =>
              rw [names] at read
              change chainPass rrs (if within chain target = true then chain else chain ++ [target]) =
                .ok chain' at read
              obtain ⟨grown, rest⟩ := ih read
              have wider : chain ⊆ if within chain target = true then chain else chain ++ [target] := by
                split
                · exact List.Subset.refl _
                · exact List.subset_append_left _ _
              refine ⟨List.Subset.trans wider grown, fun start kept keeps all => ?_⟩
              obtain ⟨mine, others⟩ := List.forall_mem_cons.mp keeps
              refine rest start kept others ?_
              split
              · exact all
              · refine List.forall_mem_append.mpr ⟨all, List.forall_mem_singleton.mpr ?_⟩
                obtain ⟨n, held, same⟩ := within_iff.mp cname.2
                have present := mine (within_iff.mpr ⟨n, grown (wider held), same⟩)
                exact .hop ((all n held).congr same) present cname.1 names BEq.rfl
      · obtain ⟨grown, rest⟩ := ih read
        exact ⟨grown, fun start kept keeps => rest start kept fun rr held => keeps rr (List.mem_cons_of_mem _ held)⟩

theorem chainOf_spec {passes : Nat} (read : chainOf answers passes chain = .ok chain') : chain ⊆ chain' ∧
    ∀ (start : Name) (kept : List RR), (∀ rr ∈ answers, within chain' rr.name = true → rr ∈ kept) →
      (∀ n ∈ chain, OnChain kept start n) → ∀ n ∈ chain', OnChain kept start n := by
  induction passes generalizing chain with
  | zero =>
      cases read
      exact ⟨List.Subset.refl _, fun _ _ _ all => all⟩
  | succ passes ih =>
      rw [chainOf] at read
      cases pass : chainPass answers chain with
      | error fault =>
          rw [pass] at read
          cases read
      | ok grown =>
          rw [pass] at read
          change (if grown.length = chain.length then _ else chainOf answers passes grown) = .ok chain' at read
          obtain ⟨first, adds⟩ := chainPass_spec pass
          split at read
          · cases read
            exact ⟨first, adds⟩
          · obtain ⟨second, rest⟩ := ih read
            refine ⟨List.Subset.trans first second, fun start kept keeps all =>
              rest start kept keeps (adds start kept ?_ all)⟩
            intro rr held inside
            obtain ⟨n, there, same⟩ := within_iff.mp inside
            exact keeps rr held (within_iff.mpr ⟨n, second there, same⟩)

end

/-- What is left of a reply. -/
structure Scrubbed (msg kept : Message) (zone qn : Name) : Prop where
  flags : kept.flags = msg.flags
  edns : kept.edns = msg.edns
  answers : ∀ rr ∈ kept.answers, rr ∈ msg.answers ∧ rr.name.isSubdomainOf zone = true
  chained : ∀ rr ∈ kept.answers, OnChain kept.answers qn rr.name
  authority : ∀ rr ∈ kept.authority, rr ∈ msg.authority ∧ rr.name.isSubdomainOf zone = true
  additional : ∀ rr ∈ kept.additional, rr ∈ msg.additional ∧ rr.name.isSubdomainOf zone = true

theorem scrub_spec {msg kept : Message} {zone qn : Name} (read : scrub msg zone qn = .ok kept) :
    Scrubbed msg kept zone qn := by
  rw [scrub] at read
  cases chained : chainOf (msg.answers.filter fun rr => rr.name.isSubdomainOf zone)
    ((msg.answers.filter fun rr => rr.name.isSubdomainOf zone).length + 1) [qn] with
  | error fault =>
      simp only [chained, bind, Except.bind] at read
      cases read
  | ok chain =>
      simp only [chained, bind, Except.bind] at read
      cases read
      obtain ⟨-, adds⟩ := chainOf_spec chained
      refine ⟨rfl, rfl, fun rr held => ?_, fun rr held => ?_, fun rr held => ?_, fun rr held => ?_⟩
      · exact List.mem_filter.mp (List.mem_filter.mp held).1
      · obtain ⟨n, there, same⟩ := within_iff.mp (List.mem_filter.mp held).2
        refine (adds qn _ (fun rr held inside => List.mem_filter.mpr ⟨held, inside⟩) ?_ n there).congr same
        exact List.forall_mem_singleton.mpr (.here BEq.rfl)
      · exact List.mem_filter.mp held
      · exact List.mem_filter.mp held

theorem Scrubbed.rcode {msg kept : Message} {zone qn : Name} (scrubbed : Scrubbed msg kept zone qn) :
    kept.rcode = msg.rcode := by
  rw [Message.rcode, Message.rcode, scrubbed.flags, scrubbed.edns]

/-! ### Delegations -/

/-- The deepest of the owners that are below the zone and above the name. -/
theorem delegated_spec {zone name dz : Name} {ns : List RR} (found : delegated zone name ns = some dz) :
    (∃ rr ∈ ns, rr.name = dz) ∧ zone.labels.length < dz.labels.length ∧ dz.isSubdomainOf zone = true ∧
      name.isSubdomainOf dz = true := by
  let good (dz : Option Name) : Prop := ∀ best ∈ dz, (∃ rr ∈ ns, rr.name = best) ∧
    zone.labels.length < best.labels.length ∧ best.isSubdomainOf zone = true ∧ name.isSubdomainOf best = true
  have all : good (delegated zone name ns) := by
    refine List.foldlRecOn (motive := good) ns _ (by rintro _ ⟨⟩) fun dz fine rr here => ?_
    split
    · exact fine
    · next below =>
        split
        · exact fine
        · next above =>
            have new : good (some rr.name) := by
              rintro _ ⟨⟩
              simp only [not_or, not_le, Bool.not_eq_false] at below above
              exact ⟨⟨rr, here, rfl⟩, below.1, below.2, above⟩
            cases dz with
            | none => exact new
            | some best =>
                dsimp only
                split
                · exact new
                · exact fine
  exact all dz found

/-- The reply of a zone's server delegates a zone below it to the nameserver. -/
def Delegates (msg : Message) (zone dz nm : Name) : Prop :=
  zone.labels.length < dz.labels.length ∧ dz.isSubdomainOf zone = true ∧
    ∃ rr ∈ msg.authority, rr.rtype = RRType.ns ∧ (rr.name == dz) = true ∧ nameOf rr.rdata = .ok nm

/-- A referral that is followed. -/
structure Leads (msg : Message) (zone name : Name) (qtype : RRType) (deleg : Referral) : Prop where
  empty : msg.answers = []
  deeper : zone.labels.length < deleg.zone.labels.length
  below : deleg.zone.isSubdomainOf zone = true
  toward : name.isSubdomainOf deleg.zone = true
  parent : qtype = RRType.ds → (deleg.zone == name) = false
  names : ∀ nm ∈ deleg.names, Delegates msg zone deleg.zone nm

theorem mem_of_mapM {α β ε : Type} {f : α → Except ε β} {xs : List α} {ys : List β} (read : xs.mapM f = .ok ys)
    {y : β} (held : y ∈ ys) : ∃ x ∈ xs, f x = .ok y := by
  induction xs generalizing ys with
  | nil =>
      cases read
      cases held
  | cons x xs ih =>
      rw [List.mapM_cons] at read
      cases first : f x with
      | error e =>
          simp only [first, bind, Except.bind] at read
          cases read
      | ok z =>
          cases rest : xs.mapM f with
          | error e =>
              simp only [first, rest, bind, Except.bind] at read
              cases read
          | ok zs =>
              simp only [first, rest, bind, Except.bind] at read
              cases read
              rcases List.mem_cons.mp held with rfl | held
              · exact ⟨x, List.mem_cons_self, first⟩
              · obtain ⟨x', there, same⟩ := ih rest held
                exact ⟨x', List.mem_cons_of_mem _ there, same⟩

theorem referral_spec {msg : Message} {zone name : Name} {qtype : RRType} {deleg : Referral}
    (read : referral msg zone name qtype = .ok (some deleg)) : Leads msg zone name qtype deleg := by
  rw [referral] at read
  split at read
  · cases read
  · next empty =>
      dsimp only at read
      cases found : delegated zone name (msg.authority.filter fun rr => rr.rtype == RRType.ns) with
      | none =>
          rw [found] at read
          cases read
      | some dz =>
          rw [found] at read
          dsimp only at read
          split at read
          · cases read
          · next parent =>
              obtain ⟨-, deeper, below, toward⟩ := delegated_spec found
              cases names : (List.filter (fun rr => rr.name == dz)
                  (msg.authority.filter fun rr => rr.rtype == RRType.ns)).mapM fun rr => nameOf rr.rdata with
              | error fault =>
                  simp only [names, bind, Except.bind] at read
                  cases read
              | ok nms =>
                  simp only [names, bind, Except.bind] at read
                  cases read
                  refine ⟨not_not.mp empty, deeper, below, toward, fun ds => ?_, fun nm held => ⟨deeper, below, ?_⟩⟩
                  · by_contra same
                    exact parent ⟨ds, by simpa using same⟩
                  · obtain ⟨rr, inside, names⟩ := mem_of_mapM names (mem_fromKeys held)
                    obtain ⟨ns, same⟩ := List.mem_filter.mp inside
                    obtain ⟨there, type⟩ := List.mem_filter.mp ns
                    exact ⟨rr, there, beq_iff_eq.mp type, same, names⟩

/-- Each address that is kept is that of an address record of the name. -/
theorem glue_spec {msg : Message} {names : List Name} {nm : Name} {ips : List Text} {ip : Text}
    (found : (glue msg names).get? nm = some ips) (held : ip ∈ ips) :
    ∃ rr ∈ msg.additional, (rr.name == nm) = true ∧ address? rr.rdata = some ip := by
  let good (d : Dict Name (List Text)) : Prop := ∀ nm ips, d.get? nm = some ips → ∀ ip ∈ ips,
    ∃ rr ∈ msg.additional, (rr.name == nm) = true ∧ address? rr.rdata = some ip
  have all : good (glue msg names) := by
    refine List.foldlRecOn (motive := good) msg.additional _ (by rintro nm ips ⟨⟩) fun d fine rr here => ?_
    cases given : address? rr.rdata with
    | none => exact fine
    | some address =>
        dsimp only
        split
        · intro nm ips found ip held
          rw [Dict.get?_set] at found
          split at found
          · next same =>
              cases found
              rcases List.mem_append.mp held with held | held
              · cases old : d.get? rr.name with
                | none =>
                    rw [old] at held
                    cases held
                | some ips =>
                    rw [old] at held
                    obtain ⟨rr', there, name, address⟩ := fine rr.name ips old ip held
                    exact ⟨rr', there, BEq.trans name same, address⟩
              · rw [List.mem_singleton.mp held]
                exact ⟨rr, here, same, given⟩
          · exact fine nm ips found ip held
        · exact fine
  exact all nm ips found ip held

end Trench.Resolver
