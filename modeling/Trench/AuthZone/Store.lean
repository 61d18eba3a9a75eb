import Mathlib
import Trench.Wire.Reply
import Trench.AuthZone.TransferAgree

set_option autoImplicit false

/- The store of authoritative zones, and what a validator can make of its referrals. -/
namespace Trench.AuthZone

open Wire
open Dnssec (NsecItem Nsec3Item Nsec3Set nsecDsDenial nsec3DsDenial)

/-- The zones held, in the order they were added. -/
abbrev ZoneStore := List Zone

namespace ZoneStore

/-- A zone with an apex SOA owns its subtree, a bare local record only its own name. -/
def owns (z : Zone) (qname : Name) : Bool :=
  if z.soa.isSome then qname.isSubdomainOf z.origin else qname == z.origin

/-- The loop: a later zone is taken only where its origin is longer. -/
def authoritativeFrom (qname : Name) : Option Zone → List Zone → Option Zone
  | best, [] => best
  | best, z :: rest =>
      let shorter := best.any fun b => z.origin.labels.length ≤ b.origin.labels.length
      authoritativeFrom qname (if !shorter && owns z qname then some z else best) rest

def authoritativeFor (store : ZoneStore) (qname : Name) : Option Zone :=
  authoritativeFrom qname none store

section

variable (sha1 : Octets → Octets)

def resolve (store : ZoneStore) (query : Message) : Except LookupError (Option Message) :=
  match query.question with
  | none => .ok none
  | some q =>
      match store.authoritativeFor q.name with
      | none => .ok none
      | some zone => do
          let ans ← zone.lookup sha1 q.name q.rtype query.wantsDnssec
          let resp := (query.reply ans.rcode).setFlag flagAa ans.aa
          return some { resp with
            answers := ans.answers
            authority := ans.authority
            additional := ans.additional }

end

end ZoneStore

/-! ### What a validator reads -/

/-- The NSEC records of a section, by their class. -/
def nsecItems (rrs : List RR) : List NsecItem :=
  rrs.filterMap fun rr =>
    match rr.rdata with
    | .nsec data => if rr.rtype = RRType.nsec then some (rr.name, data) else none
    | _ => none

def nsec3Items (rrs : List RR) : List Nsec3Item :=
  rrs.filterMap fun rr =>
    match rr.rdata with
    | .nsec3 data => if rr.rtype = RRType.nsec3 then some (rr.name, data) else none
    | _ => none

/-- The DS set of the cut is among the records, with a signature over it. -/
structure ShowsDs (parent : Zone) (cut : Name) (rrs : List RR) : Prop where
  set : ∀ rd ∈ parent.slot cut RRType.ds, ∃ rr ∈ rrs, (rr.name == cut) = true ∧
    rr.rtype = RRType.ds ∧ rr.rdata = rd
  signature : ∃ rr ∈ rrs, ∃ sig, (rr.name == cut) = true ∧ rr.rtype = RRType.rrsig ∧
    rr.rdata = .rrsig sig ∧ sig.typeCovered = RRType.ds

section

variable (sha1 : Octets → Octets)

/-- The records prove, to the validator, a delegation without DS. -/
def DeniesDs (parent : Zone) (cut : Name) (rrs : List RR) : Prop :=
  nsecDsDenial cut (nsecItems rrs) = some .insecure ∨
    (Nsec3Set.make (nsec3Items rrs) parent.origin).usable = true ∧
      nsec3DsDenial sha1 cut (Nsec3Set.make (nsec3Items rrs) parent.origin) = some .insecure

/-- The records settle whether the cut has a DS. -/
def SettlesDs (parent : Zone) (cut : Name) (shown denied : List RR) : Prop :=
  if parent.slot cut RRType.ds ≠ [] then ShowsDs parent cut shown else DeniesDs sha1 parent cut denied

/-- A response that sends the client on to the cut. -/
def RefersTo (cut : Name) (response : Message) : Prop :=
  response.has flagAa = false ∧
    ∃ rr ∈ response.authority, (rr.name == cut) = true ∧ rr.rtype = RRType.ns

/-- Whoever asks for the DS of the cut is answered from the parent, and whoever is sent
on to the cut gets what is needed to tell whether it is signed. -/
structure ProvableCut (store : ZoneStore) (parent : Zone) (cut : Name) : Prop where
  asked : ∀ query q, query.question = some q → (q.name == cut) = true → q.rtype = RRType.ds →
    query.wantsDnssec = true → store.authoritativeFor q.name = some parent ∧
      ∃ response, store.resolve sha1 query = .ok (some response) ∧
        SettlesDs sha1 parent cut response.answers response.authority
  referred : ∀ query q response, query.question = some q → q.name.isSubdomainOf cut = true →
    query.wantsDnssec = true → store.resolve sha1 query = .ok (some response) →
      RefersTo cut response → SettlesDs sha1 parent cut response.authority response.authority

/-! ### What a referral carries -/

/-- Server names and delegation signers alone settle nothing. -/
theorem not_settlesDs {parent : Zone} {cut : Name} {rrs : List RR}
    (only : ∀ rr ∈ rrs, rr.rtype = RRType.ns ∨ rr.rtype = RRType.ds) :
    ¬ SettlesDs sha1 parent cut rrs rrs := by
  have apart (rtype : RRType) (differ : rtype ≠ RRType.ns ∧ rtype ≠ RRType.ds) :
      ∀ rr ∈ rrs, rr.rtype ≠ rtype := by
    intro rr held same
    rcases only rr held with isNs | isDs
    · exact differ.1 (same.symm.trans isNs)
    · exact differ.2 (same.symm.trans isDs)
  have noNsec : nsecItems rrs = [] := by
    rw [nsecItems, List.filterMap_eq_nil_iff]
    intro rr held
    split
    · rw [if_neg (apart RRType.nsec (by decide) rr held)]
    · rfl
  have noNsec3 : nsec3Items rrs = [] := by
    rw [nsec3Items, List.filterMap_eq_nil_iff]
    intro rr held
    split
    · rw [if_neg (apart RRType.nsec3 (by decide) rr held)]
    · rfl
  rw [SettlesDs]
  split
  · intro shows
    obtain ⟨rr, held, sig, _, isSig, _⟩ := shows.signature
    exact apart RRType.rrsig (by decide) rr held isSig
  · intro denies
    rw [DeniesDs, noNsec, noNsec3] at denies
    rcases denies with plain | ⟨usable, _⟩
    · cases plain
    · cases usable

theorem referral_types {z : Zone} {n : Name} {ans : Answer} (referred : z.referral n = .ok ans) :
    ∀ rr ∈ ans.authority, rr.rtype = RRType.ns ∨ rr.rtype = RRType.ds := by
  rw [Zone.referral] at referred
  obtain ⟨extra, _, rest⟩ := bind_eq_ok.mp referred
  cases rest
  intro rr held
  rcases List.mem_append.mp held with inside | inside
  · obtain ⟨rd, _, rfl⟩ := List.mem_map.mp inside
    exact .inl rfl
  · obtain ⟨rd, _, rfl⟩ := List.mem_map.mp inside
    exact .inr rfl

/-! ### Where referrals come from -/

theorem withExpansion_aa {z : Zone} {dnssecOk : Bool} {owner : Name} {synth encloser : Option Name}
    {out ans : Answer} (found : z.withExpansion sha1 dnssecOk owner synth encloser out = .ok ans) :
    ans.aa = out.aa := by
  cases synth with
  | none =>
      cases found
      rfl
  | some qname =>
      change (z.proof sha1 dnssecOk qname (encloser.getD owner.parent) .wildcard >>= _) = _ at found
      obtain ⟨denied, _, rest⟩ := bind_eq_ok.mp found
      cases rest
      rfl

theorem nodata_aa {z : Zone} {dnssecOk : Bool} {qname : Name} {wildcard encloser : Option Name}
    {ans : Answer} (found : z.nodata sha1 dnssecOk qname wildcard encloser = .ok ans) :
    ans.aa = true := by
  unfold Zone.nodata at found
  cases wildcard with
  | none =>
      obtain ⟨denied, _, rest⟩ := bind_eq_ok.mp found
      cases rest
      rfl
  | some w =>
      obtain ⟨denied, _, rest⟩ := bind_eq_ok.mp found
      cases rest
      rfl

theorem answerAt_aa {z : Zone} {owner : Name} {node : Node} {qtype : RRType} {dnssecOk : Bool}
    {synth encloser : Option Name} {ans : Answer}
    (found : z.answerAt sha1 owner node qtype dnssecOk synth encloser = .ok ans) :
    ans.aa = true := by
  rw [Zone.answerAt] at found
  split at found
  · obtain ⟨chased, _, rest⟩ := bind_eq_ok.mp found
    exact withExpansion_aa sha1 rest
  · split at found
    · exact withExpansion_aa sha1 found
    · exact nodata_aa sha1 found

/-- An answer without authority is a referral. -/
theorem lookup_referral {z : Zone} {qname : Name} {qtype : RRType} {dnssecOk : Bool} {ans : Answer}
    (found : z.lookup sha1 qname qtype dnssecOk = .ok ans) (away : ans.aa = false) :
    ∃ n, z.referral n = .ok ans := by
  have here {a : Answer} (isTrue : a.aa = true) (same : a = ans) : ∃ n, z.referral n = .ok ans := by
    rw [← same, isTrue] at away
    cases away
  rw [Zone.lookup] at found
  obtain ⟨cut, delegated, rest⟩ := bind_eq_ok.mp found
  cases cut with
  | some referred =>
      cases rest
      rw [Zone.delegation] at delegated
      split at delegated
      · cases delegated
      · next n _ =>
          obtain ⟨given, known, same⟩ := bind_eq_ok.mp delegated
          cases same
          exact ⟨n, known⟩
  | none =>
      dsimp only at rest
      split at rest
      · exact here (answerAt_aa sha1 rest) rfl
      · split at rest
        · exact here (nodata_aa sha1 rest) rfl
        · split at rest
          · exact here (answerAt_aa sha1 rest) rfl
          · rw [Zone.nxdomain] at rest
            obtain ⟨denied, _, last⟩ := bind_eq_ok.mp rest
            cases last
            exact here rfl rfl

/-- What the store sends on is what one of its zones gives as a referral. -/
theorem resolve_referral {store : ZoneStore} {query response : Message} {q : Question}
    (asked : query.question = some q) (resolved : store.resolve sha1 query = .ok (some response))
    (away : response.has flagAa = false) :
    ∃ z ans n, store.authoritativeFor q.name = some z ∧ z.referral n = .ok ans ∧
      response.authority = ans.authority := by
  cases owner : store.authoritativeFor q.name with
  | none =>
      rw [ZoneStore.resolve, asked] at resolved
      simp only [owner] at resolved
      cases resolved
  | some z =>
      rw [ZoneStore.resolve, asked] at resolved
      simp only [owner] at resolved
      obtain ⟨ans, found, rest⟩ := bind_eq_ok.mp resolved
      have same := Option.some.inj (Except.ok.inj rest)
      have flag : ans.aa = false := by
        rw [← away, ← same]
        exact (Message.has_setFlag _ ans.aa (by decide)).symm
      obtain ⟨n, known⟩ := lookup_referral sha1 found flag
      refine ⟨z, ans, n, rfl, known, ?_⟩
      rw [← same]

/-- A delegation sends on whoever asks for addresses at it. -/
theorem delegation_refers {z : Zone} (formed : z.Formed) {cut : Name} (isCut : z.isCut cut = true)
    (below : z.origin.labels.length < cut.labels.length) :
    ∃ ans, z.lookup sha1 cut RRType.a true = .ok ans ∧ ans.aa = false ∧
      ∃ rr ∈ ans.authority, rr.name = cut ∧ rr.rtype = RRType.ns := by
  obtain ⟨ans, first, rest, found, split, owner⟩ := formed.referral isCut
  obtain ⟨rd, others, servers⟩ := List.exists_cons_of_ne_nil (formed.servers isCut)
  have shown : ans.aa = false ∧ ∃ rr ∈ ans.authority, rr.name = cut ∧ rr.rtype = RRType.ns := by
    rw [Zone.referral] at found
    obtain ⟨extra, _, last⟩ := bind_eq_ok.mp found
    cases last
    refine ⟨rfl, _, List.mem_append_left _ (List.mem_map.mpr ⟨rd, ?_, rfl⟩), rfl, rfl⟩
    rw [servers]
    exact List.mem_cons_self
  have reached : z.cutFrom cut RRType.a cut.labels = some cut := by
    obtain ⟨labels⟩ := cut
    cases labels with
    | nil => exact absurd below (Nat.not_lt_zero _)
    | cons label above =>
        have other : ¬ (RRType.a = RRType.ds ∧
            ((⟨label :: above⟩ : Name) == ⟨label :: above⟩) = true) := by
          rintro ⟨same, -⟩
          exact absurd same (by decide)
        rw [Zone.cutFrom, if_pos below, if_neg other, if_pos isCut]
  have delegated : z.delegation cut RRType.a = .ok (some ans) := by
    rw [Zone.delegation, reached]
    change (z.referral cut >>= fun referred => .ok (some referred)) = _
    rw [found]
    rfl
  refine ⟨ans, ?_, shown⟩
  rw [Zone.lookup, delegated]
  rfl

/-- The question for the addresses at a name, signatures wanted. -/
def addressQuery (name : Name) : Message :=
  { questions := [⟨name, RRType.a, RRClass.in⟩], edns := some { flags := doBit } }

end

/-! ### A delegation without DS -/

def childName : Name := under [0x63]

def delegatingZone : Zone := soaZone.add childName RRType.ns (.ns (under [0x6E, 0x73]))

theorem delegatingZone_bare : delegatingZone.Bare := by
  have suits : Suits RRType.ns (.ns (under [0x6E, 0x73])) := by decide
  refine ⟨soaZone_bare.formed.add suits, ?_, rfl, rfl⟩
  decide +kernel

/-- Signed with plain denials. -/
def signedDelegating : Zone := plainCrypto.signedOr delegatingZone 13 1700000000 false [] 0

theorem signedDelegating_run : ∃ result, plainCrypto.signZone delegatingZone 13 1700000000 false [] 0
    none = .ok (signedDelegating, result) := Crypto.signedOr_run (by decide +kernel)

theorem signedDelegating_cut : signedDelegating.isCut childName = true := by decide +kernel

theorem signedDelegating_below :
    signedDelegating.origin.labels.length < childName.labels.length := by decide +kernel

end Trench.AuthZone
