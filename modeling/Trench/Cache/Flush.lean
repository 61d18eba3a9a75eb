import Mathlib
import Trench.Cache.Cache
import Trench.AuthZone.Zone

set_option autoImplicit false

/- One relation between names: what a flush takes, what a zone holds, what is the same key of a table. -/
namespace Trench.Cache

open Wire
open AuthZone (Zone)

/-- Containment of names by their octets is containment of their labels up to letter case, and so is what rests on it:
a flush, a zone and the tables that names are keys of. -/
theorem containment (a b : Name) :
    (Name.keyIsUnder a.key b.key = true ↔ b.lower <:+ a.lower) ∧
    (a.key = b.key ↔ a.lower = b.lower) ∧
    (a.isSubdomainOf b = true ↔ b.lower <:+ a.lower) ∧
    ((a == b) = true ↔ a.lower = b.lower) ∧
    (∀ z : Zone, { z with origin := b }.inBailiwick a = true ↔ b.lower <:+ a.lower) ∧
    (∀ {ν : Type} (digest : Digest) (store : Dict CacheKey ν) (shared : Option SharedCache) (key : CacheKey),
      (flush digest store shared (some b)).1.get? { key with qname := a.key } = none ↔
        store.get? { key with qname := a.key } = none ∨ b.lower <:+ a.lower) ∧
    (∀ {ν : Type} (v : ν), ((Dict.empty : Dict Name ν).set b v).contains a = true ↔ a.lower = b.lower) := by
  have under : Name.keyIsUnder a.key b.key = true ↔ b.lower <:+ a.lower := Name.isSubdomainOf_iff
  refine ⟨under, Name.key_inj, Name.isSubdomainOf_iff, Name.beq_iff, fun z => Name.isSubdomainOf_iff, ?_, ?_⟩
  · intro ν digest store shared key
    rw [get?_flush, ← under]
    by_cases inside : Name.keyIsUnder a.key b.key = true
    · rw [if_pos inside]
      exact ⟨fun _ => .inr inside, fun _ => rfl⟩
    · rw [if_neg inside]
      exact ⟨.inl, fun either => either.resolve_right inside⟩
  · intro ν v
    rw [Dict.contains_set, Bool.or_eq_true, Name.beq_iff]
    constructor
    · rintro (same | held)
      · exact same.symm
      · cases held
    · exact fun same => .inl same.symm

end Trench.Cache
