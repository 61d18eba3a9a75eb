import Mathlib
import Trench.Cache.Provenance

set_option autoImplicit false

/- How long a response may be kept, against the lifetimes of its own records. -/
namespace Trench.Cache

open Wire

/-- No record has more than its counterpart had, less what has elapsed. -/
def Within (old new : List RR) (elapsed : Int) : Prop :=
  ∀ (i : Nat) (a b : RR), old[i]? = some a → new[i]? = some b → b.ttl ≤ a.ttl - elapsed

def NoLonger (old new : Message) (elapsed : Int) : Prop :=
  Within old.answers new.answers elapsed ∧ Within old.authority new.authority elapsed ∧
    Within old.additional new.additional elapsed

/-- A bound of `t` on the lifetime that the message gets. -/
def Bounded (s : Settings) (m : Message) (t : Int) : Prop :=
  s.maxTtl ≤ t ∨
    if (m.rcode = Engine.Rcode.nxdomain ∨ m.rcode = Engine.Rcode.noerror) ∧ m.answers = [] then
      s.negativeTtl ≤ t ∨ ∃ rr ∈ m.authority, rr.rtype = RRType.soa ∧ soaTtl rr ≤ t
    else
      (∀ rr ∈ m.answers ++ m.authority, rr.rtype = RRType.opt) ∨
        ∃ rr ∈ m.answers ++ m.authority, rr.rtype ≠ RRType.opt ∧ rr.ttl ≤ t

def records (m : Message) : List RR := m.answers ++ m.authority ++ m.additional

/-- The lifetime is bounded by that of every record. -/
def Covered (s : Settings) (m : Message) : Prop := ∀ rr ∈ records m, 0 ≤ rr.ttl ∧ Bounded s m rr.ttl

/-! ### The derived lifetime -/

theorem foldl_shorter_none (rrs : List RR) (best : Option Int) :
    rrs.foldl shorter best = none ↔ best = none ∧ ∀ rr ∈ rrs, rr.rtype = RRType.opt := by
  induction rrs generalizing best with
  | nil => exact ⟨fun none => ⟨none, nofun⟩, And.left⟩
  | cons rr rest ih =>
      rw [List.foldl_cons, ih, List.forall_mem_cons, ← and_assoc]
      refine and_congr_left fun _ => ?_
      rw [shorter]
      split
      · next taken => exact ⟨nofun, fun none => absurd none.2 taken.1⟩
      · next kept =>
          refine ⟨fun none => ⟨none, ?_⟩, And.left⟩
          by_contra other
          exact kept ⟨other, by rw [none]; rfl⟩

theorem foldl_shorter_le (rrs : List RR) (best : Option Int) (t : Int) :
    (∃ b, rrs.foldl shorter best = some b ∧ b ≤ t) ↔
      (∃ b, best = some b ∧ b ≤ t) ∨ ∃ rr ∈ rrs, rr.rtype ≠ RRType.opt ∧ rr.ttl ≤ t := by
  induction rrs generalizing best with
  | nil => exact ⟨.inl, fun either => either.resolve_right (by rintro ⟨rr, ⟨⟩, -⟩)⟩
  | cons rr rest ih =>
      have first : (∃ b, shorter best rr = some b ∧ b ≤ t) ↔
          (∃ b, best = some b ∧ b ≤ t) ∨ rr.rtype ≠ RRType.opt ∧ rr.ttl ≤ t := by
        rw [shorter]
        split
        · next taken =>
            constructor
            · rintro ⟨b, ⟨⟩, le⟩
              exact .inr ⟨taken.1, le⟩
            · rintro (⟨b, rfl, le⟩ | ⟨-, le⟩)
              · have less : rr.ttl < b := by simpa using taken.2
                exact ⟨_, rfl, by omega⟩
              · exact ⟨_, rfl, le⟩
        · next kept =>
            refine ⟨.inl, ?_⟩
            rintro (held | ⟨other, le⟩)
            · exact held
            · cases best with
              | none => exact absurd ⟨other, rfl⟩ kept
              | some b =>
                  have less : ¬rr.ttl < b := fun less => kept ⟨other, by simpa using less⟩
                  exact ⟨b, rfl, by omega⟩
      rw [List.foldl_cons, ih, first, or_assoc, List.exists_mem_cons_iff]

theorem messageMinTtl_eq (m : Message) : messageMinTtl m = (m.answers ++ m.authority).foldl shorter none :=
  List.foldl_append.symm

/-- The least of a list, where a default stands for none. -/
theorem min_getD_le_iff (list : List Int) (least t : Int) :
    min (list.min?.getD least) least ≤ t ↔ least ≤ t ∨ ∃ n ∈ list, n ≤ t := by
  rw [min_le_iff]
  cases found : list.min? with
  | none =>
      rw [List.min?_eq_none_iff.mp found, Option.getD_none, or_self]
      exact ⟨.inl, fun either => either.resolve_right (by rintro ⟨n, ⟨⟩, -⟩)⟩
  | some n =>
      obtain ⟨held, smallest⟩ := List.min?_eq_some_iff.mp found
      rw [Option.getD_some, or_comm]
      refine or_congr_right ⟨fun le => ⟨n, held, le⟩, ?_⟩
      rintro ⟨other, listed, le⟩
      exact (smallest other listed).trans le

/-- What bounds the lifetime of an entry. -/
theorem deriveTtl_le_iff {s : Settings} (zero : s.minTtl = 0) (m : Message) {t : Int} (positive : 0 ≤ t) :
    deriveTtl s m ≤ t ↔ Bounded s m t := by
  rw [deriveTtl, Bounded]
  split
  · dsimp only
    rw [clamp, zero, max_le_iff, min_le_iff, and_iff_right positive, min_getD_le_iff]
    refine or_congr_right (or_congr_right ?_)
    constructor
    · rintro ⟨n, listed, le⟩
      obtain ⟨rr, held, rfl⟩ := List.mem_map.mp listed
      obtain ⟨listed, soa⟩ := List.mem_filter.mp held
      exact ⟨rr, listed, of_decide_eq_true soa, le⟩
    · rintro ⟨rr, listed, soa, le⟩
      exact ⟨_, List.mem_map_of_mem (List.mem_filter.mpr ⟨listed, decide_eq_true soa⟩), le⟩
  · rw [clamp, zero, max_le_iff, min_le_iff, and_iff_right positive]
    refine or_congr_right ?_
    rw [messageMinTtl_eq]
    have absent := foldl_shorter_none (m.answers ++ m.authority) none
    have least := foldl_shorter_le (m.answers ++ m.authority) none t
    cases found : (m.answers ++ m.authority).foldl shorter Option.none with
    | none =>
        rw [Option.getD_none]
        exact iff_of_true positive (.inl (absent.mp found).2)
    | some b =>
        rw [found] at absent least
        rw [Option.getD_some]
        constructor
        · intro le
          refine .inr ((least.mp ⟨b, rfl, le⟩).resolve_left ?_)
          rintro ⟨b, ⟨⟩, -⟩
        · rintro (all | some)
          · exact absurd (absent.mpr ⟨rfl, all⟩) (by nofun)
          · obtain ⟨b', same, le⟩ := least.mpr (.inr some)
            cases same
            exact le

theorem covered_iff {s : Settings} (zero : s.minTtl = 0) (m : Message) :
    Covered s m ↔ ∀ rr ∈ records m, deriveTtl s m ≤ rr.ttl := by
  refine forall₂_congr fun rr held => ?_
  have positive : 0 ≤ deriveTtl s m := by
    rw [deriveTtl]
    split <;> exact zero ▸ le_max_left _ _
  constructor
  · rintro ⟨positive, bounded⟩
    exact (deriveTtl_le_iff zero m positive).mpr bounded
  · intro le
    have positive := positive.trans le
    exact ⟨positive, (deriveTtl_le_iff zero m positive).mp le⟩

/-! ### What a get gives back -/

theorem within_retimed {old rrs : List RR} {ttl elapsed : Int}
    (short : ∀ rr ∈ old, ttl ≤ rr.ttl - elapsed) : Within old (retimed ttl rrs) elapsed := by
  intro i a b was is
  rw [retimed, List.getElem?_map] at is
  obtain ⟨rr, -, rfl⟩ := Option.map_eq_some_iff.mp is
  exact short a (List.mem_of_getElem? was)

theorem within_retimed_iff {rrs : List RR} {ttl elapsed : Int} :
    Within rrs (retimed ttl rrs) elapsed ↔ ∀ rr ∈ rrs, ttl ≤ rr.ttl - elapsed := by
  refine ⟨fun within rr held => ?_, within_retimed⟩
  obtain ⟨i, found⟩ := List.mem_iff_getElem?.mp held
  apply within i rr { rr with ttl } found
  rw [retimed, List.getElem?_map, found]
  rfl

theorem noLonger_withTtl {old copy : Message} {ttl elapsed : Int}
    (short : ∀ rr ∈ records old, ttl ≤ rr.ttl - elapsed) : NoLonger old (withTtl copy ttl) elapsed := by
  refine ⟨within_retimed fun rr held => ?_, within_retimed fun rr held => ?_,
    within_retimed fun rr held => ?_⟩
  · exact short rr (List.mem_append_left _ (List.mem_append_left _ held))
  · exact short rr (List.mem_append_left _ (List.mem_append_right _ held))
  · exact short rr (List.mem_append_right _ held)

theorem noLonger_withTtl_iff {m : Message} {ttl elapsed : Int} :
    NoLonger m (withTtl m ttl) elapsed ↔ ∀ rr ∈ records m, ttl ≤ rr.ttl - elapsed := by
  refine ⟨?_, noLonger_withTtl⟩
  rintro ⟨answers, authority, additional⟩ rr held
  rcases List.mem_append.mp held with held | held
  · rcases List.mem_append.mp held with held | held
    · exact within_retimed_iff.mp answers rr held
    · exact within_retimed_iff.mp authority rr held
  · exact within_retimed_iff.mp additional rr held

/-- The seconds left and the whole seconds elapsed never exceed the lifetime. -/
theorem wholeSeconds_le {now time : ℚ} {ttl : Int} (fresh : now < time + ttl) :
    wholeSeconds (time + ttl - now) ≤ ttl - ⌊now - time⌋ := by
  have left := Int.floor_le (time + ttl - now)
  have gone := Int.floor_le (now - time)
  rw [wholeSeconds, max_le_iff]
  constructor
  · have spent : ((⌊now - time⌋ : Int) : ℚ) < ttl := by linarith
    have spent : ⌊now - time⌋ < ttl := by exact_mod_cast spent
    omega
  · have whole : ((⌊time + ttl - now⌋ + ⌊now - time⌋ : Int) : ℚ) ≤ ttl := by
      push_cast
      linarith
    have whole : ⌊time + ttl - now⌋ + ⌊now - time⌋ ≤ ttl := by exact_mod_cast whole
    omega

/-- A fresh response from a put that covers its records. -/
theorem Returned.noLonger {s : Settings} (zero : s.minTtl = 0) {p : Stored} {now : ℚ}
    {hit : Hit Message} (returned : Returned s p now hit) (notStale : hit.stale = false)
    (covered : Covered s p.msg) : NoLonger p.msg (withTtl hit.msg hit.ttl) ⌊now - p.time⌋ := by
  obtain ⟨fresh, ttl⟩ := returned.fresh notStale
  refine noLonger_withTtl fun rr held => ?_
  have short := (covered_iff zero p.msg).mp covered rr held
  have left := wholeSeconds_le fresh
  rw [ttl, Stored.expires]
  omega

/-- A put is found again at once. -/
theorem get_put {s : Settings} {digest : Digest} {now : ℚ} {store : Store}
    {shared : Option SharedCache} {key : CacheKey} {m : Message} (kept : keeps s m = true)
    (room : 0 < s.maxEntries) (lasts : 0 < deriveTtl s m) (allowStale : Bool) :
    (get s digest now (put s digest now store shared key m).1
      (put s digest now store shared key m).2 key allowStale).1 =
        some (withTtl m (deriveTtl s m), false) := by
  have enabled : s.enabled = true := by
    rw [keeps, Bool.and_eq_true, Bool.and_eq_true] at kept
    exact kept.1.1
  have held : (put s digest now store shared key m).1.get? key = some (freshEntry s now m) := by
    rw [put, if_pos kept]
    change (trim s (inserted store key (freshEntry s now m))).get? key = _
    rw [get?_trim (spared_inserted room store key _), get?_inserted, if_pos rfl]
  have left : (freshEntry s now m).ttl - (now - (freshEntry s now m).inserted) = deriveTtl s m := by
    change ((deriveTtl s m : Int) : ℚ) - (now - now) = _
    ring
  have positive : (0 : ℚ) < deriveTtl s m := by exact_mod_cast lasts
  rw [get, find, if_neg (by simp [enabled]), ownGet, held]
  dsimp only
  rw [left, if_pos positive, wholeSeconds, Int.floor_intCast, max_eq_right lasts.le]
  rfl

def address (ttl : Int) : RR := ⟨.root, RRType.a, RRClass.in, ttl, .a "192.0.2.1".toList⟩

/-- An answer with a record of five minutes, and one beside it. -/
def glued (ttl : Int) : Message where
  flags := 0x8180
  answers := [address 300]
  additional := [address ttl]

def rootKey : CacheKey := ⟨Name.root.key, RRType.a, RRClass.in, false, [], false, []⟩

end Trench.Cache
