import Mathlib

set_option autoImplicit false

/- Insertion-ordered dictionaries. Keys are compared with `==`, so that keys which
differ but are equal to it share an entry; replacing a value keeps the entry's key
and its place. -/

structure Dict (κ ν : Type) [BEq κ] where
  entries : List (κ × ν)
  distinct : entries.Pairwise fun a b => (a.1 == b.1) = false

namespace Dict

variable {κ ν : Type} [BEq κ]

def empty : Dict κ ν := ⟨[], List.Pairwise.nil⟩

def size (d : Dict κ ν) : Nat := d.entries.length

def get? (d : Dict κ ν) (k : κ) : Option ν := (d.entries.find? fun e => e.1 == k).map Prod.snd

def contains (d : Dict κ ν) (k : κ) : Bool := d.entries.any fun e => e.1 == k

def replace (k : κ) (v : ν) (e : κ × ν) : κ × ν := if e.1 == k then (e.1, v) else e

theorem replace_fst (k : κ) (v : ν) (e : κ × ν) : (replace k v e).1 = e.1 := by
  rw [replace]
  split <;> rfl

def set (d : Dict κ ν) (k : κ) (v : ν) : Dict κ ν :=
  if fresh : d.contains k = true then
    ⟨d.entries.map (replace k v), by
      rw [List.pairwise_map]
      simpa only [replace_fst] using d.distinct⟩
  else
    ⟨d.entries ++ [(k, v)], by
      rw [List.pairwise_append]
      refine ⟨d.distinct, List.pairwise_singleton _ _, ?_⟩
      intro e held last same
      rw [List.mem_singleton.mp same]
      rw [contains, List.any_eq_true] at fresh
      exact Bool.eq_false_iff.mpr fun hit => fresh ⟨e, held, hit⟩⟩

/-- `setdefault`: an entry that is there stays. -/
def setDefault (d : Dict κ ν) (k : κ) (v : ν) : Dict κ ν := if d.contains k then d else d.set k v

def erase (d : Dict κ ν) (k : κ) : Dict κ ν :=
  ⟨d.entries.filter fun e => !(e.1 == k), d.distinct.filter _⟩

/-- Only the entries with a property. -/
def keep (d : Dict κ ν) (p : κ × ν → Bool) : Dict κ ν := ⟨d.entries.filter p, d.distinct.filter p⟩

def eraseAll (d : Dict κ ν) (ks : List κ) : Dict κ ν := ks.foldl erase d

/-- Without the entries that came first. -/
def dropFirst (d : Dict κ ν) (n : Nat) : Dict κ ν := ⟨d.entries.drop n, d.distinct.drop⟩

@[simp] theorem size_dropFirst (d : Dict κ ν) (n : Nat) : (d.dropFirst n).size = d.size - n :=
  List.length_drop

@[simp] theorem get?_empty (k : κ) : (empty : Dict κ ν).get? k = none := rfl

theorem get?_eq_none {d : Dict κ ν} {k : κ} :
    d.get? k = none ↔ ∀ e ∈ d.entries, (e.1 == k) = false := by
  simp [get?]

theorem contains_iff {d : Dict κ ν} {k : κ} : d.contains k = true ↔ (d.get? k).isSome = true := by
  rw [contains, List.any_eq_true, get?, Option.isSome_map, List.find?_isSome]

theorem mem_set {d : Dict κ ν} {k : κ} {v : ν} {e : κ × ν} :
    e ∈ (d.set k v).entries ↔
      (e ∈ d.entries ∧ (e.1 == k) = false) ∨
        (e.2 = v ∧ ((∃ w, (e.1, w) ∈ d.entries ∧ (e.1 == k) = true) ∨
          (e.1 = k ∧ d.contains k = false))) := by
  rw [set]
  split
  · next hit =>
      rw [List.mem_map]
      constructor
      · rintro ⟨old, held, rfl⟩
        rw [replace]
        split
        · next same => exact .inr ⟨rfl, .inl ⟨old.2, held, same⟩⟩
        · next other => exact .inl ⟨held, Bool.eq_false_iff.mpr other⟩
      · rintro (⟨held, other⟩ | ⟨rfl, ⟨w, held, same⟩ | ⟨rfl, absent⟩⟩)
        · exact ⟨e, held, by rw [replace, other]; rfl⟩
        · exact ⟨(e.1, w), held, by rw [replace, if_pos same]⟩
        · rw [hit] at absent
          cases absent
  · next absent =>
      rw [List.mem_append, List.mem_singleton]
      have missing := Bool.eq_false_iff.mpr absent
      have none : ∀ old ∈ d.entries, (old.1 == k) = false := by
        rw [contains, List.any_eq_false] at missing
        exact fun old held => Bool.eq_false_iff.mpr (missing old held)
      constructor
      · rintro (held | rfl)
        · exact .inl ⟨held, none e held⟩
        · exact .inr ⟨rfl, .inr ⟨rfl, missing⟩⟩
      · rintro (⟨held, -⟩ | ⟨rfl, ⟨w, held, same⟩ | ⟨rfl, -⟩⟩)
        · exact .inl held
        · rw [none _ held] at same
          cases same
        · exact .inr rfl

theorem size_set_le (d : Dict κ ν) (k : κ) (v : ν) : (d.set k v).size ≤ d.size + 1 := by
  rw [set]
  split
  · change (d.entries.map _).length ≤ _
    rw [List.length_map]
    exact Nat.le_succ _
  · change (d.entries ++ [(k, v)]).length ≤ _
    rw [List.length_append]
    exact Nat.le_refl _

/-! ### One entry more -/

section

variable {d : Dict κ ν} {k : κ}

theorem entries_set_new (missing : d.contains k = false) (v : ν) :
    (d.set k v).entries = d.entries ++ [(k, v)] := by
  rw [set, dif_neg (Bool.eq_false_iff.mp missing)]

theorem size_set_new (missing : d.contains k = false) (v : ν) : (d.set k v).size = d.size + 1 := by
  rw [size, entries_set_new missing, List.length_append]
  rfl

theorem size_set_held (held : d.contains k = true) (v : ν) : (d.set k v).size = d.size := by
  rw [set, dif_pos held]
  exact List.length_map _

end

theorem size_erase_lt {d : Dict κ ν} {k : κ} (held : d.contains k = true) :
    (d.erase k).size < d.size := by
  obtain ⟨e, listed, hit⟩ := List.any_eq_true.mp held
  refine List.length_filter_lt_length_iff_exists.mpr ⟨e, listed, ?_⟩
  rw [hit]
  exact Bool.false_ne_true

theorem size_erase_le (d : Dict κ ν) (k : κ) : (d.erase k).size ≤ d.size :=
  List.length_filter_le _ _

theorem size_eraseAll_le (d : Dict κ ν) (ks : List κ) : (d.eraseAll ks).size ≤ d.size := by
  induction ks generalizing d with
  | nil => exact le_rfl
  | cons k ks ih => exact (ih _).trans (size_erase_le d k)

/-! ### Values under a function -/

section

variable {ω : Type}

theorem ext_entries {d d' : Dict κ ν} (same : d.entries = d'.entries) : d = d' := by
  cases d
  cases d'
  cases same
  rfl

def mapValues (f : ν → ω) (d : Dict κ ν) : Dict κ ω :=
  ⟨d.entries.map fun e => (e.1, f e.2), by
    rw [List.pairwise_map]
    exact d.distinct⟩

theorem get?_mapValues (f : ν → ω) (d : Dict κ ν) (k : κ) :
    (d.mapValues f).get? k = (d.get? k).map f := by
  rw [get?, get?, mapValues, List.find?_map, Option.map_map, Option.map_map]
  rfl

theorem contains_mapValues (f : ν → ω) (d : Dict κ ν) (k : κ) :
    (d.mapValues f).contains k = d.contains k := by
  rw [contains, contains, mapValues, List.any_map]
  rfl

theorem size_mapValues (f : ν → ω) (d : Dict κ ν) : (d.mapValues f).size = d.size := List.length_map _

theorem keys_mapValues (f : ν → ω) (d : Dict κ ν) :
    (d.mapValues f).entries.map Prod.fst = d.entries.map Prod.fst := by
  rw [mapValues, List.map_map]
  rfl

theorem mapValues_congr {f g : ν → ω} {d : Dict κ ν} (same : ∀ e ∈ d.entries, f e.2 = g e.2) :
    d.mapValues f = d.mapValues g :=
  ext_entries (List.map_congr_left fun e held => by rw [same e held])

theorem mapValues_set (f : ν → ω) (d : Dict κ ν) (k : κ) (v : ν) :
    (d.set k v).mapValues f = (d.mapValues f).set k (f v) := by
  apply ext_entries
  by_cases held : d.contains k = true
  · rw [set, dif_pos held, set, dif_pos ((contains_mapValues f d k).trans held)]
    simp only [mapValues, List.map_map]
    apply List.map_congr_left
    intro e _
    simp only [Function.comp_apply, replace]
    split <;> rfl
  · rw [set, dif_neg held, set, dif_neg fun other => held ((contains_mapValues f d k).symm.trans other)]
    simp only [mapValues, List.map_append, List.map_cons, List.map_nil]

theorem mapValues_erase (f : ν → ω) (d : Dict κ ν) (k : κ) :
    (d.erase k).mapValues f = (d.mapValues f).erase k := by
  apply ext_entries
  simp only [mapValues, erase, List.filter_map]
  rfl

theorem mapValues_dropFirst (f : ν → ω) (d : Dict κ ν) (n : Nat) :
    (d.dropFirst n).mapValues f = (d.mapValues f).dropFirst n :=
  ext_entries List.map_drop

end

/-! ### What holds of every value -/

/-- Something holds of every value. -/
def Every (holds : ν → Prop) (d : Dict κ ν) : Prop := ∀ e ∈ d.entries, holds e.2

theorem countP_keep_le (d : Dict κ ν) (p q : κ × ν → Bool) :
    (d.keep p).entries.countP q ≤ d.entries.countP q := List.Sublist.countP_le List.filter_sublist

theorem size_keep (d : Dict κ ν) (p : κ × ν → Bool) : (d.keep p).size = d.entries.countP p :=
  List.countP_eq_length_filter.symm

section

variable {holds : ν → Prop} {d : Dict κ ν}

theorem Every.set (every : d.Every holds) (k : κ) {v : ν} (new : holds v) : (d.set k v).Every holds := by
  intro e held
  rw [Dict.set] at held
  split at held
  · obtain ⟨old, listed, rfl⟩ := List.mem_map.mp held
    rw [replace]
    split
    · exact new
    · exact every old listed
  · rcases List.mem_append.mp held with old | last
    · exact every e old
    · rw [List.mem_singleton.mp last]
      exact new

theorem Every.erase (every : d.Every holds) (k : κ) : (d.erase k).Every holds :=
  fun e held => every e (List.mem_filter.mp held).1

theorem Every.dropFirst (every : d.Every holds) (n : Nat) : (d.dropFirst n).Every holds :=
  fun e held => every e (List.mem_of_mem_drop held)

end

variable [EquivBEq κ]

/-- A key is found with a value exactly when some entry's key is equal to it. -/
theorem get?_eq_some {d : Dict κ ν} {k : κ} {v : ν} :
    d.get? k = some v ↔ ∃ e ∈ d.entries, (e.1 == k) = true ∧ e.2 = v := by
  obtain ⟨entries, distinct⟩ := d
  simp only [get?]
  induction entries with
  | nil => simp
  | cons e rest ih =>
      obtain ⟨head, tail⟩ := List.pairwise_cons.mp distinct
      by_cases hit : (e.1 == k) = true
      · simp only [List.find?_cons, hit, Option.map_some, Option.some.injEq]
        constructor
        · exact fun same => ⟨e, List.mem_cons_self, hit, same⟩
        · rintro ⟨other, held, found, same⟩
          rcases List.mem_cons.mp held with rfl | held
          · exact same
          · have clash := head other held
            rw [BEq.trans hit (BEq.symm found)] at clash
            cases clash
      · simp only [List.find?_cons, hit, ih tail, List.exists_mem_cons_iff, Bool.false_eq_true, false_and,
          false_or]

theorem get?_congr (d : Dict κ ν) {k l : κ} (same : (k == l) = true) : d.get? k = d.get? l := by
  have agree : (fun e : κ × ν => e.1 == k) = fun e => e.1 == l := by
    funext e
    exact BEq.congr_right same
  rw [get?, get?, agree]

theorem get?_set (d : Dict κ ν) (k l : κ) (v : ν) :
    (d.set k v).get? l = if (k == l) = true then some v else d.get? l := by
  by_cases same : (k == l) = true
  · rw [if_pos same, get?_eq_some]
    by_cases hit : d.contains k = true
    · obtain ⟨old, held, found⟩ := List.any_eq_true.mp hit
      exact ⟨(old.1, v), mem_set.mpr (.inr ⟨rfl, .inl ⟨old.2, held, found⟩⟩),
        BEq.trans found same, rfl⟩
    · exact ⟨(k, v), mem_set.mpr (.inr ⟨rfl, .inr ⟨rfl, Bool.eq_false_iff.mpr hit⟩⟩), same, rfl⟩
  · rw [if_neg same]
    have apart {e : κ × ν} (found : (e.1 == l) = true) : (e.1 == k) = false :=
      Bool.eq_false_iff.mpr fun hit => same (BEq.trans (BEq.symm hit) found)
    ext w
    rw [get?_eq_some, get?_eq_some]
    constructor
    · rintro ⟨e, held, found, rfl⟩
      rcases mem_set.mp held with ⟨held, -⟩ | ⟨-, ⟨-, -, hit⟩ | ⟨equal, -⟩⟩
      · exact ⟨e, held, found, rfl⟩
      · rw [apart found] at hit
        cases hit
      · rw [equal] at found
        exact absurd found same
    · rintro ⟨e, held, found, rfl⟩
      exact ⟨e, mem_set.mpr (.inl ⟨held, apart found⟩), found, rfl⟩

theorem get?_setDefault (d : Dict κ ν) (k l : κ) (v : ν) :
    (d.setDefault k v).get? l = if (k == l) = true then some ((d.get? l).getD v) else d.get? l := by
  unfold setDefault
  by_cases hit : d.contains k = true
  · rw [if_pos hit]
    split
    · next same =>
        rw [contains_iff, get?_congr d same] at hit
        obtain ⟨w, held⟩ := Option.isSome_iff_exists.mp hit
        rw [held]
        rfl
    · rfl
  · rw [if_neg hit, get?_set]
    split
    · next same =>
        rw [contains_iff, get?_congr d same, Option.not_isSome_iff_eq_none] at hit
        rw [hit]
        rfl
    · rfl

theorem get?_erase (d : Dict κ ν) (k l : κ) :
    (d.erase k).get? l = if (k == l) = true then none else d.get? l := by
  by_cases same : (k == l) = true
  · rw [if_pos same, get?_eq_none]
    intro e held
    have other := (List.mem_filter.mp held).2
    rw [Bool.not_eq_true'] at other
    exact Bool.eq_false_iff.mpr fun hit => by
      rw [BEq.trans hit (BEq.symm same)] at other
      cases other
  · rw [if_neg same]
    ext w
    rw [get?_eq_some, get?_eq_some]
    constructor
    · rintro ⟨e, held, found, rfl⟩
      exact ⟨e, (List.mem_filter.mp held).1, found, rfl⟩
    · rintro ⟨e, held, found, rfl⟩
      refine ⟨e, List.mem_filter.mpr ⟨held, ?_⟩, found, rfl⟩
      rw [Bool.not_eq_true', Bool.eq_false_iff]
      exact fun hit => same (BEq.trans (BEq.symm hit) found)

theorem contains_set (d : Dict κ ν) (k l : κ) (v : ν) : (d.set k v).contains l = ((k == l) || d.contains l) := by
  rw [Bool.eq_iff_iff, contains_iff, get?_set, Bool.or_eq_true, contains_iff]
  by_cases same : (k == l) = true
  · rw [if_pos same]
    exact iff_of_true rfl (.inl same)
  · rw [if_neg same, or_iff_right same]

/-- What is set and erased again leaves no trace. -/
theorem erase_set_new {d : Dict κ ν} {k : κ} (missing : d.contains k = false) (v : ν) : (d.set k v).erase k = d := by
  apply ext_entries
  change (d.set k v).entries.filter _ = _
  rw [entries_set_new missing, List.filter_append, List.filter_cons_of_neg (by rw [BEq.rfl]; exact Bool.false_ne_true), List.filter_nil,
    List.append_nil, List.filter_eq_self]
  intro e held
  rw [contains, List.any_eq_false] at missing
  rw [Bool.not_eq_true']
  exact Bool.eq_false_iff.mpr (missing e held)

/-- An entry that is left is the one that was there. -/
theorem get?_of_erase {d : Dict κ ν} {k l : κ} {v : ν} (found : (d.erase k).get? l = some v) :
    d.get? l = some v := by
  rw [get?_erase] at found
  split at found
  · cases found
  · exact found

theorem get?_of_eraseAll {d : Dict κ ν} {ks : List κ} {l : κ} {v : ν}
    (found : (d.eraseAll ks).get? l = some v) : d.get? l = some v := by
  induction ks generalizing d with
  | nil => exact found
  | cons k ks ih => exact get?_of_erase (ih found)

/-- What is erased and set again comes last. -/
theorem entries_set_erase (d : Dict κ ν) (k : κ) (v : ν) :
    ((d.erase k).set k v).entries = (d.erase k).entries ++ [(k, v)] := by
  have gone : ¬(d.erase k).contains k = true := by
    rw [contains_iff, get?_erase, if_pos BEq.rfl]
    exact Bool.false_ne_true
  rw [set, dif_neg gone]

theorem get?_of_dropFirst {d : Dict κ ν} {n : Nat} {k : κ} {v : ν}
    (found : (d.dropFirst n).get? k = some v) : d.get? k = some v := by
  obtain ⟨e, held, hit, rfl⟩ := get?_eq_some.mp found
  exact get?_eq_some.mpr ⟨e, List.mem_of_mem_drop held, hit, rfl⟩

/-- A key that is not among the first keeps its entry. -/
theorem get?_dropFirst {d : Dict κ ν} {n : Nat} {k : κ}
    (spared : ∀ e ∈ d.entries.take n, (e.1 == k) = false) : (d.dropFirst n).get? k = d.get? k := by
  ext v
  refine ⟨get?_of_dropFirst, fun found => ?_⟩
  obtain ⟨e, held, hit, rfl⟩ := get?_eq_some.mp found
  rw [← List.take_append_drop n d.entries] at held
  rcases List.mem_append.mp held with gone | left
  · rw [spared e gone] at hit
    cases hit
  · exact get?_eq_some.mpr ⟨e, left, hit, rfl⟩

theorem get?_of_keep {d : Dict κ ν} {p : κ × ν → Bool} {k : κ} {v : ν} (found : (d.keep p).get? k = some v) :
    d.get? k = some v := by
  obtain ⟨e, held, hit, rfl⟩ := get?_eq_some.mp found
  exact get?_eq_some.mpr ⟨e, (List.mem_filter.mp held).1, hit, rfl⟩

theorem Every.get? {holds : ν → Prop} {d : Dict κ ν} (every : d.Every holds) {k : κ} {v : ν}
    (found : d.get? k = some v) : holds v := by
  obtain ⟨e, held, -, rfl⟩ := get?_eq_some.mp found
  exact every e held

section Lawful

variable [LawfulBEq κ]

theorem get?_eq_some_iff_mem {d : Dict κ ν} {k : κ} {v : ν} : d.get? k = some v ↔ (k, v) ∈ d.entries := by
  rw [get?_eq_some]
  constructor
  · rintro ⟨⟨l, w⟩, held, hit, rfl⟩
    obtain rfl := eq_of_beq hit
    exact held
  · exact fun held => ⟨(k, v), held, BEq.rfl, rfl⟩

theorem nodup_keys (d : Dict κ ν) : (d.entries.map Prod.fst).Nodup := by
  rw [List.Nodup, List.pairwise_map]
  exact d.distinct.imp fun apart => beq_eq_false_iff_ne.mp apart

theorem get?_keep {d : Dict κ ν} {p : κ × ν → Bool} {k : κ} {v : ν} :
    (d.keep p).get? k = some v ↔ d.get? k = some v ∧ p (k, v) = true := by
  rw [get?_eq_some_iff_mem, get?_eq_some_iff_mem, keep, List.mem_filter]

theorem set_set (d : Dict κ ν) (k : κ) (v w : ν) : (d.set k v).set k w = d.set k w := by
  refine ext_entries ?_
  have there : (d.set k v).contains k = true := by
    rw [contains_iff, get?_set, if_pos BEq.rfl]
    rfl
  rw [set, dif_pos there]
  by_cases held : d.contains k = true
  · rw [set, dif_pos held, set, dif_pos held]
    change (d.entries.map (replace k v)).map (replace k w) = d.entries.map (replace k w)
    rw [List.map_map]
    refine List.map_congr_left fun e _ => ?_
    change replace k w (replace k v e) = replace k w e
    rw [replace, replace_fst, replace, replace]
    split <;> rfl
  · rw [set, dif_neg held, set, dif_neg held]
    have missing := Bool.eq_false_iff.mpr held
    rw [contains, List.any_eq_false] at missing
    change (d.entries ++ [(k, v)]).map (replace k w) = d.entries ++ [(k, w)]
    have apart : d.entries.map (replace k w) = d.entries := by
      refine (List.map_congr_left fun e listed => ?_).trans (List.map_id _)
      exact if_neg (missing e listed)
    rw [List.map_append, apart, List.map_singleton, replace, if_pos BEq.rfl]

/-- Entries whose keys are new are set one after the other at the end. -/
theorem entries_foldl_set (d : Dict κ ν) (entries : List (κ × ν)) (f : Dict κ ν → κ × ν → ν)
    (new : ∀ e ∈ entries, d.contains e.1 = false) (apart : entries.Pairwise fun a b => (a.1 == b.1) = false)
    (plain : ∀ (d : Dict κ ν) (e : κ × ν), d.contains e.1 = false → f d e = e.2) :
    (entries.foldl (fun d e => d.set e.1 (f d e)) d).entries = d.entries ++ entries := by
  induction entries generalizing d with
  | nil => rw [List.foldl_nil, List.append_nil]
  | cons e entries ih =>
      obtain ⟨first, others⟩ := List.pairwise_cons.mp apart
      have fresh : ¬d.contains e.1 = true := Bool.eq_false_iff.mp (new e List.mem_cons_self)
      have grown : (d.set e.1 (f d e)).entries = d.entries ++ [e] := by
        rw [set, dif_neg fresh, plain d e (Bool.eq_false_iff.mpr fresh)]
      rw [List.foldl_cons, ih _ ?_ others, grown, List.append_assoc, List.singleton_append]
      intro other later
      rw [contains, grown, List.any_append, List.any_cons, List.any_nil, Bool.or_false, first other later,
        Bool.or_false]
      exact new other (List.mem_cons_of_mem _ later)

theorem get?_set_eq [DecidableEq κ] (d : Dict κ ν) (k l : κ) (v : ν) :
    (d.set k v).get? l = if k = l then some v else d.get? l := by
  rw [get?_set]
  simp only [beq_iff_eq]

theorem get?_erase_eq [DecidableEq κ] (d : Dict κ ν) (k l : κ) :
    (d.erase k).get? l = if k = l then none else d.get? l := by
  rw [get?_erase]
  simp only [beq_iff_eq]

theorem get?_eraseAll [DecidableEq κ] (d : Dict κ ν) (ks : List κ) (l : κ) :
    (d.eraseAll ks).get? l = if l ∈ ks then none else d.get? l := by
  induction ks generalizing d with
  | nil => exact (if_neg List.not_mem_nil).symm
  | cons k ks ih =>
      change ((d.erase k).eraseAll ks).get? l = _
      rw [ih, get?_erase_eq]
      by_cases same : k = l
      · rw [if_pos same, ite_self, if_pos (same ▸ List.mem_cons_self)]
      · have split : l ∈ k :: ks ↔ l ∈ ks := List.mem_cons.trans (or_iff_right fun here => same here.symm)
        rw [if_neg same]
        simp only [split]

theorem countP_map_replace_le (entries : List (κ × ν)) (k : κ) (v : ν) (p : κ × ν → Bool)
    (distinct : entries.Pairwise fun a b => (a.1 == b.1) = false) :
    (entries.map (replace k v)).countP p ≤ entries.countP p + if p (k, v) then 1 else 0 := by
  induction entries with
  | nil => exact Nat.zero_le _
  | cons e rest ih =>
      obtain ⟨head, tail⟩ := List.pairwise_cons.mp distinct
      rw [List.map_cons, List.countP_cons, List.countP_cons]
      by_cases hit : (e.1 == k) = true
      · -- No other entry has the key.
        have same : rest.map (replace k v) = rest := by
          conv_rhs => rw [← List.map_id rest]
          refine List.map_congr_left fun other held => ?_
          have apart := head other held
          rw [replace, if_neg]
          · rfl
          · intro found
            rw [eq_of_beq hit, beq_eq_false_iff_ne] at apart
            exact apart (eq_of_beq found).symm
        rw [same, replace, if_pos hit, eq_of_beq hit]
        omega
      · have whole := ih tail
        rw [replace, if_neg hit]
        omega

/-- One entry more at most has the property. -/
theorem countP_set_le (d : Dict κ ν) (k : κ) (v : ν) (p : κ × ν → Bool) :
    (d.set k v).entries.countP p ≤ d.entries.countP p + if p (k, v) then 1 else 0 := by
  rw [set]
  split
  · exact countP_map_replace_le d.entries k v p d.distinct
  · change (d.entries ++ [(k, v)]).countP p ≤ _
    rw [List.countP_append, List.countP_singleton]

end Lawful

end Dict
