import Mathlib
import Trench.Wire.Name

set_option autoImplicit false

/- Names are compared through their wire keys. Here every such comparison is
reduced to the lowercased labels, and from there to paths that start at the
root: equality of names is equality of paths, containment is prefix. -/
namespace Trench.Wire.Name

theorem lower_canonicalize (name : Name) : name.canonicalize.lower = name.lower := by
  simp only [lower, canonicalize, List.map_map]
  exact List.map_congr_left (fun label _ => label.lower_idem)

@[simp] theorem labelOctets_append (first second : List Label) :
    labelOctets (first ++ second) = labelOctets first ++ labelOctets second := by
  induction first with
  | nil => rfl
  | cons label rest ih => simp only [List.cons_append, labelOctets, ih, List.append_assoc]

theorem lengthOctet_toNat (label : Label) :
    (UInt8.ofNat label.octets.length).toNat = label.octets.length := by
  have bound := label.bounded
  simp only [maxLabel] at bound
  simp only [UInt8.toNat_ofNat', Nat.mod_eq_of_lt (show label.octets.length < 2 ^ 8 by omega)]

theorem lengthOctet_ne_zero (label : Label) : UInt8.ofNat label.octets.length ≠ 0 := by
  intro zero
  have length := lengthOctet_toNat label
  have positive := label.nonempty
  rw [zero, UInt8.toNat_zero] at length
  omega

theorem wireLen_eq (name : Name) : name.wireLen = (labelOctets name.labels).length + 1 := by
  obtain ⟨labels⟩ := name
  simp only [wireLen, Nat.add_right_cancel_iff]
  induction labels with
  | nil => rfl
  | cons label rest ih =>
      simp only [List.map_cons, List.sum_cons, labelOctets, List.length_cons, List.length_append, ih]
      omega

theorem wireLen_snoc (labels : List Label) (label : Label) :
    (Name.mk (labels ++ [label])).wireLen = (Name.mk labels).wireLen + label.octets.length + 1 := by
  simp only [wireLen, List.map_append, List.map_cons, List.map_nil, List.sum_append, List.sum_cons,
    List.sum_nil]
  omega

theorem length_le_labelOctets (labels : List Label) : labels.length ≤ (labelOctets labels).length := by
  induction labels with
  | nil => exact Nat.zero_le _
  | cons label rest ih =>
      simp only [labelOctets, List.length_cons, List.length_append]
      omega

theorem wireLen_of_lower {name other : Name} (same : other.lower = name.lower) :
    other.wireLen = name.wireLen := by
  have fold (n : Name) : n.wireLen = (n.lower.map fun l => l.octets.length + 1).sum + 1 := by
    simp only [wireLen, lower, List.map_map, Function.comp_def, Label.lower, List.length_map]
  rw [fold, fold, same]

/-- Every label takes two octets at least. -/
theorem labels_le_of_legal (name : Name) (legal : name.wireLen ≤ maxName) :
    name.labels.length ≤ 127 := by
  obtain ⟨labels⟩ := name
  have twice : 2 * labels.length ≤ (labels.map fun l => l.octets.length + 1).sum := by
    clear legal
    induction labels with
    | nil => exact Nat.zero_le _
    | cons label rest ih =>
        have positive := label.nonempty
        simp only [List.length_cons, List.map_cons, List.sum_cons]
        omega
  simp only [wireLen, maxName] at legal
  simp only
  omega

/-- The length octets delimit the labels: a name's octets determine it and what
follows it. -/
theorem labelOctets_zero_inj {first second : List Label} {x y : Octets}
    (same : labelOctets first ++ 0 :: x = labelOctets second ++ 0 :: y) :
    first = second ∧ x = y := by
  induction first generalizing second with
  | nil =>
      cases second with
      | nil => simpa [labelOctets] using same
      | cons label rest =>
          simp only [labelOctets, List.nil_append, List.cons_append, List.cons.injEq] at same
          exact absurd same.1.symm (lengthOctet_ne_zero label)
  | cons label rest ih =>
      cases second with
      | nil =>
          simp only [labelOctets, List.nil_append, List.cons_append, List.cons.injEq] at same
          exact absurd same.1 (lengthOctet_ne_zero label)
      | cons other others =>
          simp only [labelOctets, List.cons_append, List.append_assoc, List.cons.injEq] at same
          have lengths : label.octets.length = other.octets.length := by
            rw [← lengthOctet_toNat label, ← lengthOctet_toNat other, same.1]
          have split := List.append_inj same.2 lengths
          have tails := ih split.2
          exact ⟨by rw [Label.ext split.1, tails.1], tails.2⟩

theorem key_inj {a b : Name} : a.key = b.key ↔ a.lower = b.lower := by
  constructor
  · intro same
    exact (labelOctets_zero_inj (x := []) (y := []) same).1
  · intro same
    simp only [key, same]

/-- `==` on names: the labels agree up to letter case. -/
theorem beq_iff {a b : Name} : (a == b) = true ↔ a.lower = b.lower := by
  rw [← key_inj]
  exact beq_iff_eq (a := a.key) (b := b.key)

instance : EquivBEq Name where
  rfl := beq_iff.mpr rfl
  symm same := beq_iff.mpr (beq_iff.mp same).symm
  trans left right := beq_iff.mpr ((beq_iff.mp left).trans (beq_iff.mp right))

/-! ### Containment -/

/-- Stepping over length octets from a label boundary stops exactly at `start`
when `start` is a label boundary too. -/
theorem walkTo_eq_iff (whole : Octets) (labels : List Label) (start fuel i : Nat)
    (here : whole.drop i = labelOctets labels ++ [0]) (lower : i ≤ start)
    (upper : start ≤ i + (labelOctets labels).length) (enough : start - i ≤ fuel) :
    walkTo whole start fuel i = start ↔
      ∃ k ≤ labels.length, start = i + (labelOctets (labels.take k)).length := by
  induction labels generalizing fuel i with
  | nil =>
      have same : start = i := by
        simp only [labelOctets, List.length_nil] at upper
        omega
      subst same
      have stop : walkTo whole start fuel start = start := by
        cases fuel <;> simp [walkTo]
      exact ⟨fun _ => ⟨0, Nat.le_refl 0, by simp [labelOctets]⟩, fun _ => stop⟩
  | cons label rest ih =>
      rcases Nat.eq_or_lt_of_le lower with same | before
      · subst same
        have stop : walkTo whole i fuel i = i := by cases fuel <;> simp [walkTo]
        exact ⟨fun _ => ⟨0, Nat.zero_le _, by simp [labelOctets]⟩, fun _ => stop⟩
      · obtain ⟨left, rfl⟩ : ∃ left, fuel = left + 1 := ⟨fuel - 1, by omega⟩
        have octet : whole.getD i 0 = UInt8.ofNat label.octets.length := by
          have first := congrArg (fun l => l.head?) here
          simp only [List.head?_drop, labelOctets, List.cons_append, List.head?_cons] at first
          simp only [List.getD_eq_getElem?_getD, first, Option.getD_some]
        have next : whole.drop (i + (label.octets.length + 1)) = labelOctets rest ++ [0] := by
          rw [← List.drop_drop, here]
          simp [labelOctets]
        have step : walkTo whole start (left + 1) i =
            walkTo whole start left (i + (label.octets.length + 1)) := by
          simp only [walkTo, before, ↓reduceIte, octet, lengthOctet_toNat]
        simp only [labelOctets, List.length_cons, List.length_append] at upper
        rw [step]
        by_cases past : start < i + (label.octets.length + 1)
        · have stop : walkTo whole start left (i + (label.octets.length + 1)) =
              i + (label.octets.length + 1) := by
            cases left with
            | zero => rfl
            | succ left => simp only [walkTo, Nat.not_lt.mpr past.le, ↓reduceIte]
          rw [stop]
          refine ⟨fun same => by omega, ?_⟩
          rintro ⟨k, _, reached⟩
          cases k with
          | zero =>
              simp only [List.take_zero, labelOctets, List.length_nil] at reached
              omega
          | succ k =>
              simp only [List.take_succ_cons, labelOctets, List.length_cons,
                List.length_append] at reached
              omega
        · rw [ih left (i + (label.octets.length + 1)) next (by omega) (by omega) (by omega)]
          constructor
          · rintro ⟨k, bound, reached⟩
            refine ⟨k + 1, by simpa using bound, ?_⟩
            simp only [List.take_succ_cons, labelOctets, List.length_cons, List.length_append]
            omega
          · rintro ⟨k, bound, reached⟩
            cases k with
            | zero =>
                simp only [List.take_zero, labelOctets, List.length_nil] at reached
                omega
            | succ k =>
                refine ⟨k, by simpa using bound, ?_⟩
                simp only [List.take_succ_cons, labelOctets, List.length_cons,
                  List.length_append] at reached
                omega

/-- Containment by wire keys is containment by labels. -/
theorem isSubdomainOf_iff {name other : Name} :
    name.isSubdomainOf other = true ↔ other.lower <:+ name.lower := by
  have lengths : name.key.length = (labelOctets name.lower).length + 1 := by
    simp only [key, List.length_append, List.length_cons, List.length_nil]
  have positive : other.key.length = (labelOctets other.lower).length + 1 := by
    simp only [key, List.length_append, List.length_cons, List.length_nil]
  simp only [isSubdomainOf, keyIsUnder]
  split
  · next ends =>
      have suffix := List.isSuffixOf_iff_suffix.mp ends
      have short := suffix.length_le
      have walk := walkTo_eq_iff name.key name.lower (name.key.length - other.key.length)
        (name.key.length - other.key.length) 0 (by simp [key]) (Nat.zero_le _) (by omega) (by omega)
      rw [beq_iff_eq, walk]
      obtain ⟨front, split⟩ := suffix
      constructor
      · rintro ⟨k, _, reached⟩
        have divided : labelOctets (name.lower.take k) ++
            (labelOctets (name.lower.drop k) ++ [0]) = front ++ other.key := by
          rw [← List.append_assoc, ← labelOctets_append, List.take_append_drop]
          exact split.symm
        have width : (labelOctets (name.lower.take k)).length = front.length := by
          have total := congrArg List.length split
          simp only [List.length_append] at total
          omega
        have rest := (List.append_inj divided width).2
        have same := (labelOctets_zero_inj (x := []) (y := []) rest).1
        exact same ▸ List.drop_suffix k name.lower
      · rintro ⟨before, whole⟩
        refine ⟨before.length, by rw [← whole]; simp, ?_⟩
        rw [← whole, List.take_left]
        have total : (labelOctets name.lower).length =
            (labelOctets before).length + (labelOctets other.lower).length := by
          rw [← whole, labelOctets_append, List.length_append]
        omega
  · next apart =>
      refine ⟨fun h => by simp at h, fun inside => absurd ?_ apart⟩
      obtain ⟨before, whole⟩ := inside
      refine List.isSuffixOf_iff_suffix.mpr ⟨labelOctets before, ?_⟩
      simp only [key, ← whole, labelOctets_append, List.append_assoc]

/-! ### Canonical order -/

/-- `canon_key`, the sort key of a name: its lowercased labels from the root down. -/
def canonKey (name : Name) : List Octets := name.labels.reverse.map fun l => l.lower.octets

theorem canonKey_eq_lower (name : Name) :
    name.canonKey = (name.lower.map Label.octets).reverse := by
  simp only [canonKey, lower, List.map_map, List.map_reverse]
  rfl

theorem octets_injective : Function.Injective Label.octets := fun _ _ same => Label.ext same

theorem canonKey_inj {a b : Name} : a.canonKey = b.canonKey ↔ a.lower = b.lower := by
  rw [canonKey_eq_lower, canonKey_eq_lower, List.reverse_inj]
  exact (List.map_injective_iff.mpr octets_injective).eq_iff

theorem beq_iff_canonKey {a b : Name} : (a == b) = true ↔ a.canonKey = b.canonKey :=
  beq_iff.trans canonKey_inj.symm

theorem isSubdomainOf_iff_canonKey {name other : Name} :
    name.isSubdomainOf other = true ↔ other.canonKey <+: name.canonKey := by
  rw [isSubdomainOf_iff, canonKey_eq_lower, canonKey_eq_lower, List.reverse_prefix]
  constructor
  · rintro ⟨front, whole⟩
    exact ⟨front.map Label.octets, by rw [← whole, List.map_append]⟩
  · rintro ⟨front, whole⟩
    have count : front.length + other.lower.length = name.lower.length := by
      simpa using congrArg List.length whole
    refine ⟨name.lower.take front.length, ?_⟩
    have tails : (name.lower.drop front.length).map Label.octets =
        other.lower.map Label.octets := by
      rw [List.map_drop, ← whole, List.drop_left]
    rw [← (List.map_injective_iff.mpr octets_injective) tails, List.take_append_drop]

@[simp] theorem canonKey_length (name : Name) : name.canonKey.length = name.labels.length := by
  simp only [canonKey, List.length_map, List.length_reverse]

theorem canonKey_parent (name : Name) : name.parent.canonKey = name.canonKey.dropLast := by
  obtain ⟨labels⟩ := name
  cases labels with
  | nil => rfl
  | cons label rest => simp [canonKey, parent]

@[simp] theorem canonKey_cons (label : Label) (labels : List Label) :
    canonKey ⟨label :: labels⟩ = canonKey ⟨labels⟩ ++ [label.lower.octets] := by
  simp only [canonKey, List.reverse_cons, List.map_append, List.map_cons, List.map_nil]

theorem canonKey_drop (name : Name) (n : Nat) :
    canonKey ⟨name.labels.drop n⟩ = name.canonKey.take (name.labels.length - n) := by
  simp only [canonKey, List.reverse_drop, List.map_take]

end Trench.Wire.Name
