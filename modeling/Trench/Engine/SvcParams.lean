import Trench.Engine.Harden
import Trench.Wire.Extent

set_option autoImplicit false

/- Service parameters, and whether rewriting them keeps them valid. -/
namespace Trench.Engine

open Wire

/-- `mandatory`, which lists keys. -/
def mandatoryKey : UInt16 := 0

def keysIn : Octets → List UInt16
  | a :: b :: rest => join16 a b :: keysIn rest
  | _ => []

/-- A key that the mandatory parameter lists. -/
def Listed (params : List (UInt16 × Octets)) (key : UInt16) : Prop :=
  ∃ listing, (mandatoryKey, listing) ∈ params ∧ key ∈ keysIn listing

/-- What a client asks of parameters: ascending keys, hints of one whole address at least, and every
mandatory key there. -/
structure ValidParams (params : List (UInt16 × Octets)) : Prop where
  fits : ∀ param ∈ params, param.2.length ≤ 65535
  ascending : (params.map Prod.fst).Pairwise (· < ·)
  hints : ∀ param ∈ params, ∀ size, hintKeys.lookup param.1 = some size →
    param.2 ≠ [] ∧ size ∣ param.2.length
  listing : ∀ listing, (mandatoryKey, listing) ∈ params → 2 ∣ listing.length
  present : ∀ key, Listed params key → key ≠ mandatoryKey ∧ key ∈ params.map Prod.fst

instance (params : List (UInt16 × Octets)) (key : UInt16) : Decidable (Listed params key) :=
  decidable_of_iff (∃ param ∈ params, param.1 = mandatoryKey ∧ key ∈ keysIn param.2)
    ⟨fun ⟨param, held, zero, key⟩ => ⟨param.2, zero ▸ held, key⟩,
      fun ⟨_, held, key⟩ => ⟨_, held, rfl, key⟩⟩

theorem validParams_iff (params : List (UInt16 × Octets)) : ValidParams params ↔
    (∀ param ∈ params, param.2.length < 65536) ∧ (params.map Prod.fst).Pairwise (· < ·) ∧
      (∀ param ∈ params, ∀ size ∈ hintKeys.lookup param.1, param.2 ≠ [] ∧ size ∣ param.2.length) ∧
      ∀ param ∈ params, param.1 = mandatoryKey → 2 ∣ param.2.length ∧
        ∀ key ∈ keysIn param.2, key ≠ mandatoryKey ∧ key ∈ params.map Prod.fst := by
  constructor
  · intro valid
    refine ⟨fun param held => Nat.lt_succ_of_le (valid.fits param held), valid.ascending, valid.hints, ?_⟩
    intro param held zero
    have here : (mandatoryKey, param.2) ∈ params := zero ▸ held
    exact ⟨valid.listing param.2 here, fun key listed => valid.present key ⟨param.2, here, listed⟩⟩
  · rintro ⟨fits, ascending, hints, listing⟩
    refine ⟨fun param held => Nat.le_of_lt_succ (fits param held), ascending, hints, ?_, ?_⟩
    · exact fun octets held => (listing _ held rfl).1
    · exact fun key ⟨octets, held, listed⟩ => (listing _ held rfl).2 key listed

/-- The octets are whole parameters, one after another. -/
def Whole (raw : Octets) : Prop :=
  ∃ params, (∀ param ∈ params, param.2.length ≤ 65535) ∧ raw = optionsOctets params

/-- The addresses of a hint that a public name may have. -/
def publicOnes (lib : Addresses) (size : Nat) (val : Octets) : List Octets :=
  (chunks size val.length val).filter fun addr => !lib.isPrivate (lib.text addr)

/-- A parameter without its private addresses, and nothing where it has no others. -/
def scrubParam (lib : Addresses) (param : UInt16 × Octets) : Option (UInt16 × Octets) :=
  match hintKeys.lookup param.1 with
  | none => some param
  | some size =>
      if publicOnes lib size param.2 = [] then none
      else some (param.1, (publicOnes lib size param.2).flatten)

/-- Both ways to rewrite parameters keep them valid and leave out what they are there to leave out, and
octets that are no parameters stay as they are. -/
structure KeepsValid (lib : Addresses) (raw : Octets) : Prop where
  stripped : ∀ params, ValidParams params → raw = optionsOctets params → ∃ out,
    stripEch raw = optionsOctets out ∧ ValidParams out ∧ out = params.filter fun param => param.1 != echKey
  scrubbed : ∀ params, ValidParams params → raw = optionsOctets params → ∃ out,
    scrubHints lib raw = optionsOctets out ∧ ValidParams out ∧ out = params.filterMap (scrubParam lib) ∧
      ∀ param ∈ out, ∀ size, hintKeys.lookup param.1 = some size →
        ∀ addr ∈ chunks size param.2.length param.2, lib.isPrivate (lib.text addr) = false
  malformed : ¬Whole raw → stripEch raw = raw ∧ scrubHints lib raw = raw

/-! ### Whole parameters -/

section

variable {params : List (UInt16 × Octets)} {raw : Octets}

theorem iterParams_eq (fuel : Nat) (raw : Octets) : iterParams fuel raw = optionsLoop fuel raw := by
  induction fuel generalizing raw with
  | zero => rfl
  | succ fuel ih =>
      match raw with
      | a :: b :: c :: d :: rest =>
          rw [iterParams, optionsLoop]
          simp only [ih]
      | [] => rfl
      | [_] => rfl
      | [_, _] => rfl
      | [_, _, _] => rfl

theorem iterParams_octets (short : ∀ param ∈ params, param.2.length ≤ 65535) :
    iterParams (optionsOctets params).length (optionsOctets params) = params :=
  (iterParams_eq _ _).trans (parseOptions_optionsOctets params short)

theorem octets16_join16 (a b : UInt8) : octets16 (join16 a b) = [a, b] := by
  have high := a.toNat_lt
  have low := b.toNat_lt
  have value : (join16 a b).toNat = a.toNat * 256 + b.toNat := by
    rw [join16, UInt16.toNat_ofNat', Nat.mod_eq_of_lt (by omega)]
  have first : (a.toNat * 256 + b.toNat) / 256 = a.toNat := by omega
  have second : (a.toNat * 256 + b.toNat) % 256 = b.toNat := by omega
  rw [octets16, value, first, second, UInt8.ofNat_toNat, UInt8.ofNat_toNat]

/-- Parameters that are read are a part of the octets in front. -/
theorem optionsLoop_front (fuel : Nat) (raw : Octets) : optionsOctets (optionsLoop fuel raw) <+: raw := by
  induction fuel generalizing raw with
  | zero => exact List.nil_prefix
  | succ fuel ih =>
      match raw with
      | a :: b :: c :: d :: rest =>
          rw [optionsLoop]
          split
          · exact List.nil_prefix
          · next fits =>
              have width : (rest.take (join16 c d).toNat).length = (join16 c d).toNat := by
                rw [List.length_take]
                omega
              obtain ⟨tail, whole⟩ := ih (rest.drop (join16 c d).toNat)
              refine ⟨tail, ?_⟩
              rw [optionsOctets, width, UInt16.ofNat_toNat, octets16_join16, octets16_join16]
              simp only [List.cons_append, List.nil_append, List.append_assoc, whole, List.take_append_drop]
      | [] => exact List.nil_prefix
      | [_] => exact List.nil_prefix
      | [_, _] => exact List.nil_prefix
      | [_, _, _] => exact List.nil_prefix

theorem whole_of_consumed
    (consumed : ((iterParams raw.length raw).map fun param => 4 + param.2.length).sum = raw.length) : Whole raw := by
  rw [iterParams_eq] at consumed
  refine ⟨optionsLoop raw.length raw, (parseOptions_bounds raw).2, ?_⟩
  apply Eq.symm
  apply (optionsLoop_front raw.length raw).eq_of_length
  rw [length_optionsOctets]
  exact consumed

theorem optionsOctets_flatMap (params : List (UInt16 × Octets)) : (params.flatMap fun param =>
    octets16 param.1 ++ (octets16 (UInt16.ofNat param.2.length) ++ param.2)) = optionsOctets params := by
  induction params with
  | nil => rfl
  | cons param rest ih =>
      rw [List.flatMap_cons, ih]
      simp only [optionsOctets, List.append_assoc]

theorem optionsOctets_append (first second : List (UInt16 × Octets)) :
    optionsOctets (first ++ second) = optionsOctets first ++ optionsOctets second := by
  rw [← optionsOctets_flatMap, List.flatMap_append, optionsOctets_flatMap, optionsOctets_flatMap]

/-- Without the ech parameter, the others as they were. -/
theorem stripEch_octets (short : ∀ param ∈ params, param.2.length ≤ 65535) :
    stripEch (optionsOctets params) = optionsOctets (params.filter fun param => param.1 != echKey) := by
  rw [stripEch, hasEch, iterParams_octets short]
  have size : (params.map fun param => 4 + param.2.length).sum = (optionsOctets params).length :=
    (length_optionsOctets params).symm
  rw [size]
  by_cases found : (params.any fun param => param.1 == echKey) = true
  · rw [if_neg, optionsOctets_flatMap]
    rintro (none | long)
    · exact Bool.false_ne_true (none.symm.trans found)
    · exact long rfl
  · rw [if_pos (.inl (Bool.eq_false_iff.mpr found)), List.filter_eq_self.mpr]
    intro param held
    refine bne_iff_ne.mpr fun ech => found ?_
    exact List.any_eq_true.mpr ⟨param, held, beq_iff_eq.mpr ech⟩

theorem stripEch_malformed (malformed : ¬Whole raw) : stripEch raw = raw :=
  if_pos (.inr fun consumed => malformed (whole_of_consumed consumed))

/-! ### Addresses of a hint -/

theorem flatten_chunks {size fuel : Nat} {val : Octets} (positive : 0 < size) (enough : val.length ≤ fuel) :
    (chunks size fuel val).flatten = val := by
  induction fuel generalizing val with
  | zero => rw [List.length_eq_zero_iff.mp (Nat.le_zero.mp enough)]; rfl
  | succ fuel ih =>
      rw [chunks]
      split
      · next none => rw [none]; rfl
      · have less : (val.drop size).length ≤ fuel := by
          rw [List.length_drop]
          omega
        rw [List.flatten_cons, ih less, List.take_append_drop]

theorem length_of_mem_chunks {size fuel : Nat} {val : Octets} (whole : size ∣ val.length) :
    ∀ addr ∈ chunks size fuel val, addr.length = size := by
  induction fuel generalizing val with
  | zero => exact fun addr held => absurd held List.not_mem_nil
  | succ fuel ih =>
      rw [chunks]
      split
      · exact fun addr held => absurd held List.not_mem_nil
      · next some =>
          have positive : 0 < val.length := List.length_pos_iff.mpr some
          have fits : size ≤ val.length := Nat.le_of_dvd positive whole
          have rest : size ∣ (val.drop size).length := by
            rw [List.length_drop]
            exact Nat.dvd_sub whole (dvd_refl size)
          refine List.forall_mem_cons.mpr ⟨?_, ih rest⟩
          rw [List.length_take]
          omega

theorem chunks_flatten {size fuel : Nat} {addrs : List Octets} (positive : 0 < size)
    (each : ∀ addr ∈ addrs, addr.length = size) (enough : addrs.length ≤ fuel) :
    chunks size fuel addrs.flatten = addrs := by
  induction addrs generalizing fuel with
  | nil => cases fuel <;> rfl
  | cons addr rest ih =>
      obtain ⟨here, later⟩ := List.forall_mem_cons.mp each
      cases fuel with
      | zero => cases enough
      | succ fuel =>
          have some : (addr :: rest).flatten ≠ [] := by
            rw [List.flatten_cons]
            intro none
            rw [(List.append_eq_nil_iff.mp none).1] at here
            exact positive.ne here
          rw [chunks, if_neg some, List.flatten_cons, ← here, List.take_left, List.drop_left, here,
            ih later (Nat.le_of_succ_le_succ enough)]

/-! ### Scrubbing -/

/-- A hint with a private address in it. -/
def scrubs (lib : Addresses) (param : UInt16 × Octets) : Bool :=
  match hintKeys.lookup param.1 with
  | none => false
  | some size => (publicOnes lib size param.2).length != (chunks size param.2.length param.2).length

theorem hint_pos {key : UInt16} {size : Nat} (hint : hintKeys.lookup key = some size) : 0 < size := by
  rw [hintKeys, List.lookup_cons] at hint
  split at hint
  · cases hint
    decide
  · rw [List.lookup_cons] at hint
    split at hint
    · cases hint
      decide
    · cases hint

theorem octets_param (param : UInt16 × Octets) (rest : List (UInt16 × Octets)) (short : param.2.length ≤ 65535) :
    ∃ a b c d, optionsOctets (param :: rest) = a :: b :: c :: d :: (param.2 ++ optionsOctets rest) ∧
      join16 a b = param.1 ∧ (join16 c d).toNat = param.2.length ∧
      optionsOctets [param] = a :: b :: c :: d :: param.2 ∧ octets16 param.1 = [a, b] := by
  have width : (UInt16.ofNat param.2.length).toNat = param.2.length := by
    rw [UInt16.toNat_ofNat', Nat.mod_eq_of_lt (by omega)]
  refine ⟨_, _, _, _, rfl, join16_octets16 param.1, ?_, ?_, rfl⟩
  · rw [join16_octets16, width]
  · simp only [optionsOctets, octets16, List.cons_append, List.nil_append, List.append_nil]

/-- A parameter that is not scrubbed is kept as it is. -/
theorem scrubParam_clean {lib : Addresses} {param : UInt16 × Octets} (clean : scrubs lib param = false)
    (some : ∀ size, hintKeys.lookup param.1 = some size → param.2 ≠ []) : scrubParam lib param = .some param := by
  rw [scrubs] at clean
  rw [scrubParam]
  cases hint : hintKeys.lookup param.1 with
  | none => rfl
  | some size =>
      rw [hint] at clean
      dsimp only at clean ⊢
      have same : publicOnes lib size param.2 = chunks size param.2.length param.2 := by
        refine (List.filter_sublist).eq_of_length ?_
        rw [bne_eq_false_iff_eq] at clean
        exact clean
      have whole := flatten_chunks (hint_pos hint) (le_refl param.2.length)
      have kept : chunks size param.2.length param.2 ≠ [] := by
        intro none
        rw [none] at whole
        exact some size hint whole.symm
      rw [same, if_neg kept, whole]

/-- The loop over whole parameters whose hints are of whole addresses. -/
theorem scrubLoop_octets (lib : Addresses) (short : ∀ param ∈ params, param.2.length ≤ 65535)
    (hints : ∀ param ∈ params, ∀ size, hintKeys.lookup param.1 = some size →
      param.2 ≠ [] ∧ size ∣ param.2.length)
    {fuel : Nat} (enough : params.length ≤ fuel) (out : Octets) (changed : Bool) :
    scrubLoop lib fuel (optionsOctets params) out changed =
      some (out ++ optionsOctets (params.filterMap (scrubParam lib)), changed || params.any (scrubs lib)) := by
  induction params generalizing fuel out changed with
  | nil =>
      rw [List.filterMap_nil, List.any_nil, Bool.or_false]
      cases fuel <;> simp [optionsOctets, scrubLoop]
  | cons param rest ih =>
      obtain ⟨here, later⟩ := List.forall_mem_cons.mp short
      obtain ⟨hint, others⟩ := List.forall_mem_cons.mp hints
      cases fuel with
      | zero => cases enough
      | succ fuel =>
          have more := fun out changed => ih later others (Nat.le_of_succ_le_succ enough) out changed
          obtain ⟨a, b, c, d, octets, key, width, alone, halves⟩ := octets_param param rest here
          rw [octets, scrubLoop]
          simp only [key, width, List.take_left, List.drop_left, ne_eq, not_true_eq_false, ↓reduceIte]
          -- a parameter that is kept as it is adds its octets
          have keeps (clean : scrubs lib param = false) : scrubLoop lib fuel (optionsOctets rest)
              (out ++ a :: b :: c :: d :: param.2) changed =
              some (out ++ optionsOctets ((param :: rest).filterMap (scrubParam lib)),
                changed || (param :: rest).any (scrubs lib)) := by
            rw [more, List.filterMap_cons, scrubParam_clean clean fun size found => (hint size found).1,
              List.any_cons, clean, Bool.false_or, ← alone]
            dsimp only
            rw [← List.singleton_append (l := List.filterMap _ _), optionsOctets_append, List.append_assoc]
          cases found : hintKeys.lookup param.1 with
          | none =>
              dsimp only
              exact keeps (by rw [scrubs, found])
          | some size =>
              obtain ⟨some, whole⟩ := hint size found
              dsimp only
              rw [if_neg fun odd => odd (Nat.mod_eq_zero_of_dvd whole)]
              split
              · next fewer =>
                  have dirty : scrubs lib param = true := by
                    rw [scrubs, found]
                    exact bne_iff_ne.mpr fewer
                  rw [more, List.any_cons, dirty, Bool.true_or, Bool.or_true, List.filterMap_cons,
                    scrubParam, found]
                  change Option.some (out ++ (if publicOnes lib size param.2 = [] then [] else _) ++ _, true) = _
                  dsimp only
                  by_cases private' : publicOnes lib size param.2 = []
                  · rw [if_pos private', if_pos private', List.append_nil]
                  · rw [if_neg private', if_neg private']
                    dsimp only
                    rw [optionsOctets, halves]
                    simp only [List.append_assoc, List.cons_append, List.nil_append]
                    rfl
              · next same =>
                  refine keeps ?_
                  rw [scrubs, found]
                  exact bne_eq_false_iff_eq.mpr (not_not.mp same)

theorem filterMap_clean {lib : Addresses}
    (some : ∀ param ∈ params, ∀ size, hintKeys.lookup param.1 = some size → param.2 ≠ [])
    (clean : params.any (scrubs lib) = false) : params.filterMap (scrubParam lib) = params := by
  induction params with
  | nil => rfl
  | cons param rest ih =>
      obtain ⟨here, later⟩ := List.forall_mem_cons.mp some
      rw [List.any_cons, Bool.or_eq_false_iff] at clean
      rw [List.filterMap_cons, scrubParam_clean clean.1 here, ih later clean.2]

/-- Without the private addresses of the hints. -/
theorem scrubHints_octets (lib : Addresses) (valid : ValidParams params) :
    scrubHints lib (optionsOctets params) = optionsOctets (params.filterMap (scrubParam lib)) := by
  rw [scrubHints, scrubLoop_octets lib valid.fits valid.hints (length_le_optionsOctets params)]
  cases dirty : params.any (scrubs lib) with
  | true => rfl
  | false =>
      rw [filterMap_clean (fun param held size found => (valid.hints param held size found).1) dirty]
      rfl

/-- The loop comes to an end on whole parameters alone. -/
theorem whole_of_scrubLoop {lib : Addresses} {fuel : Nat} {out : Octets} {changed : Bool} {done : Octets × Bool}
    (ends : scrubLoop lib fuel raw out changed = some done) : Whole raw := by
  induction fuel generalizing raw out changed with
  | zero =>
      cases raw with
      | nil => exact ⟨[], fun param held => absurd held List.not_mem_nil, rfl⟩
      | cons a rest =>
          rw [scrubLoop] at ends
          · cases ends
          · exact List.cons_ne_nil a rest
          · rintro fuel _ _ _ _ _ ⟨⟩
  | succ fuel ih =>
      match raw with
      | [] => exact ⟨[], fun param held => absurd held List.not_mem_nil, rfl⟩
      | [_] => cases ends
      | [_, _] => cases ends
      | [_, _, _] => cases ends
      | a :: b :: c :: d :: rest =>
          rw [scrubLoop] at ends
          dsimp only at ends
          split at ends
          · cases ends
          · next fits =>
              have width : (rest.take (join16 c d).toNat).length = (join16 c d).toNat := not_not.mp fits
              have bound := (join16 c d).toNat_lt
              have extends' (more : Whole (rest.drop (join16 c d).toNat)) : Whole (a :: b :: c :: d :: rest) := by
                obtain ⟨params, short, octets⟩ := more
                refine ⟨(join16 a b, rest.take (join16 c d).toNat) :: params, ?_, ?_⟩
                · refine List.forall_mem_cons.mpr ⟨?_, short⟩
                  change (rest.take _).length ≤ 65535
                  omega
                · rw [optionsOctets, width, UInt16.ofNat_toNat, octets16_join16, octets16_join16, ← octets]
                  simp only [List.cons_append, List.nil_append, List.take_append_drop]
              apply extends'
              split at ends
              · exact ih ends
              · split at ends
                · cases ends
                · split at ends
                  · exact ih ends
                  · exact ih ends

theorem scrubHints_malformed (lib : Addresses) (malformed : ¬Whole raw) : scrubHints lib raw = raw := by
  rw [scrubHints]
  cases ends : scrubLoop lib raw.length raw [] false with
  | none => rfl
  | some done => exact absurd (whole_of_scrubLoop ends) malformed

/-! ### What is left is valid -/

theorem optionsOctets_inj {others : List (UInt16 × Octets)} (short : ∀ param ∈ params, param.2.length ≤ 65535)
    (few : ∀ param ∈ others, param.2.length ≤ 65535) (same : optionsOctets params = optionsOctets others) :
    params = others := by
  rw [← parseOptions_optionsOctets params short, same, parseOptions_optionsOctets others few]

/-- Parameters that are changed one by one, the listing apart, stay valid if no listed one is lost. -/
theorem validParams_filterMap_iff {change : UInt16 × Octets → Option (UInt16 × Octets)} (valid : ValidParams params)
    (kept : ∀ param done, change param = some done → done.1 = param.1 ∧ done.2.length ≤ param.2.length)
    (listing : ∀ param, param.1 = mandatoryKey → change param = some param)
    (hints : ∀ param ∈ params, ∀ done, change param = some done →
      ∀ size, hintKeys.lookup done.1 = some size → done.2 ≠ [] ∧ size ∣ done.2.length) :
    ValidParams (params.filterMap change) ↔
      ∀ key, Listed params key → key ∈ (params.filterMap change).map Prod.fst := by
  have listings (octets : Octets) :
      (mandatoryKey, octets) ∈ params.filterMap change ↔ (mandatoryKey, octets) ∈ params := by
    rw [List.mem_filterMap]
    constructor
    · rintro ⟨param, held, changed⟩
      have key : mandatoryKey = param.1 := (kept param _ changed).1
      rw [listing param key.symm] at changed
      cases changed
      exact held
    · exact fun held => ⟨_, held, listing _ rfl⟩
  have listed (key : UInt16) : Listed (params.filterMap change) key ↔ Listed params key :=
    exists_congr fun octets => and_congr (listings octets) Iff.rfl
  constructor
  · exact fun still key there => (still.present key ((listed key).mpr there)).2
  · intro there
    refine ⟨?_, ?_, ?_, ?_, ?_⟩
    · intro done held
      obtain ⟨param, before, changed⟩ := List.mem_filterMap.mp held
      exact (kept param done changed).2.trans (valid.fits param before)
    · have order := List.pairwise_map.mp valid.ascending
      refine List.pairwise_map.mpr (order.filterMap change ?_)
      intro first second less one hone two htwo
      rw [(kept first one hone).1, (kept second two htwo).1]
      exact less
    · intro done held
      obtain ⟨param, before, changed⟩ := List.mem_filterMap.mp held
      exact hints param before done changed
    · exact fun octets held => valid.listing octets ((listings octets).mp held)
    · intro key still
      exact ⟨(valid.present key ((listed key).mp still)).1, there key ((listed key).mp still)⟩

theorem validParams_filter_iff (valid : ValidParams params) :
    ValidParams (params.filter fun param => param.1 != echKey) ↔ ¬Listed params echKey := by
  rw [← List.filterMap_eq_filter, validParams_filterMap_iff valid, List.filterMap_eq_filter]
  · constructor
    · intro there ech
      obtain ⟨param, held, key⟩ := List.mem_map.mp (there echKey ech)
      exact absurd key (bne_iff_ne.mp (List.mem_filter.mp held).2)
    · intro none key listed
      obtain ⟨param, held, rfl⟩ := List.mem_map.mp (valid.present key listed).2
      refine List.mem_map.mpr ⟨param, List.mem_filter.mpr ⟨held, bne_iff_ne.mpr ?_⟩, rfl⟩
      exact fun ech => none (ech ▸ listed)
  · intro param done changed
    obtain ⟨rfl, -⟩ := Option.guard_eq_some_iff.mp changed
    exact ⟨rfl, le_refl _⟩
  · intro param key
    refine Option.guard_eq_some_iff.mpr ⟨rfl, ?_⟩
    rw [key]
    decide
  · intro param held done changed
    obtain ⟨rfl, -⟩ := Option.guard_eq_some_iff.mp changed
    exact valid.hints param held

section

variable {lib : Addresses} {param done : UInt16 × Octets} {size : Nat}

theorem length_of_mem_publicOnes {val : Octets} (whole : size ∣ val.length) :
    ∀ addr ∈ publicOnes lib size val, addr.length = size :=
  fun addr held => length_of_mem_chunks whole addr (List.mem_filter.mp held).1

theorem scrubParam_hint (hint : hintKeys.lookup param.1 = some size) (left : scrubParam lib param = some done) :
    publicOnes lib size param.2 ≠ [] ∧ done = (param.1, (publicOnes lib size param.2).flatten) := by
  rw [scrubParam, hint] at left
  dsimp only at left
  split at left
  · cases left
  · next some => exact ⟨some, (Option.some.inj left).symm⟩

theorem scrubParam_other (other : hintKeys.lookup param.1 = none) : scrubParam lib param = some param := by
  rw [scrubParam, other]

/-- The parameter that is left keeps its key, and takes no more octets. -/
theorem scrubParam_kept (left : scrubParam lib param = some done) :
    done.1 = param.1 ∧ done.2.length ≤ param.2.length := by
  cases hint : hintKeys.lookup param.1 with
  | none =>
      rw [scrubParam_other hint] at left
      cases left
      exact ⟨rfl, le_refl _⟩
  | some size =>
      obtain ⟨-, rfl⟩ := scrubParam_hint hint left
      refine ⟨rfl, ?_⟩
      have fewer : (publicOnes lib size param.2).flatten.Sublist (chunks size param.2.length param.2).flatten :=
        List.filter_sublist.flatten
      rw [flatten_chunks (hint_pos hint) (le_refl _)] at fewer
      exact fewer.length_le

/-- A hint that is left is of public addresses. -/
theorem chunks_scrubParam (hint : hintKeys.lookup done.1 = some size) (left : scrubParam lib param = some done)
    (whole : size ∣ param.2.length) : chunks size done.2.length done.2 = publicOnes lib size param.2 ∧
      done.2 ≠ [] ∧ size ∣ done.2.length := by
  rw [(scrubParam_kept left).1] at hint
  obtain ⟨some, rfl⟩ := scrubParam_hint hint left
  have each : ∀ addr ∈ publicOnes lib size param.2, addr.length = size := length_of_mem_publicOnes whole
  have total : (publicOnes lib size param.2).flatten.length = (publicOnes lib size param.2).length * size := by
    rw [List.length_flatten, List.map_congr_left each, List.map_const', List.sum_replicate, smul_eq_mul]
  have positive := hint_pos hint
  have count : 0 < (publicOnes lib size param.2).length := List.length_pos_iff.mpr some
  refine ⟨chunks_flatten positive each ?_, ?_, ?_⟩
  · rw [total]
    exact Nat.le_mul_of_pos_right _ positive
  · rw [← List.length_pos_iff, total]
    exact Nat.mul_pos count positive
  · rw [total]
    exact dvd_mul_left _ _

theorem validParams_scrub_iff (valid : ValidParams params) :
    ValidParams (params.filterMap (scrubParam lib)) ↔ ∀ key size, hintKeys.lookup key = some size →
      Listed params key → ∃ val, (key, val) ∈ params ∧ publicOnes lib size val ≠ [] := by
  rw [validParams_filterMap_iff valid fun param done => scrubParam_kept]
  · constructor
    · intro there key size hint listed
      obtain ⟨done, held, rfl⟩ := List.mem_map.mp (there key listed)
      obtain ⟨param, before, left⟩ := List.mem_filterMap.mp held
      have same := (scrubParam_kept left).1
      rw [same] at hint ⊢
      exact ⟨param.2, before, (scrubParam_hint hint left).1⟩
    · intro some key listed
      cases hint : hintKeys.lookup key with
      | none =>
          obtain ⟨param, held, rfl⟩ := List.mem_map.mp (valid.present key listed).2
          exact List.mem_map.mpr ⟨param, List.mem_filterMap.mpr ⟨param, held, scrubParam_other hint⟩, rfl⟩
      | some size =>
          obtain ⟨val, held, public'⟩ := some key size hint listed
          refine List.mem_map.mpr ⟨(key, (publicOnes lib size val).flatten), ?_, rfl⟩
          refine List.mem_filterMap.mpr ⟨(key, val), held, ?_⟩
          rw [scrubParam, hint]
          exact if_neg public'
  · intro param key
    apply scrubParam_other
    rw [key]
    decide
  · intro param held done left size hint
    have whole := (valid.hints param held size ((scrubParam_kept left).1 ▸ hint)).2
    exact (chunks_scrubParam hint left whole).2

end

/-! ### When they stay valid -/

/-- Rewriting keeps parameters valid just when the mandatory ones are neither ech nor a hint of private
addresses only. -/
theorem keepsValid_iff (lib : Addresses) (raw : Octets) :
    KeepsValid lib raw ↔ ∀ params, ValidParams params → raw = optionsOctets params →
      ¬Listed params echKey ∧ ∀ key size, hintKeys.lookup key = some size → Listed params key →
        ∃ val, (key, val) ∈ params ∧ publicOnes lib size val ≠ [] := by
  constructor
  · intro keeps params valid octets
    refine ⟨(validParams_filter_iff valid).mp ?_, (validParams_scrub_iff valid).mp ?_⟩
    · obtain ⟨out, -, still, rfl⟩ := keeps.stripped params valid octets
      exact still
    · obtain ⟨out, -, still, rfl, -⟩ := keeps.scrubbed params valid octets
      exact still
  · intro condition
    refine ⟨?_, ?_, ?_⟩
    · intro params valid octets
      refine ⟨_, ?_, (validParams_filter_iff valid).mpr (condition params valid octets).1, rfl⟩
      rw [octets, stripEch_octets valid.fits]
    · intro params valid octets
      refine ⟨_, ?_, (validParams_scrub_iff valid).mpr (condition params valid octets).2, rfl, ?_⟩
      · rw [octets, scrubHints_octets lib valid]
      · intro done held size hint addr part
        obtain ⟨param, before, left⟩ := List.mem_filterMap.mp held
        have whole := (valid.hints param before size ((scrubParam_kept left).1 ▸ hint)).2
        rw [(chunks_scrubParam hint left whole).1] at part
        have public' := (List.mem_filter.mp part).2
        rw [Bool.not_eq_true'] at public'
        exact public'
    · exact fun malformed => ⟨stripEch_malformed malformed, scrubHints_malformed lib malformed⟩

end

/-- `mandatory=ech alpn=h2 ech=01`, of a record that a client reads only if it knows ech. -/
def mandatoryEch : List (UInt16 × Octets) := [(0, [0, 5]), (1, [2, 104, 50]), (5, [1])]

def tenNet : Addresses where
  text addr := addr.map fun octet => Char.ofNat octet.toNat
  isPrivate text := text.head? == some (Char.ofNat 10)

theorem mandatoryEch_valid : ValidParams mandatoryEch := by
  refine (validParams_iff mandatoryEch).mpr ⟨?_, by decide, by decide, ?_⟩
  · simp [mandatoryEch]
  · have ech : keysIn [0, 5] = [5] := rfl
    simp [mandatoryEch, mandatoryKey, ech]

theorem not_keepsValid_mandatoryEch : ¬KeepsValid tenNet (optionsOctets mandatoryEch) := by
  intro keeps
  obtain ⟨out, octets, valid, rfl⟩ := keeps.stripped mandatoryEch mandatoryEch_valid rfl
  exact (validParams_filter_iff mandatoryEch_valid).mp valid (by decide)

-- one mandatory hint, of a private address
example : scrubHints tenNet (optionsOctets [(0, [0, 4]), (1, [2, 104, 50]), (4, [10, 0, 0, 1])]) =
    optionsOctets [(0, [0, 4]), (1, [2, 104, 50])] := by decide +kernel

end Trench.Engine
