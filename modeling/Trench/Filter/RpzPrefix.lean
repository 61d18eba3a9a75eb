import Mathlib
import Trench.Filter.AddressRules
import Trench.Lib.Digits

set_option autoImplicit false

/- Networks in owner names: `32.5.4.3.2.rpz-ip` is 2.3.4.5/32. The parts of the address stand in
reverse, and `zz` stands for one run of zero groups. -/

namespace Trench.Filter

open Wire IgnoreCase

/-- Characters as `re` and `str` take them. On ASCII they are what they look like. -/
structure Characters where
  /-- The value of a character that `\d` matches. -/
  digit : Char → Option Nat
  isDigit : Char → Bool
  lower : Text → Text
  digit_ascii : ∀ c : Char, c.toNat < 128 → digit c = if Name.isDigit c then some (c.toNat - 48) else none
  isDigit_ascii : ∀ c : Char, c.toNat < 128 → isDigit c = Name.isDigit c
  lower_ascii : ∀ s : Text, (∀ c ∈ s, c.toNat < 128) → lower s = Name.lowerText s

/-- Characters with no digits and no letters outside ASCII. -/
def Characters.ascii : Characters where
  digit c := if Name.isDigit c then some (c.toNat - 48) else none
  isDigit := Name.isDigit
  lower := Name.lowerText
  digit_ascii _ _ := rfl
  isDigit_ascii _ _ := rfl
  lower_ascii _ _ := rfl

def stripDots (s : Text) : Text := ((s.dropWhile (· == '.')).reverse.dropWhile (· == '.')).reverse

def zz : Text := ['z', 'z']

/-- The groups of a match of `_RPZ_IP`; `$` also stands before a newline at the end. -/
def rpzIp (u : Characters) (s : Text) : Option (Text × Text) :=
  let length := s.takeWhile fun c => (u.digit c).isSome
  match s.drop length.length with
  | '.' :: more =>
      let body := if more.getLast? = some '\n' then more.dropLast else more
      let cut := body.length - 7
      let rest := body.take cut
      if 1 ≤ length.length ∧ length.length ≤ 3 ∧ rest ≠ [] ∧ '\n' ∉ rest ∧
          spells ".rpz-ip".toList (body.drop cut) = true then some (length, rest)
      else none
  | _ => none

/-- Groups joined by colons, with `::` for the first `zz`. -/
def spread (groups : List Text) : Text :=
  if zz ∈ groups then
    let cut := groups.idxOf zz
    [':'].intercalate (groups.take cut) ++ ':' :: ':' :: [':'].intercalate (groups.drop (cut + 1))
  else [':'].intercalate groups

/-- The network in an owner name. The text of it is `str` of the library, which is not the same for
every version of Python. -/
def rpzIpPrefix (u : Characters) (str : IpNetwork → Text) (owner : Text) : Option Text :=
  match rpzIp u (u.lower (stripDots owner)) with
  | none => none
  | some (length, rest) =>
      let parts := rest.splitOn '.'
      let bits := Nat.toDigits 10 (Digits.value 10 (length.filterMap u.digit))
      let address := if parts.length = 4 ∧ (parts.all fun p => p ≠ [] && p.all u.isDigit) = true then
          ['.'].intercalate parts.reverse
        else spread parts.reverse
      (ipNetwork (address ++ '/' :: bits)).map str

example : rpzIpPrefix .ascii (fun net => Nat.toDigits 10 net.prefixlen) "48.zz.db8.2001.rpz-ip".toList =
    some "48".toList := by decide +kernel

/-! ### Owner names -/

/-- A run of zero groups. -/
structure ZeroRun (groups : List Nat) where
  start : Nat
  count : Nat
  some : 0 < count
  zeros : (groups.drop start).take count = List.replicate count 0

/-- The texts of groups, with `zz` for the run if there is one. -/
def groupTexts (groups : List Nat) : Option (ZeroRun groups) → List Text
  | none => groups.map hexGroup
  | some run => (groups.take run.start).map hexGroup ++ zz :: (groups.drop (run.start + run.count)).map hexGroup

/-- The parts of a network's address. -/
def rpzParts (net : IpNetwork) (run : Option (ZeroRun (groupsOf (addressOctets net.six net.value)))) : List Text :=
  if net.six then groupTexts (groupsOf (addressOctets net.six net.value)) run
  else (addressOctets net.six net.value).map decimalOctet

/-- The owner name that stands for a network. -/
def rpzOwner (net : IpNetwork) (run : Option (ZeroRun (groupsOf (addressOctets net.six net.value)))) : Text :=
  Nat.toDigits 10 net.prefixlen ++ '.' :: (['.'].intercalate (rpzParts net run).reverse ++ ".rpz-ip".toList)

/-! ### Values -/

theorem addressValue_range (n v : Nat) (bound : v < 256 ^ n) :
    addressValue ((List.range n).map fun i => UInt8.ofNat (v / 256 ^ (n - 1 - i))) = v := by
  induction n generalizing v with
  | zero =>
      rw [Nat.pow_zero] at bound
      obtain rfl : v = 0 := by omega
      rfl
  | succ n ih =>
      have front : (List.range n).map (fun i => UInt8.ofNat (v / 256 ^ (n + 1 - 1 - i))) =
          (List.range n).map fun i => UInt8.ofNat (v / 256 / 256 ^ (n - 1 - i)) := by
        apply List.map_congr_left
        intro i held
        have small := List.mem_range.mp held
        rw [Nat.div_div_eq_div_mul, ← Nat.pow_succ']
        congr 3
        omega
      have high : v / 256 < 256 ^ n := by
        rw [Nat.div_lt_iff_lt_mul (by decide), ← Nat.pow_succ]
        exact bound
      rw [List.range_succ, List.map_append, List.map_singleton, addressValue_append, front, ih _ high]
      simp
      omega

theorem addressValue_addressOctets {six : Bool} {value : Nat} (bound : value < 2 ^ addressBits six) :
    addressValue (addressOctets six value) = value := by
  unfold addressOctets
  apply addressValue_range
  cases six
  · exact bound
  · exact bound

theorem length_addressOctets (six : Bool) (value : Nat) : (addressOctets six value).length = addressBits six / 8 := by
  rw [addressOctets, List.length_map, List.length_range]

/-- The digits of a prefix length are read back. -/
theorem prefixOfDigits_toDigits {six : Bool} {n : Nat} (fits : n ≤ addressBits six) :
    prefixOfDigits six (Nat.toDigits 10 n) = some n := by
  have all : ∀ six, ∀ n < addressBits six + 1, prefixOfDigits six (Nat.toDigits 10 n) = some n := by decide +kernel
  exact all six n (by omega)

theorem digits_slash (n : Nat) : '/' ∉ Nat.toDigits 10 n :=
  fun held => absurd (Nat.isDigit_of_mem_toDigits (by decide) (by decide) held) (by decide)

theorem addressBits_le (six : Bool) : addressBits six ≤ 128 := by cases six <;> decide

theorem splitOn_slash {a : Text} {n : Nat} (slash : '/' ∉ a) :
    (a ++ '/' :: Nat.toDigits 10 n).splitOn '/' = [a, Nat.toDigits 10 n] := by
  have joined : a ++ '/' :: Nat.toDigits 10 n = ['/'].intercalate [a, Nat.toDigits 10 n] := by
    simp [List.intercalate, List.intersperse]
  rw [joined]
  refine List.splitOn_intercalate '/' ?_ (List.cons_ne_nil _ _)
  simp only [List.mem_cons, List.not_mem_nil, or_false]
  rintro part (rfl | rfl)
  · exact slash
  · exact digits_slash n

/-- An address and a prefix length are the network that they were written from. -/
theorem networkOf_written {address : Text → Option IpAddress} {six : Bool} {a : Text} {n : Nat}
    (slash : '/' ∉ a) (fits : n ≤ addressBits six) :
    networkOf address six (a ++ '/' :: Nat.toDigits 10 n) =
      (address a).map fun addr => ⟨six, masked six addr.value n, n⟩ := by
  unfold networkOf
  rw [splitOn_slash slash]
  dsimp only
  rw [makeNetmask, prefixOfDigits_toDigits fits]
  cases address a <;> rfl

/-! ### Reading an owner name -/

theorem forall_mem_intercalate {holds : Char → Prop} {sep : Char} (between : holds sep) {parts : List Text}
    (each : ∀ p ∈ parts, ∀ c ∈ p, holds c) : ∀ c ∈ [sep].intercalate parts, holds c := by
  induction parts with
  | nil => simp [List.intercalate]
  | cons p parts ih =>
      have tail := ih fun q held => each q (List.mem_cons_of_mem p held)
      have first := each p List.mem_cons_self
      cases parts with
      | nil => simpa [List.intercalate] using first
      | cons q parts =>
          have joined : [sep].intercalate (p :: q :: parts) = p ++ sep :: [sep].intercalate (q :: parts) := by
            simp [List.intercalate, List.intersperse]
          rw [joined]
          intro c held
          rcases List.mem_append.mp held with held | held
          · exact first c held
          · rcases List.mem_cons.mp held with rfl | held
            · exact between
            · exact tail c held

/-- A character of an owner name: lower-case ASCII, and no newline. -/
def Small (c : Char) : Prop := c.toNat < 128 ∧ c.toLower = c ∧ c ≠ '\n'

theorem small_dot : Small '.' := ⟨by decide, rfl, by decide⟩

theorem small_suffix : ∀ c ∈ ".rpz-ip".toList, Small c := by simp [Small]

theorem small_of_isDigit {c : Char} (digit : c.isDigit = true) : Small c ∧ Name.isDigit c = true := by
  have bounds : 48 ≤ c.toNat ∧ c.toNat ≤ 57 := by
    simp only [Char.isDigit, Bool.and_eq_true, decide_eq_true_eq] at digit
    exact ⟨UInt32.le_iff_toNat_le.mp digit.1, UInt32.le_iff_toNat_le.mp digit.2⟩
  have plain : c.isUpper = false := by
    rw [Char.isUpper, decide_eq_false_iff_not]
    rintro ⟨upper, -⟩
    have high : 65 ≤ c.toNat := UInt32.le_iff_toNat_le.mp upper
    omega
  refine ⟨⟨by omega, Char.toLower_eq_of_not_isUpper (by rw [plain]; decide), ?_⟩, ?_⟩
  · rintro rfl
    exact absurd bounds.1 (by decide)
  · exact digit

theorem small_digits {n : Nat} : ∀ c ∈ Nat.toDigits 10 n, Small c ∧ Name.isDigit c = true :=
  fun _ held => small_of_isDigit (Nat.isDigit_of_mem_toDigits (by decide) (by decide) held)

theorem value_digits {n : Nat} (fits : n ≤ 128) :
    Digits.value 10 ((Nat.toDigits 10 n).map fun c => c.toNat - 48) = n := by
  have all : ∀ n < 129, Digits.value 10 ((Nat.toDigits 10 n).map fun c => c.toNat - 48) = n := by decide +kernel
  exact all n (by omega)

/-- A length, the reversed parts and the suffix are found in the name that they make. -/
theorem rpzIp_owner (u : Characters) {n : Nat} (fits : n ≤ 128) {rest : Text} (filled : rest ≠ [])
    (small : ∀ c ∈ rest, Small c) :
    rpzIp u (u.lower (stripDots (Nat.toDigits 10 n ++ '.' :: (rest ++ ".rpz-ip".toList)))) =
      some (Nat.toDigits 10 n, rest) := by
  have digits := small_digits (n := n)
  generalize written : Nat.toDigits 10 n = length at *
  have short : 1 ≤ length.length ∧ length.length ≤ 3 := by
    rw [← written, Nat.length_toDigits_le_iff (by decide) (by decide)]
    exact ⟨Nat.length_toDigits_pos, by omega⟩
  have dotless : ∀ c ∈ length, c ≠ '.' := by
    rintro c held rfl
    exact absurd (digits '.' held).2 (by decide)
  have all : ∀ c ∈ length ++ '.' :: (rest ++ ".rpz-ip".toList), Small c := by
    simp only [List.mem_append, List.mem_cons]
    rintro c (held | rfl | held | held)
    · exact (digits c held).1
    · exact small_dot
    · exact small c held
    · exact small_suffix c held
  have bare : stripDots (length ++ '.' :: (rest ++ ".rpz-ip".toList)) = length ++ '.' :: (rest ++ ".rpz-ip".toList) := by
    obtain ⟨c, length', rfl⟩ := List.exists_cons_of_length_pos short.1
    have first : (c == '.') = false := beq_false_of_ne (dotless c List.mem_cons_self)
    have turned : (c :: length' ++ '.' :: (rest ++ ".rpz-ip".toList)).reverse =
        'p' :: (c :: length' ++ '.' :: (rest ++ ".rpz-i".toList)).reverse := by simp
    rw [stripDots, List.cons_append, List.dropWhile_cons, if_neg (by simp [first]), ← List.cons_append, turned,
      List.dropWhile_cons, if_neg (by decide), ← turned, List.reverse_reverse]
  have lower : u.lower (length ++ '.' :: (rest ++ ".rpz-ip".toList)) = length ++ '.' :: (rest ++ ".rpz-ip".toList) := by
    rw [u.lower_ascii _ fun c held => (all c held).1, Name.lowerText]
    exact (List.map_congr_left fun c held => (all c held).2.1).trans (List.map_id _)
  have front : (length ++ '.' :: (rest ++ ".rpz-ip".toList)).takeWhile (fun c => (u.digit c).isSome) = length := by
    have read : ∀ c ∈ length, (u.digit c).isSome = true := by
      intro c held
      rw [u.digit_ascii c (digits c held).1.1, if_pos (digits c held).2]
      rfl
    have stop : (u.digit '.').isSome = false := by
      rw [u.digit_ascii '.' small_dot.1]
      rfl
    rw [List.takeWhile_append_of_pos read, List.takeWhile_cons, if_neg (by simp [stop]), List.append_nil]
  have last : (rest ++ ".rpz-ip".toList).getLast? = some 'p' := by simp
  have size : (rest ++ ".rpz-ip".toList).length - 7 = rest.length := by simp
  rw [bare, lower, rpzIp, front, List.drop_left]
  dsimp only
  split
  · next more same =>
      obtain rfl : rest ++ ".rpz-ip".toList = more := (List.cons.inj same).2
      have whole : ¬ some 'p' = some '\n' := by decide
      simp only [last, if_neg whole, size, List.take_left, List.drop_left]
      exact if_pos ⟨short.1, short.2, filled, fun held => (small _ held).2.2 rfl, by decide⟩
  · next other => exact absurd rfl (other (rest ++ ".rpz-ip".toList))

/-- Parts that hold no dot are found again, in their order, between the reversed dots. -/
theorem splitOn_reversed {parts : List Text} (filled : parts ≠ []) (dotless : ∀ p ∈ parts, '.' ∉ p) :
    (['.'].intercalate parts.reverse).splitOn '.' = parts.reverse :=
  List.splitOn_intercalate '.' (fun p held => dotless p (List.mem_reverse.mp held)) (by simpa using filled)

/-! ### The parts of an address -/

theorem decimalOctet_spec (o : UInt8) : decimalOctet o ≠ [] ∧ ∀ c ∈ decimalOctet o, Name.isDigit c = true := by
  have read := parseDecimalOctet_decimalOctet o
  unfold parseDecimalOctet at read
  dsimp only at read
  split at read
  · next good => exact ⟨good.1, List.all_eq_true.mp good.2.1⟩
  · cases read

theorem isDigit_of_digit {c : Char} (digit : Name.isDigit c = true) : c.isDigit = true := digit

theorem hexGroup_mem {g : Nat} (small : g < 65536) {c : Char} (held : c ∈ hexGroup g) :
    ∃ d < 16, c = Nat.digitChar d := by
  have digit (m : Nat) : ∃ d < 16, Nat.digitChar (m % 16) = Nat.digitChar d :=
    ⟨m % 16, Nat.mod_lt m (by decide), rfl⟩
  unfold hexGroup at held
  split at held
  · obtain rfl := List.mem_singleton.mp held
    exact digit g
  · split at held
    · simp only [List.mem_cons, List.not_mem_nil, or_false] at held
      rcases held with rfl | rfl <;> exact digit _
    · split at held
      · simp only [List.mem_cons, List.not_mem_nil, or_false] at held
        rcases held with rfl | rfl | rfl <;> exact digit _
      · simp only [List.mem_cons, List.not_mem_nil, or_false] at held
        rcases held with rfl | rfl | rfl | rfl
        · exact ⟨g / 4096, by omega, rfl⟩
        all_goals exact digit _

theorem small_digitChar {d : Nat} (small : d < 16) : Small (Nat.digitChar d) ∧ Nat.digitChar d ≠ 'z' ∧
    Nat.digitChar d ≠ '/' ∧ Nat.digitChar d ≠ '%' ∧ Nat.digitChar d ≠ '.' := by
  interval_cases d <;> exact ⟨⟨by decide, rfl, by decide⟩, by decide, by decide, by decide, by decide⟩

theorem hexGroup_small {g : Nat} (small : g < 65536) : ∀ c ∈ hexGroup g,
    Small c ∧ c ≠ 'z' ∧ c ≠ '/' ∧ c ≠ '%' ∧ c ≠ '.' := by
  intro c held
  obtain ⟨d, low, rfl⟩ := hexGroup_mem small held
  exact small_digitChar low

theorem zz_not_mem {groups : List Nat} (small : ∀ g ∈ groups, g < 65536) : zz ∉ groups.map hexGroup := by
  intro held
  obtain ⟨g, inside, same⟩ := List.mem_map.mp held
  have z : 'z' ∈ hexGroup g := by
    rw [same]
    decide
  exact (hexGroup_small (small g inside) 'z' z).2.1 rfl

/-- Groups written out in full, or around a run of zeros, are read as the address. -/
theorem inetPton6_spread {octets : Octets} (sixteen : octets.length = 16) (run : Option (ZeroRun (groupsOf octets))) :
    inetPton6 (spread (groupTexts (groupsOf octets) run)) = some octets := by
  obtain ⟨count, small, back⟩ := groupsOf_spec 8 octets sixteen
  cases run with
  | none =>
      have filled : groupsOf octets ≠ [] := fun none => by simp [none] at count
      rw [groupTexts, spread, if_neg (zz_not_mem small), ← joinGroups]
      simp only [inetPton6, (plain_joinGroups _ small).1.1, splitOn_joinGroups _ filled small,
        parseGroups_hexGroups true _ small, back, Option.bind_eq_bind, Option.bind_some, sixteen, ↓reduceIte]
  | some run =>
      obtain ⟨start, zeros, positive, run⟩ := run
      rw [groupTexts]
      dsimp only
      generalize groupsOf octets = groups at *
      have split : groups = groups.take start ++ (List.replicate zeros 0 ++ groups.drop (start + zeros)) := by
        rw [← run, ← List.drop_drop, List.take_append_drop, List.take_append_drop]
      have leftSmall : ∀ g ∈ groups.take start, g < 65536 := fun g held => small g (List.mem_of_mem_take held)
      have rightSmall : ∀ g ∈ groups.drop (start + zeros), g < 65536 :=
        fun g held => small g (List.mem_of_mem_drop held)
      have total := congrArg List.length split
      simp only [List.length_append, List.length_replicate, count] at total
      have cut : ((groups.take start).map hexGroup ++ zz :: (groups.drop (start + zeros)).map hexGroup).idxOf zz =
          ((groups.take start).map hexGroup).length := by
        rw [List.idxOf_append_of_notMem (zz_not_mem leftSmall), List.idxOf_cons_self, Nat.add_zero]
      have right : ((groups.take start).map hexGroup ++ zz :: (groups.drop (start + zeros)).map hexGroup).drop
          (((groups.take start).map hexGroup).length + 1) = (groups.drop (start + zeros)).map hexGroup := by
        rw [← List.drop_drop, List.drop_left, List.drop_one, List.tail_cons]
      have short : ((groups.take start).flatMap octetsOfGroup).length +
          ((groups.drop (start + zeros)).flatMap octetsOfGroup).length ≤ 14 := by
        rw [length_flatMap_groups, length_flatMap_groups]
        omega
      have whole := inetPton6_double _ _ _ _ (plain_joinGroups _ leftSmall).1
        (parseSide_joinGroups false _ leftSmall) (parseSide_joinGroups true _ rightSmall) short
      rw [spread, if_pos (List.mem_append_right _ List.mem_cons_self)]
      dsimp only
      rw [cut, List.take_left, right, ← joinGroups, ← joinGroups, whole, Option.some.injEq]
      rw [length_flatMap_groups, length_flatMap_groups,
        show 16 - 2 * (groups.take start).length - 2 * (groups.drop (start + zeros)).length = 2 * zeros by omega,
        ← flatMap_zeros, List.append_assoc, ← List.flatMap_append, ← List.flatMap_append, ← split, back]

theorem inetNtop4_chars (octets : Octets) : '/' ∉ inetNtop4 octets := by
  have free : ∀ c ∈ inetNtop4 octets, c ≠ '/' := by
    refine forall_mem_intercalate (by decide) fun p listed c inside same => ?_
    obtain ⟨o, -, rfl⟩ := List.mem_map.mp listed
    have digit := (decimalOctet_spec o).2 c inside
    rw [same] at digit
    exact absurd digit (by decide)
  exact fun held => free '/' held rfl

theorem ipNetwork_four {net : IpNetwork} (good : IsNetwork net) (four : net.six = false) :
    ipNetwork (inetNtop4 (addressOctets net.six net.value) ++ '/' :: Nat.toDigits 10 net.prefixlen) = some net := by
  rcases net with ⟨six, value, n⟩
  obtain rfl : six = false := four
  have slash := inetNtop4_chars (addressOctets false value)
  have read : ipv4Address (inetNtop4 (addressOctets false value)) = some ⟨false, value, none⟩ := by
    rw [ipv4Address, if_neg slash, inetPton4_inetNtop4 _ (length_addressOctets false value)]
    simp [addressValue_addressOctets good.value]
  rw [ipNetwork, networkOf_written slash good.prefixlen, read, Option.map_some, Option.some_or, good.cleared]

theorem ipNetwork_six {net : IpNetwork} (good : IsNetwork net) (six : net.six = true) {a : Text}
    (plain : '/' ∉ a ∧ '%' ∉ a ∧ '.' ∉ a) (read : inetPton6 a = some (addressOctets net.six net.value)) :
    ipNetwork (a ++ '/' :: Nat.toDigits 10 net.prefixlen) = some net := by
  rcases net with ⟨family, value, n⟩
  obtain rfl : family = true := six
  obtain ⟨slash, scope, dot⟩ := plain
  have four : networkOf ipv4Address false (a ++ '/' :: Nat.toDigits 10 n) = none := by
    have quad : ipv4Address a = none := by
      rw [ipv4Address, if_neg slash, inetPton4, StarPattern.splitOn_bare dot]
      rfl
    unfold networkOf
    rw [splitOn_slash slash]
    dsimp only
    rw [quad]
    rfl
  have whole : a.takeWhile (· ≠ '%') = a ∧ a.dropWhile (· ≠ '%') = [] := by
    have all : ∀ c ∈ a, decide (c ≠ '%') = true := fun c held => decide_eq_true fun same => scope (same ▸ held)
    exact ⟨List.takeWhile_eq_self_iff.mpr all, List.dropWhile_eq_nil_iff.mpr all⟩
  have address : ipv6Address a = some ⟨true, value, none⟩ := by
    rw [ipv6Address, if_neg slash, whole.1, whole.2, read]
    simp [addressValue_addressOctets good.value]
  rw [ipNetwork, four, Option.none_or, networkOf_written slash good.prefixlen, address, Option.map_some, good.cleared]

theorem forall_mem_spread {holds : Char → Prop} (colon : holds ':') {groups : List Text}
    (each : ∀ p ∈ groups, ∀ c ∈ p, holds c) : ∀ c ∈ spread groups, holds c := by
  unfold spread
  split
  · dsimp only
    intro c held
    rcases List.mem_append.mp held with left | right
    · exact forall_mem_intercalate colon (fun p inside => each p (List.mem_of_mem_take inside)) c left
    · rcases List.mem_cons.mp right with rfl | right
      · exact colon
      · rcases List.mem_cons.mp right with rfl | right
        · exact colon
        · exact forall_mem_intercalate colon (fun p inside => each p (List.mem_of_mem_drop inside)) c right
  · exact forall_mem_intercalate colon each

theorem intercalate_ne_nil {sep : Char} {parts : List Text} (some : parts ≠ []) (filled : ∀ p ∈ parts, p ≠ []) :
    [sep].intercalate parts ≠ [] := by
  match parts, some with
  | [p], _ => simpa [List.intercalate] using filled p List.mem_cons_self
  | p :: q :: rest, _ => simp [List.intercalate, List.intersperse]

section Parts

variable {net : IpNetwork} (run : Option (ZeroRun (groupsOf (addressOctets net.six net.value))))

theorem rpzParts_spec : rpzParts net run ≠ [] ∧ ∀ p ∈ rpzParts net run,
    p ≠ [] ∧ ∀ c ∈ p, Small c ∧ c ≠ '/' ∧ c ≠ '%' ∧ c ≠ '.' := by
  have zeros : zz ≠ [] ∧ ∀ c ∈ zz, Small c ∧ c ≠ '/' ∧ c ≠ '%' ∧ c ≠ '.' := by simp [zz, Small]
  have octet (o : UInt8) : decimalOctet o ≠ [] ∧
      ∀ c ∈ decimalOctet o, Small c ∧ c ≠ '/' ∧ c ≠ '%' ∧ c ≠ '.' := by
    refine ⟨(decimalOctet_spec o).1, fun c held => ?_⟩
    have digit := (decimalOctet_spec o).2 c held
    refine ⟨(small_of_isDigit digit).1, ?_, ?_, ?_⟩ <;> rintro rfl <;> exact absurd digit (by decide)
  have group {g : Nat} (small : g < 65536) : hexGroup g ≠ [] ∧
      ∀ c ∈ hexGroup g, Small c ∧ c ≠ '/' ∧ c ≠ '%' ∧ c ≠ '.' := by
    refine ⟨(hexGroup_chars g small).1, fun c held => ?_⟩
    obtain ⟨plain, -, others⟩ := hexGroup_small small c held
    exact ⟨plain, others⟩
  rcases net with ⟨six, value, n⟩
  cases six with
  | false =>
      have size := length_addressOctets false value
      change (addressOctets false value).map decimalOctet ≠ [] ∧ ∀ p ∈ (addressOctets false value).map decimalOctet, _
      refine ⟨fun none => ?_, fun p held => ?_⟩
      · rw [List.map_eq_nil_iff.mp none] at size
        cases size
      · obtain ⟨o, -, rfl⟩ := List.mem_map.mp held
        exact octet o
  | true =>
      obtain ⟨count, small, -⟩ := groupsOf_spec 8 (addressOctets true value) (length_addressOctets true value)
      cases run with
      | none =>
          change (groupsOf (addressOctets true value)).map hexGroup ≠ [] ∧
            ∀ p ∈ (groupsOf (addressOctets true value)).map hexGroup, _
          refine ⟨fun none => ?_, fun p held => ?_⟩
          · rw [List.map_eq_nil_iff.mp none] at count
            cases count
          · obtain ⟨g, listed, rfl⟩ := List.mem_map.mp held
            exact group (small g listed)
      | some run =>
          refine ⟨List.append_ne_nil_of_right_ne_nil _ (List.cons_ne_nil _ _), fun p held => ?_⟩
          rcases List.mem_append.mp held with held | held
          · obtain ⟨g, listed, rfl⟩ := List.mem_map.mp held
            exact group (small g (List.mem_of_mem_take listed))
          · rcases List.mem_cons.mp held with rfl | held
            · exact zeros
            · obtain ⟨g, listed, rfl⟩ := List.mem_map.mp held
              exact group (small g (List.mem_of_mem_drop listed))

/-- Only the parts of an address of the fourth version are four numbers. -/
theorem rpzParts_numbers (u : Characters) : (rpzParts net run).reverse.length = 4 ∧
    ((rpzParts net run).reverse.all fun p => p ≠ [] && p.all u.isDigit) = true ↔ net.six = false := by
  rw [List.length_reverse, List.all_reverse]
  rcases net with ⟨six, value, n⟩
  cases six with
  | false =>
      refine iff_of_true ⟨?_, ?_⟩ rfl
      · exact (List.length_map _).trans (length_addressOctets false value)
      · refine List.all_eq_true.mpr fun p held => ?_
        obtain ⟨o, -, rfl⟩ := List.mem_map.mp held
        obtain ⟨filled, digits⟩ := decimalOctet_spec o
        rw [Bool.and_eq_true, decide_eq_true_eq, List.all_eq_true]
        refine ⟨filled, fun c inside => ?_⟩
        rw [u.isDigit_ascii c (small_of_isDigit (digits c inside)).1.1]
        exact digits c inside
  | true =>
      refine iff_of_false ?_ fun absurd => nomatch absurd
      rintro ⟨four, numbers⟩
      cases run with
      | none =>
          have count := (groupsOf_spec 8 (addressOctets true value) (length_addressOctets true value)).1
          have eight : (rpzParts ⟨true, value, n⟩ none).length = 8 := (List.length_map _).trans count
          omega
      | some run =>
          have z := List.all_eq_true.mp numbers zz (List.mem_append_right _ List.mem_cons_self)
          have plain : u.isDigit 'z' = false := by
            rw [u.isDigit_ascii 'z' (by decide)]
            rfl
          simp [zz, plain] at z

end Parts

/-- The owner name of a network is read as that network. -/
theorem rpzIpPrefix_owner (u : Characters) (str : IpNetwork → Text) {net : IpNetwork} (good : IsNetwork net)
    (run : Option (ZeroRun (groupsOf (addressOctets net.six net.value)))) :
    rpzIpPrefix u str (rpzOwner net run) = some (str net) := by
  obtain ⟨some, parts⟩ := rpzParts_spec run
  have fits := good.prefixlen.trans (addressBits_le net.six)
  have turned : ∀ p ∈ (rpzParts net run).reverse, p ≠ [] ∧ ∀ c ∈ p, Small c ∧ c ≠ '/' ∧ c ≠ '%' ∧ c ≠ '.' :=
    fun p held => parts p (List.mem_reverse.mp held)
  have filled : ['.'].intercalate (rpzParts net run).reverse ≠ [] :=
    intercalate_ne_nil (by simpa using some) fun p held => (turned p held).1
  have small : ∀ c ∈ ['.'].intercalate (rpzParts net run).reverse, Small c :=
    forall_mem_intercalate small_dot fun p held c inside => ((turned p held).2 c inside).1
  have length : (Nat.toDigits 10 net.prefixlen).filterMap u.digit =
      (Nat.toDigits 10 net.prefixlen).map fun c => c.toNat - 48 := by
    rw [← List.filterMap_eq_map']
    refine List.filterMap_congr fun c held => ?_
    obtain ⟨plain, digit⟩ := small_digits c held
    rw [u.digit_ascii c plain.1, if_pos digit]
  rw [rpzIpPrefix, rpzOwner, rpzIp_owner u fits filled small]
  dsimp only
  rw [splitOn_reversed some fun p held dot => ((parts p held).2 '.' dot).2.2.2 rfl, length, value_digits fits,
    List.reverse_reverse]
  by_cases four : net.six = false
  · rw [if_pos ((rpzParts_numbers run u).mpr four)]
    have written : rpzParts net run = (addressOctets net.six net.value).map decimalOctet := by
      rw [rpzParts, if_neg (by rw [four]; decide)]
    rw [written, ← inetNtop4, ipNetwork_four good four, Option.map_some]
  · have six := Bool.eq_true_of_not_eq_false four
    rw [if_neg fun numbers => four ((rpzParts_numbers run u).mp numbers)]
    have plain : ∀ c ∈ spread (rpzParts net run), c ≠ '/' ∧ c ≠ '%' ∧ c ≠ '.' :=
      forall_mem_spread (by decide) fun p held c inside => ((parts p held).2 c inside).2
    have read : inetPton6 (spread (rpzParts net run)) = Option.some (addressOctets net.six net.value) := by
      rw [rpzParts, if_pos six]
      exact inetPton6_spread (by rw [length_addressOctets, six]; rfl) run
    have free : '/' ∉ spread (rpzParts net run) ∧ '%' ∉ spread (rpzParts net run) ∧
        '.' ∉ spread (rpzParts net run) :=
      ⟨fun held => (plain '/' held).1 rfl, fun held => (plain '%' held).2.1 rfl, fun held => (plain '.' held).2.2 rfl⟩
    rw [ipNetwork_six good six free read, Option.map_some]

/-- Address rules match by the longest prefix of the family, for every sequence of networks that are added,
and an owner name stands for the network that it is written for. -/
theorem addressRules_exact (lib : Library) (u : Characters) (str : IpNetwork → Text) :
    (∀ (adds : List (Text × Text)) (ip : Text),
      (ipAddress ip = none → (IPMatcher.added adds).find { lib with address := IPMatcher.versioned } ip = none) ∧
      ∀ addr, ipAddress ip = some addr →
        (∀ source, (IPMatcher.added adds).find { lib with address := IPMatcher.versioned } ip = some source ↔
          ∃ net, net.contains addr = true ∧ lastSource adds net = some source ∧
            ∀ a ∈ adds, ∀ other, ipNetwork (Name.strip a.1) = some other → other.contains addr = true →
              other.prefixlen ≤ net.prefixlen) ∧
        ((IPMatcher.added adds).find { lib with address := IPMatcher.versioned } ip = none ↔
          ∀ a ∈ adds, ∀ net, ipNetwork (Name.strip a.1) = some net → net.contains addr = false)) ∧
    ∀ net, IsNetwork net → ∀ run : Option (ZeroRun (groupsOf (addressOctets net.six net.value))),
      rpzIpPrefix u str (rpzOwner net run) = some (str net) := by
  refine ⟨fun adds ip => ⟨fun unread => ?_, fun addr read => IPMatcher.longest_wins lib adds read⟩,
    fun net good run => rpzIpPrefix_owner u str good run⟩
  unfold IPMatcher.find IPMatcher.versioned
  dsimp only
  rw [unread, Option.map_none]

end Trench.Filter
