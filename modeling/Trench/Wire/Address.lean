import Mathlib
import Trench.Wire.Name

set_option autoImplicit false

/- The text forms of addresses, as `socket.inet_ntop` writes them and
`socket.inet_pton` reads them. -/
namespace Trench.Wire

/-! ### IPv4 -/

/-- An octet in decimal. -/
def decimalOctet (c : UInt8) : Text :=
  let n := c.toNat
  if n ≥ 100 then [Nat.digitChar (n / 100), Nat.digitChar (n / 10 % 10), Nat.digitChar (n % 10)]
  else if n ≥ 10 then [Nat.digitChar (n / 10), Nat.digitChar (n % 10)]
  else [Nat.digitChar n]

def inetNtop4 (octets : Octets) : Text := ['.'].intercalate (octets.map decimalOctet)

/-- One part of a dotted quad: no leading zero, at most 255. -/
def parseDecimalOctet (part : Text) : Option UInt8 :=
  let n := part.foldl (fun n d => n * 10 + (d.toNat - 48)) 0
  if part ≠ [] ∧ part.all Name.isDigit ∧ (part.head? = some '0' → part.length = 1) ∧ n ≤ 255
  then some (UInt8.ofNat n) else none

def inetPton4 (s : Text) : Option Octets :=
  let parts := s.splitOn '.'
  if parts.length = 4 then parts.mapM parseDecimalOctet else none

/-! ### IPv6 -/

/-- The sixteen octets as eight groups. -/
def groupsOf : Octets → List Nat
  | a :: b :: rest => (a.toNat * 256 + b.toNat) :: groupsOf rest
  | _ => []

def octetsOfGroup (g : Nat) : Octets := [UInt8.ofNat (g / 256), UInt8.ofNat (g % 256)]

/-- A group in lower-case hexadecimal without leading zeros. -/
def hexGroup (g : Nat) : Text :=
  let low := [Nat.digitChar (g % 16)]
  if g < 16 then low
  else if g < 256 then Nat.digitChar (g / 16 % 16) :: low
  else if g < 4096 then Nat.digitChar (g / 256 % 16) :: Nat.digitChar (g / 16 % 16) :: low
  else Nat.digitChar (g / 4096) :: Nat.digitChar (g / 256 % 16) ::
    Nat.digitChar (g / 16 % 16) :: low

def joinGroups (groups : List Nat) : Text := [':'].intercalate (groups.map hexGroup)

def zeroRun (groups : List Nat) : Nat := (groups.takeWhile fun g => g == 0).length

/-- Start and length of the first longest run of zero groups, when it has two. -/
def bestRun (groups : List Nat) : Option (Nat × Nat) :=
  let runs := (List.range groups.length).map fun i => (i, zeroRun (groups.drop i))
  let best := runs.foldl (fun best run => if best.2 < run.2 then run else best) (0, 0)
  if best.2 < 2 then none else some best

def inetNtop6 (octets : Octets) : Text :=
  let groups := groupsOf octets
  match bestRun groups with
  | none => joinGroups groups
  | some (start, count) =>
      -- an address with an IPv4 one inside ends in a dotted quad
      if start = 0 ∧ count = 6 then ':' :: ':' :: inetNtop4 (octets.drop 12)
      else if start = 0 ∧ count = 5 ∧ groups[5]? = some 0xffff then
        ':' :: ':' :: (hexGroup 0xffff ++ ':' :: inetNtop4 (octets.drop 12))
      else joinGroups (groups.take start) ++ ':' :: ':' ::
        joinGroups (groups.drop (start + count))

def hexValue (c : Char) : Option Nat :=
  if '0' ≤ c ∧ c ≤ '9' then some (c.toNat - 48)
  else if 'a' ≤ c ∧ c ≤ 'f' then some (c.toNat - 87)
  else if 'A' ≤ c ∧ c ≤ 'F' then some (c.toNat - 55)
  else none

def parseHexGroup (part : Text) : Option Octets :=
  if 1 ≤ part.length ∧ part.length ≤ 4 then do
    let digits ← part.mapM hexValue
    return octetsOfGroup (digits.foldl (fun n d => n * 16 + d) 0)
  else none

/-- Groups between colons; a dotted quad may stand for the last two. -/
def parseGroups (quad : Bool) : List Text → Option Octets
  | [] => some []
  | [last] => if quad && last.contains '.' then inetPton4 last else parseHexGroup last
  | part :: rest => do
      let first ← parseHexGroup part
      let more ← parseGroups quad rest
      return first ++ more

/-- One side of a double colon, which may be empty. -/
def parseSide (quad : Bool) (s : Text) : Option Octets :=
  if s = [] then some [] else parseGroups quad (s.splitOn ':')

/-- The text around the first double colon. -/
def splitDouble : Text → Option (Text × Text)
  | ':' :: ':' :: rest => some ([], rest)
  | c :: rest => (splitDouble rest).map fun sides => (c :: sides.1, sides.2)
  | [] => none

def inetPton6 (s : Text) : Option Octets :=
  match splitDouble s with
  | none => do
      let octets ← parseGroups true (s.splitOn ':')
      if octets.length = 16 then some octets else none
  | some (left, right) => do
      let before ← parseSide false left
      let after ← parseSide true right
      -- a double colon stands for one group at least
      if before.length + after.length ≤ 14 then
        some (before ++ List.replicate (16 - before.length - after.length) 0 ++ after)
      else none

theorem length_mapM {α β : Type} {f : α → Option β} {xs : List α} {ys : List β}
    (mapped : xs.mapM f = some ys) : ys.length = xs.length := by
  induction xs generalizing ys with
  | nil =>
      cases mapped
      rfl
  | cons x rest ih =>
      rw [List.mapM_cons] at mapped
      obtain ⟨y, -, mapped⟩ := Option.bind_eq_some_iff.mp mapped
      obtain ⟨more, others, same⟩ := Option.bind_eq_some_iff.mp mapped
      cases same
      rw [List.length_cons, List.length_cons, ih others]

theorem length_inetPton4 {s : Text} {octets : Octets} (read : inetPton4 s = some octets) :
    octets.length = 4 := by
  rw [inetPton4] at read
  split at read
  · next four => rw [length_mapM read, four]
  · cases read

theorem length_inetPton6 {s : Text} {octets : Octets} (read : inetPton6 s = some octets) :
    octets.length = 16 := by
  rw [inetPton6] at read
  split at read
  · obtain ⟨groups, -, read⟩ := Option.bind_eq_some_iff.mp read
    split at read
    · next sixteen =>
        cases read
        exact sixteen
    · cases read
  · obtain ⟨before, -, read⟩ := Option.bind_eq_some_iff.mp read
    obtain ⟨after, -, read⟩ := Option.bind_eq_some_iff.mp read
    split at read
    · next short =>
        cases read
        simp only [List.length_append, List.length_replicate]
        omega
    · cases read

/-! ### Reading back what was written -/

set_option maxRecDepth 4000 in
theorem parseDecimalOctet_decimalOctet (c : UInt8) : parseDecimalOctet (decimalOctet c) = some c := by
  revert c
  decide

set_option maxRecDepth 4000 in
theorem decimalOctet_chars (c : UInt8) : '.' ∉ decimalOctet c ∧ ':' ∉ decimalOctet c := by
  revert c
  decide

theorem splitOn_inetNtop4 (octets : Octets) (some : octets ≠ []) :
    (inetNtop4 octets).splitOn '.' = octets.map decimalOctet := by
  refine List.splitOn_intercalate '.' ?_ (by simpa using some)
  intro part held
  obtain ⟨c, _, rfl⟩ := List.mem_map.mp held
  exact (decimalOctet_chars c).1

theorem mapM_decimalOctet (octets : Octets) :
    (octets.map decimalOctet).mapM parseDecimalOctet = some octets := by
  induction octets with
  | nil => rfl
  | cons c rest ih =>
      rw [List.map_cons, List.mapM_cons, parseDecimalOctet_decimalOctet, ih]
      rfl

/-- An IPv4 address is read back from its text. -/
theorem inetPton4_inetNtop4 (octets : Octets) (four : octets.length = 4) :
    inetPton4 (inetNtop4 octets) = some octets := by
  have some : octets ≠ [] := fun none => by simp [none] at four
  rw [inetPton4, splitOn_inetNtop4 octets some]
  simp only [List.length_map, four, ↓reduceIte]
  exact mapM_decimalOctet octets

theorem hexValue_digitChar (d : Nat) (small : d < 16) : hexValue (Nat.digitChar d) = some d := by
  revert d
  decide

theorem digitChar_ne_colon (d : Nat) (small : d < 16) : Nat.digitChar d ≠ ':' ∧
    Nat.digitChar d ≠ '.' := by
  revert d
  decide

theorem parseHexGroup_hexGroup (g : Nat) (small : g < 65536) :
    parseHexGroup (hexGroup g) = some (octetsOfGroup g) := by
  have digit (d : Nat) (bound : d < 16) := hexValue_digitChar d bound
  simp only [hexGroup]
  split
  · next one => simp [parseHexGroup, digit g one, Nat.mod_eq_of_lt one]
  · split
    · simp [parseHexGroup, digit, Nat.mod_lt, show g / 16 % 16 * 16 + g % 16 = g by omega]
    · split
      · simp [parseHexGroup, digit, Nat.mod_lt,
          show (g / 256 % 16 * 16 + g / 16 % 16) * 16 + g % 16 = g by omega]
      · simp [parseHexGroup, digit, Nat.mod_lt, show g / 4096 < 16 by omega,
          show ((g / 4096 * 16 + g / 256 % 16) * 16 + g / 16 % 16) * 16 + g % 16 = g by omega]

theorem hexGroup_chars (g : Nat) (small : g < 65536) :
    hexGroup g ≠ [] ∧ ':' ∉ hexGroup g ∧ '.' ∉ hexGroup g := by
  have digit (d : Nat) (bound : d < 16) := digitChar_ne_colon d bound
  have top : g / 4096 < 16 := by omega
  have colon (d : Nat) (bound : d < 16) : ¬ ':' = Nat.digitChar d := fun h => (digit d bound).1 h.symm
  have dot (d : Nat) (bound : d < 16) : ¬ '.' = Nat.digitChar d := fun h => (digit d bound).2 h.symm
  simp only [hexGroup]
  split
  · simp [colon, dot, Nat.mod_lt]
  · split
    · simp [colon, dot, Nat.mod_lt]
    · split <;> simp [colon, dot, Nat.mod_lt, top]

theorem splitOn_joinGroups (groups : List Nat) (some : groups ≠ [])
    (small : ∀ g ∈ groups, g < 65536) : (joinGroups groups).splitOn ':' = groups.map hexGroup := by
  refine List.splitOn_intercalate ':' ?_ (by simpa using some)
  intro part held
  obtain ⟨g, inside, rfl⟩ := List.mem_map.mp held
  exact (hexGroup_chars g (small g inside)).2.1

theorem parseGroups_hexGroups (quad : Bool) (groups : List Nat) (small : ∀ g ∈ groups, g < 65536) :
    parseGroups quad (groups.map hexGroup) = some (groups.flatMap octetsOfGroup) := by
  induction groups with
  | nil => rfl
  | cons g rest ih =>
      have bound := small g List.mem_cons_self
      have tail := ih fun h held => small h (List.mem_cons_of_mem _ held)
      cases rest with
      | nil =>
          have dot := (hexGroup_chars g bound).2.2
          simp [parseGroups, dot, parseHexGroup_hexGroup g bound]
      | cons h rest =>
          rw [List.map_cons] at tail ⊢
          rw [List.map_cons, parseGroups, parseHexGroup_hexGroup g bound, tail]
          · rfl
          · intro none
            cases none

/-- Groups followed by a dotted quad. -/
theorem parseGroups_quad (groups : List Nat) (small : ∀ g ∈ groups, g < 65536) (octets : Octets)
    (four : octets.length = 4) :
    parseGroups true (groups.map hexGroup ++ [inetNtop4 octets]) =
      some (groups.flatMap octetsOfGroup ++ octets) := by
  induction groups with
  | nil =>
      have dot : (inetNtop4 octets).contains '.' = true := by
        obtain ⟨a, b, c, d, rfl⟩ := List.length_eq_four.mp four
        simp [inetNtop4, List.intercalate, List.intersperse]
      simp only [List.map_nil, List.nil_append, parseGroups, dot, Bool.and_self, ↓reduceIte,
        List.flatMap_nil]
      exact inetPton4_inetNtop4 octets four
  | cons g rest ih =>
      have bound := small g List.mem_cons_self
      have tail := ih fun h held => small h (List.mem_cons_of_mem _ held)
      rw [List.map_cons, List.cons_append, parseGroups, parseHexGroup_hexGroup g bound, tail]
      · simp [List.flatMap_cons, List.append_assoc]
      · intro none
        simp at none

/-- Text without a double colon that does not end in a colon. -/
def Plain (s : Text) : Prop := splitDouble s = none ∧ s.getLast? ≠ some ':'

theorem splitDouble_step {c : Char} {s : Text} (apart : c = ':' → s.head? ≠ some ':') :
    splitDouble (c :: s) = (splitDouble s).map fun sides => (c :: sides.1, sides.2) := by
  rw [splitDouble]
  intro rest colon same
  exact apart colon (by rw [same]; rfl)

/-- A double colon inside a text shows at once or after its first character. -/
theorem splitDouble_cons_none {c : Char} {s : Text} (whole : splitDouble (c :: s) = none) :
    (c = ':' → s.head? ≠ some ':') ∧ splitDouble s = none := by
  have apart : c = ':' → s.head? ≠ some ':' := by
    rintro rfl second
    cases s with
    | nil => cases second
    | cons d s =>
        cases second
        cases whole
  rw [splitDouble_step apart, Option.map_eq_none_iff] at whole
  exact ⟨apart, whole⟩

theorem splitDouble_append (s rest : Text) (plain : Plain s) :
    splitDouble (s ++ ':' :: ':' :: rest) = some (s, rest) := by
  induction s with
  | nil => rfl
  | cons c s ih =>
      obtain ⟨apart, whole⟩ := splitDouble_cons_none plain.1
      have last : s.getLast? ≠ some ':' := by
        cases s with
        | nil => simp
        | cons d s => simpa only [List.getLast?_cons_cons] using plain.2
      have step : c = ':' → (s ++ ':' :: ':' :: rest).head? ≠ some ':' := by
        intro colon
        cases s with
        | nil =>
            subst colon
            exact absurd rfl plain.2
        | cons d s => simpa using apart colon
      rw [List.cons_append, splitDouble_step step, ih ⟨whole, last⟩]
      rfl

theorem plain_append_plain (s t : Text) (free : ':' ∉ s) (nonempty : s ≠ []) (plain : Plain t)
    (start : t.head? ≠ some ':') (more : t ≠ []) : Plain (s ++ ':' :: t) := by
  induction s with
  | nil => exact absurd rfl nonempty
  | cons c s ih =>
      have other : c ≠ ':' := fun same => free (same ▸ List.mem_cons_self)
      have rest : ':' ∉ s := fun held => free (List.mem_cons_of_mem _ held)
      refine ⟨?_, ?_⟩
      · rw [List.cons_append, splitDouble_step fun same => absurd same other]
        cases s with
        | nil => rw [List.nil_append, splitDouble_step fun _ => start, plain.1]; rfl
        | cons d s => rw [(ih rest (List.cons_ne_nil _ _)).1]; rfl
      · rw [show c :: s ++ ':' :: t = (c :: s ++ [':']) ++ t by simp,
          List.getLast?_append_of_ne_nil _ more]
        exact plain.2

theorem plain_of_free (s : Text) (free : ':' ∉ s) : Plain s := by
  induction s with
  | nil => exact ⟨rfl, by simp⟩
  | cons c s ih =>
      have other : c ≠ ':' := fun same => free (same ▸ List.mem_cons_self)
      have rest : ':' ∉ s := fun held => free (List.mem_cons_of_mem _ held)
      refine ⟨?_, fun last => free (List.mem_of_getLast? last)⟩
      rw [splitDouble_step fun same => absurd same other, (ih rest).1]
      rfl

theorem intercalate_cons_cons (a b : Text) (rest : List Text) :
    [':'].intercalate (a :: b :: rest) = a ++ ':' :: [':'].intercalate (b :: rest) := by
  simp [List.intercalate, List.intersperse]

/-- Joined groups never hold a double colon. -/
theorem plain_intercalate (parts : List Text) (good : ∀ p ∈ parts, p ≠ [] ∧ ':' ∉ p) :
    Plain ([':'].intercalate parts) ∧ ([':'].intercalate parts).head? ≠ some ':' ∧
      (parts ≠ [] → [':'].intercalate parts ≠ []) := by
  induction parts with
  | nil => exact ⟨plain_of_free _ (by simp), by simp, fun h => absurd rfl h⟩
  | cons a rest ih =>
      obtain ⟨filled, free⟩ := good a List.mem_cons_self
      have tail := ih fun p held => good p (List.mem_cons_of_mem _ held)
      have head : a.head? ≠ some ':' := fun first =>
        free (List.mem_of_head? first)
      cases rest with
      | nil =>
          have same : [':'].intercalate [a] = a := by simp [List.intercalate]
          rw [same]
          exact ⟨plain_of_free a free, head, fun _ => filled⟩
      | cons b rest =>
          have nonempty := tail.2.2 (List.cons_ne_nil _ _)
          rw [intercalate_cons_cons]
          refine ⟨plain_append_plain _ _ free filled tail.1 tail.2.1 nonempty, ?_, fun _ => ?_⟩
          · obtain ⟨c, a, rfl⟩ := List.exists_cons_of_ne_nil filled
            simpa using head
          · simp

theorem plain_joinGroups (groups : List Nat) (small : ∀ g ∈ groups, g < 65536) :
    Plain (joinGroups groups) ∧ (groups ≠ [] → joinGroups groups ≠ []) := by
  have parts := plain_intercalate (groups.map hexGroup) fun p held => by
    obtain ⟨g, inside, rfl⟩ := List.mem_map.mp held
    exact ⟨(hexGroup_chars g (small g inside)).1, (hexGroup_chars g (small g inside)).2.1⟩
  exact ⟨parts.1, fun some => parts.2.2 (by simpa using some)⟩

theorem parseSide_joinGroups (quad : Bool) (groups : List Nat) (small : ∀ g ∈ groups, g < 65536) :
    parseSide quad (joinGroups groups) = some (groups.flatMap octetsOfGroup) := by
  by_cases none : groups = []
  · rw [none]
    rfl
  · rw [parseSide, if_neg ((plain_joinGroups groups small).2 none),
      splitOn_joinGroups groups none small, parseGroups_hexGroups quad groups small]

theorem octetsOfGroup_join (a b : UInt8) : octetsOfGroup (a.toNat * 256 + b.toNat) = [a, b] := by
  have low := b.toNat_lt
  have high := a.toNat_lt
  have first : (a.toNat * 256 + b.toNat) / 256 = a.toNat := by omega
  have second : (a.toNat * 256 + b.toNat) % 256 = b.toNat := by omega
  rw [octetsOfGroup, first, second, UInt8.ofNat_toNat, UInt8.ofNat_toNat]

theorem groupsOf_spec (n : Nat) (octets : Octets) (even : octets.length = 2 * n) :
    (groupsOf octets).length = n ∧ (∀ g ∈ groupsOf octets, g < 65536) ∧
      (groupsOf octets).flatMap octetsOfGroup = octets := by
  induction n generalizing octets with
  | zero =>
      rw [List.eq_nil_of_length_eq_zero even]
      simp [groupsOf]
  | succ n ih =>
      match octets, even with
      | a :: b :: rest, even =>
          obtain ⟨count, small, back⟩ := ih rest (by simp only [List.length_cons] at even; omega)
          have low := b.toNat_lt
          have high := a.toNat_lt
          rw [groupsOf]
          refine ⟨by rw [List.length_cons, count], ?_, ?_⟩
          · intro g held
            rcases List.mem_cons.mp held with rfl | held
            · omega
            · exact small g held
          · rw [List.flatMap_cons, octetsOfGroup_join, back]
            rfl

theorem zeroRun_split (groups : List Nat) :
    groups = List.replicate (zeroRun groups) 0 ++ groups.drop (zeroRun groups) := by
  have zeros : groups.takeWhile (fun g => g == 0) = List.replicate (zeroRun groups) 0 := by
    rw [zeroRun, List.eq_replicate_iff]
    exact ⟨rfl, fun g held => by simpa using List.mem_takeWhile_imp held⟩
  have whole := List.takeWhile_append_dropWhile (p := fun g : Nat => g == 0) (l := groups)
  have rest := @List.drop_left _ (groups.takeWhile fun g => g == 0)
    (groups.dropWhile fun g => g == 0)
  rw [whole] at rest
  rw [← zeros, zeroRun, rest, whole]

theorem foldl_longer (runs : List (Nat × Nat)) (best : Nat × Nat) :
    let last := runs.foldl (fun best run => if best.2 < run.2 then run else best) best
    last ∈ runs ∨ last = best := by
  induction runs generalizing best with
  | nil => exact .inr rfl
  | cons run runs ih =>
      rw [List.foldl_cons]
      rcases ih (if best.2 < run.2 then run else best) with held | same
      · exact .inl (List.mem_cons_of_mem _ held)
      · rw [same]
        split
        · exact .inl List.mem_cons_self
        · exact .inr rfl

theorem bestRun_spec {groups : List Nat} {start count : Nat}
    (found : bestRun groups = some (start, count)) :
    2 ≤ count ∧ groups =
      groups.take start ++ (List.replicate count 0 ++ groups.drop (start + count)) := by
  rw [bestRun] at found
  have member := foldl_longer ((List.range groups.length).map fun i => (i, zeroRun (groups.drop i)))
    (0, 0)
  simp only at found member
  split at found
  · cases found
  · next long =>
      rw [Option.some.injEq] at found
      rw [found] at member long
      rcases member with held | zero
      · obtain ⟨i, _, same⟩ := List.mem_map.mp held
        cases same
        have whole := zeroRun_split (groups.drop start)
        rw [List.drop_drop] at whole
        exact ⟨not_lt.mp long, by rw [← whole, List.take_append_drop]⟩
      · cases zero
        exact absurd (by decide) long

theorem flatMap_zeros (n : Nat) :
    (List.replicate n 0).flatMap octetsOfGroup = List.replicate (2 * n) 0 := by
  induction n with
  | zero => rfl
  | succ n ih =>
      rw [List.replicate_succ, List.flatMap_cons, ih,
        show 2 * (n + 1) = 2 * n + 1 + 1 by omega, List.replicate_succ, List.replicate_succ]
      rfl

theorem length_flatMap_groups (groups : List Nat) :
    (groups.flatMap octetsOfGroup).length = 2 * groups.length := by
  induction groups with
  | nil => rfl
  | cons g rest ih =>
      rw [List.flatMap_cons, List.length_append, ih, List.length_cons]
      simp only [octetsOfGroup, List.length_cons, List.length_nil]
      omega

/-- Both sides of a double colon, and the zeros between them. -/
theorem inetPton6_double (left right : Text) (before after : Octets) (plain : Plain left)
    (first : parseSide false left = some before) (second : parseSide true right = some after)
    (short : before.length + after.length ≤ 14) :
    inetPton6 (left ++ ':' :: ':' :: right) =
      some (before ++ List.replicate (16 - before.length - after.length) 0 ++ after) := by
  rw [inetPton6, splitDouble_append left right plain]
  simp only [first, second, Option.bind_eq_bind, Option.bind_some, short, ↓reduceIte]

theorem parseSide_quad (groups : List Nat) (small : ∀ g ∈ groups, g < 65536) (octets : Octets)
    (four : octets.length = 4) :
    parseSide true ([':'].intercalate (groups.map hexGroup ++ [inetNtop4 octets])) =
      some (groups.flatMap octetsOfGroup ++ octets) := by
  have quad : ':' ∉ inetNtop4 octets ∧ inetNtop4 octets ≠ [] := by
    obtain ⟨a, b, c, d, rfl⟩ := List.length_eq_four.mp four
    have free (x : UInt8) := (decimalOctet_chars x).2
    simp [inetNtop4, List.intercalate, List.intersperse, free]
  have parts : ∀ p ∈ groups.map hexGroup ++ [inetNtop4 octets], p ≠ [] ∧ ':' ∉ p := by
    intro p held
    rcases List.mem_append.mp held with held | held
    · obtain ⟨g, inside, rfl⟩ := List.mem_map.mp held
      exact ⟨(hexGroup_chars g (small g inside)).1, (hexGroup_chars g (small g inside)).2.1⟩
    · rw [List.mem_singleton.mp held]
      exact ⟨quad.2, quad.1⟩
  have filled := (plain_intercalate _ parts).2.2 (by simp)
  rw [parseSide, if_neg filled, List.splitOn_intercalate ':' (fun p held => (parts p held).2)
    (by simp), parseGroups_quad groups small octets four]

/-- An IPv6 address is read back from its text, whichever short form that takes. -/
theorem inetPton6_inetNtop6 (octets : Octets) (sixteen : octets.length = 16) :
    inetPton6 (inetNtop6 octets) = some octets := by
  obtain ⟨count, small, back⟩ := groupsOf_spec 8 octets sixteen
  rw [inetNtop6]
  cases found : bestRun (groupsOf octets) with
  | none =>
      have filled : groupsOf octets ≠ [] := fun none => by simp [none] at count
      simp only [inetPton6, (plain_joinGroups _ small).1.1, splitOn_joinGroups _ filled small,
        parseGroups_hexGroups true _ small, back, Option.bind_eq_bind, Option.bind_some, sixteen,
        ↓reduceIte]
  | some run =>
      obtain ⟨start, zeros⟩ := run
      obtain ⟨long, split⟩ := bestRun_spec found
      generalize groupsOf octets = groups at *
      have total := congrArg List.length split
      have leftSmall : ∀ g ∈ groups.take start, g < 65536 :=
        fun g held => small g (List.mem_of_mem_take held)
      have rightSmall : ∀ g ∈ groups.drop (start + zeros), g < 65536 :=
        fun g held => small g (List.mem_of_mem_drop held)
      have octetsEq : octets = (groups.take start).flatMap octetsOfGroup ++
          (List.replicate (2 * zeros) 0 ++ (groups.drop (start + zeros)).flatMap octetsOfGroup) := by
        rw [← flatMap_zeros, ← List.flatMap_append, ← List.flatMap_append, ← split, back]
      simp only [List.length_append, List.length_replicate, count] at total
      simp only
      split
      · next six =>
          obtain ⟨rfl, rfl⟩ := six
          have four : (octets.drop 12).length = 4 := by rw [List.length_drop, sixteen]
          have side := parseSide_quad [] (by simp) (octets.drop 12) four
          have whole := inetPton6_double [] _ [] _ (plain_of_free [] (by simp)) rfl side
            (by simp [sixteen])
          simp only [List.map_nil, List.nil_append, List.intercalate_singleton, List.flatMap_nil,
            List.length_nil, four] at whole
          rw [whole]
          have tail : octets.drop 12 = (groups.drop 6).flatMap octetsOfGroup := by
            rw [octetsEq]
            simp
          rw [tail]
          conv_rhs => rw [octetsEq]
          simp
      · split
        · next five =>
            obtain ⟨rfl, rfl, mapped⟩ := five
            have four : (octets.drop 12).length = 4 := by rw [List.length_drop, sixteen]
            have side := parseSide_quad [0xffff] (by simp) (octets.drop 12) four
            have whole := inetPton6_double [] _ [] _ (plain_of_free [] (by simp)) rfl side
              (by simp [sixteen, octetsOfGroup])
            simp only [List.map_cons, List.map_nil, List.singleton_append, intercalate_cons_cons,
              List.intercalate_singleton, List.nil_append, List.flatMap_cons, List.flatMap_nil,
              List.append_nil, List.length_nil] at whole
            rw [whole]
            have split5 : groups.drop 5 = 0xffff :: groups.drop 6 := by
              rw [List.drop_eq_getElem_cons (by omega)]
              rw [List.getElem?_eq_getElem (by omega), Option.some.injEq] at mapped
              rw [mapped]
            have tail : octets.drop 12 = (groups.drop 6).flatMap octetsOfGroup := by
              rw [octetsEq]
              simp [split5, octetsOfGroup]
            conv_rhs => rw [octetsEq]
            simp [split5, tail, octetsOfGroup, count]
        · have leftCount := length_flatMap_groups (groups.take start)
          have rightCount := length_flatMap_groups (groups.drop (start + zeros))
          rw [inetPton6_double _ _ _ _ (plain_joinGroups _ leftSmall).1
            (parseSide_joinGroups false _ leftSmall) (parseSide_joinGroups true _ rightSmall)
            (by omega)]
          conv_rhs => rw [octetsEq]
          rw [leftCount, rightCount, List.append_assoc,
            show 16 - 2 * (groups.take start).length - 2 * (groups.drop (start + zeros)).length =
              2 * zeros by omega]

end Trench.Wire
