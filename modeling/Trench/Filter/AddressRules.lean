import Mathlib
import Trench.Filter.Engine
import Trench.Lib.IgnoreCase
import Trench.Wire.IpAddress

set_option autoImplicit false

/- Rules on the addresses of an answer. A table holds the networks of one prefix length, so the
tables are tried from the longest prefix down. -/

namespace Trench.Filter

open Wire

namespace IPMatcher

/-- `table.setdefault(prefixlen, {})[network] = source` -/
def put (table : Dict Nat (Dict Nat Text)) (net : IpNetwork) (source : Text) : Dict Nat (Dict Nat Text) :=
  table.set net.prefixlen (((table.get? net.prefixlen).getD Dict.empty).set net.value source)

def add (ips : IPMatcher) (cidr source : Text) : Bool × IPMatcher :=
  match ipNetwork (Name.strip cidr) with
  | none => (false, ips)
  | some net =>
      if net.six then (true, { ips with v6 := put ips.v6 net source, size := ips.size + 1 })
      else (true, { ips with v4 := put ips.v4 net source, size := ips.size + 1 })

/-- A matcher after so many networks with their sources. -/
def added (adds : List (Text × Text)) : IPMatcher := adds.foldl (fun ips a => (ips.add a.1 a.2).2) {}

/-- What the tables hold for a network. -/
def lookup (ips : IPMatcher) (net : IpNetwork) : Option Text :=
  ((if net.six then ips.v6 else ips.v4).get? net.prefixlen).bind fun networks => networks.get? net.value

end IPMatcher

/-- The source that a network was last added with. -/
def lastSource (adds : List (Text × Text)) (net : IpNetwork) : Option Text :=
  (adds.reverse.find? fun a => ipNetwork (Name.strip a.1) == some net).map Prod.snd

/-- The address and the prefix fit the family, and no bit behind the prefix is set. -/
structure IsNetwork (net : IpNetwork) : Prop where
  prefixlen : net.prefixlen ≤ addressBits net.six
  value : net.value < 2 ^ addressBits net.six
  cleared : masked net.six net.value net.prefixlen = net.value

theorem addressValue_append (octets : Octets) (o : UInt8) :
    addressValue (octets ++ [o]) = addressValue octets * 256 + o.toNat := by
  unfold addressValue
  rw [List.foldl_append]
  rfl

theorem addressValue_lt (octets : Octets) : addressValue octets < 256 ^ octets.length := by
  induction octets using List.reverseRecOn with
  | nil => decide
  | append_singleton octets o ih =>
      have last := o.toNat_lt
      rw [addressValue_append, List.length_append, List.length_singleton, pow_succ]
      omega

theorem value_of_ipv4Address {s : Text} {addr : IpAddress} (read : ipv4Address s = some addr) :
    addr.six = false ∧ addr.value < 2 ^ addressBits false := by
  rw [ipv4Address] at read
  split at read
  · cases read
  · obtain ⟨octets, quad, read⟩ := Option.bind_eq_some_iff.mp read
    cases read
    have bound := addressValue_lt octets
    rw [length_inetPton4 quad] at bound
    exact ⟨rfl, bound⟩

theorem value_of_ipv6Address {s : Text} {addr : IpAddress} (read : ipv6Address s = some addr) :
    addr.six = true ∧ addr.value < 2 ^ addressBits true := by
  refine ⟨six_of_ipv6Address read, ?_⟩
  rw [ipv6Address] at read
  split at read
  · cases read
  · obtain ⟨octets, groups, read⟩ := Option.bind_eq_some_iff.mp read
    have bound := addressValue_lt octets
    rw [length_inetPton6 groups] at bound
    split at read
    · cases read
      exact bound
    · split at read
      · cases read
      · cases read
        exact bound

theorem value_of_ipAddress {s : Text} {addr : IpAddress} (read : ipAddress s = some addr) :
    addr.value < 2 ^ addressBits addr.six := by
  rcases Option.or_eq_some_iff.mp read with four | ⟨-, six⟩
  · obtain ⟨family, bound⟩ := value_of_ipv4Address four
    rwa [family]
  · obtain ⟨family, bound⟩ := value_of_ipv6Address six
    rwa [family]

theorem masked_le (six : Bool) (value prefixlen : Nat) : masked six value prefixlen ≤ value :=
  Nat.div_mul_le_self _ _

theorem makeNetmask_le {six : Bool} {s : Text} {n : Nat} (read : makeNetmask six s = some n) :
    n ≤ addressBits six := by
  unfold makeNetmask at read
  rcases Option.or_eq_some_iff.mp read with digits | ⟨-, mask⟩
  · unfold prefixOfDigits at digits
    split at digits
    · cases digits
    · dsimp only at digits
      split at digits
      · next fits =>
          obtain rfl := Option.some.inj digits
          exact fits
      · cases digits
  · cases six with
    | true => cases mask
    | false =>
        have short {m p : Nat} (found : prefixOfMask m = some p) : p ≤ 32 := by
          have held := List.mem_of_find?_eq_some found
          rw [List.mem_range] at held
          omega
        obtain ⟨octets, -, found⟩ := Option.bind_eq_some_iff.mp mask
        rcases Option.or_eq_some_iff.mp found with found | ⟨-, found⟩
        · exact short found
        · exact short found

/-- What `ip_network` returns is a network. -/
theorem isNetwork_of_ipNetwork {s : Text} {net : IpNetwork} (read : ipNetwork s = some net) : IsNetwork net := by
  have family {address : Text → Option IpAddress} {six : Bool}
      (good : ∀ {s addr}, address s = some addr → addr.value < 2 ^ addressBits six)
      (read : networkOf address six s = some net) : IsNetwork net := by
    unfold networkOf at read
    split at read
    · obtain ⟨addr, found, rfl⟩ := Option.map_eq_some_iff.mp read
      exact ⟨le_rfl, good found, masked_bits six addr.value⟩
    · obtain ⟨addr, found, read⟩ := Option.bind_eq_some_iff.mp read
      obtain ⟨n, mask, read⟩ := Option.bind_eq_some_iff.mp read
      cases read
      exact ⟨makeNetmask_le mask, (masked_le six addr.value n).trans_lt (good found), masked_masked six addr.value n⟩
    · cases read
  rcases Option.or_eq_some_iff.mp read with four | ⟨-, six⟩
  · exact family (fun found => (value_of_ipv4Address found).2) four
  · exact family (fun found => (value_of_ipv6Address found).2) six

/-! ### The tables -/

namespace IPMatcher

theorem get?_put (table : Dict Nat (Dict Nat Text)) (net : IpNetwork) (source : Text) (length value : Nat) :
    ((put table net source).get? length).bind (fun networks => networks.get? value) =
      if net.prefixlen = length ∧ net.value = value then some source
      else (table.get? length).bind fun networks => networks.get? value := by
  rw [put, Dict.get?_set_eq]
  by_cases same : net.prefixlen = length
  · subst same
    rw [if_pos rfl, Option.bind_some, Dict.get?_set_eq]
    by_cases level : net.value = value
    · rw [if_pos level, if_pos ⟨rfl, level⟩]
    · rw [if_neg level, if_neg fun both => level both.2]
      cases table.get? net.prefixlen <;> rfl
  · rw [if_neg same, if_neg fun both => same both.1]

theorem lookup_add (ips : IPMatcher) (cidr source : Text) (net : IpNetwork) :
    (ips.add cidr source).2.lookup net =
      if ipNetwork (Name.strip cidr) = some net then some source else ips.lookup net := by
  unfold add
  cases read : ipNetwork (Name.strip cidr) with
  | none => rfl
  | some net' =>
      rcases net with ⟨six, value, prefixlen⟩
      rcases net' with ⟨six', value', prefixlen'⟩
      have same : (some (IpNetwork.mk six' value' prefixlen') = some ⟨six, value, prefixlen⟩) ↔
          six' = six ∧ prefixlen' = prefixlen ∧ value' = value := by
        rw [Option.some.injEq, IpNetwork.mk.injEq]
        tauto
      simp only [same]
      cases six <;> cases six' <;> simp [lookup, get?_put]

/-- The tables hold for every network the source that was last given for it. -/
theorem lookup_added (adds : List (Text × Text)) (net : IpNetwork) :
    (added adds).lookup net = lastSource adds net := by
  unfold added lastSource
  induction adds using List.reverseRecOn with
  | nil =>
      unfold lookup
      split <;> rfl
  | append_singleton adds a ih =>
      rw [List.foldl_concat, lookup_add, ih, List.reverse_concat, List.find?_cons]
      by_cases same : ipNetwork (Name.strip a.1) = some net
      · rw [if_pos same, same, beq_self_eq_true]
        rfl
      · rw [if_neg same, beq_false_of_ne same]

end IPMatcher

theorem lastSource_eq_some {adds : List (Text × Text)} {net : IpNetwork} {source : Text}
    (held : lastSource adds net = some source) : ∃ a ∈ adds, ipNetwork (Name.strip a.1) = some net := by
  obtain ⟨a, found, -⟩ := Option.map_eq_some_iff.mp held
  have hit := List.find?_some found
  exact ⟨a, List.mem_reverse.mp (List.mem_of_find?_eq_some found), by simpa using hit⟩

theorem lastSource_isSome {adds : List (Text × Text)} {net : IpNetwork} {a : Text × Text} (listed : a ∈ adds)
    (read : ipNetwork (Name.strip a.1) = some net) : ∃ source, lastSource adds net = some source := by
  unfold lastSource
  cases found : adds.reverse.find? fun a => ipNetwork (Name.strip a.1) == some net with
  | none =>
      have missed := List.find?_eq_none.mp found a (List.mem_reverse.mpr listed)
      rw [read, beq_self_eq_true] at missed
      exact absurd rfl missed
  | some b => exact ⟨b.2, rfl⟩

/-- The first hit down a descending list is the hit at the highest entry. -/
theorem findSome?_descending {β : Type} {f : Nat → Option β} {ns : List Nat} (descending : ns.Pairwise (· ≥ ·))
    (covers : ∀ n b, f n = some b → n ∈ ns) (b : β) :
    ns.findSome? f = some b ↔ ∃ n, f n = some b ∧ ∀ m, n < m → f m = none := by
  have first {b : β} (found : ns.findSome? f = some b) : ∃ n, f n = some b ∧ ∀ m, n < m → f m = none := by
    obtain ⟨before, n, after, rfl, hit, missed⟩ := List.findSome?_eq_some_iff.mp found
    refine ⟨n, hit, fun m above => ?_⟩
    cases other : f m with
    | none => rfl
    | some c =>
        rcases List.mem_append.mp (covers m c other) with early | late
        · rw [missed m early] at other
          cases other
        · have under := (List.pairwise_append.mp descending).2.1
          rcases List.mem_cons.mp late with rfl | late
          · exact absurd above (lt_irrefl m)
          · exact absurd (List.rel_of_pairwise_cons under late) (not_le.mpr above)
  constructor
  · exact first
  · rintro ⟨n, hit, highest⟩
    cases found : ns.findSome? f with
    | none =>
        have missed := List.findSome?_eq_none_iff.mp found n (covers n b hit)
        rw [hit] at missed
        cases missed
    | some c =>
        obtain ⟨m, hit', highest'⟩ := first found
        rcases lt_trichotomy n m with less | rfl | more
        · rw [highest m less] at hit'
          cases hit'
        · rw [hit] at hit'
          exact hit'.symm
        · rw [highest' n more] at hit
          cases hit

theorem findSome?_eq_none_of_covers {β : Type} {f : Nat → Option β} {ns : List Nat}
    (covers : ∀ n b, f n = some b → n ∈ ns) : ns.findSome? f = none ↔ ∀ n, f n = none := by
  rw [List.findSome?_eq_none_iff]
  constructor
  · intro missed n
    cases hit : f n with
    | none => rfl
    | some b =>
        rw [missed n (covers n b hit)] at hit
        cases hit
  · exact fun missed n _ => missed n

/-- The mask of a prefix clears the bits behind it. -/
theorem and_mask {six : Bool} {value length : Nat} (fits : length ≤ addressBits six)
    (bound : value < 2 ^ addressBits six) :
    value &&& (if length = 0 then 0 else ((1 <<< length) - 1) <<< (addressBits six - length)) =
      masked six value length := by
  unfold masked
  generalize addressBits six = bits at *
  by_cases none : length = 0
  · subst none
    dsimp only
    rw [if_pos rfl, Nat.and_zero, Nat.sub_zero, Nat.div_eq_of_lt bound, Nat.zero_mul]
  · rw [if_neg none]
    apply Nat.eq_of_testBit_eq
    intro i
    rw [Nat.testBit_and, Nat.testBit_shiftLeft, Nat.one_shiftLeft, Nat.testBit_two_pow_sub_one,
      Nat.testBit_mul_two_pow, Nat.testBit_div_two_pow]
    by_cases low : bits - length ≤ i
    · by_cases high : bits ≤ i
      · have clear : value.testBit i = false :=
          Nat.testBit_lt_two_pow (bound.trans_le (Nat.pow_le_pow_right Nat.two_pos high))
        simp [low, clear]
      · have inside : i - (bits - length) < length := by omega
        simp [low, inside]
    · simp [low]

namespace IPMatcher

/-- `ip_address`, as the matcher takes it: the version and the value. -/
def versioned (s : Text) : Option (Nat × Nat) := (ipAddress s).map fun addr => (if addr.six then 6 else 4, addr.value)

theorem find_eq_longest {lib : Library} {ip : Text} {addr : IpAddress} (read : ipAddress ip = some addr)
    (ips : IPMatcher) : ips.find { lib with address := versioned } ip =
      longest (if addr.six then ips.v6 else ips.v4) (addressBits addr.six) addr.value := by
  unfold find versioned
  dsimp only
  rw [read]
  cases six : addr.six <;> simp [six, addressBits]

/-- The network of an address at a prefix length. -/
def around (addr : IpAddress) (length : Nat) : IpNetwork := ⟨addr.six, masked addr.six addr.value length, length⟩

theorem contains_iff {net : IpNetwork} {addr : IpAddress} :
    net.contains addr = true ↔ net = around addr net.prefixlen := by
  rcases net with ⟨six, value, prefixlen⟩
  unfold IpNetwork.contains around
  rw [Bool.and_eq_true, beq_iff_eq, beq_iff_eq, IpNetwork.mk.injEq]
  constructor
  · rintro ⟨rfl, same⟩
    exact ⟨rfl, same.symm, rfl⟩
  · rintro ⟨rfl, same, -⟩
    exact ⟨rfl, same.symm⟩

/-- The hit that the matcher looks for at a length. -/
theorem hit_added (adds : List (Text × Text)) {ip : Text} {addr : IpAddress} (read : ipAddress ip = some addr)
    (length : Nat) :
    ((if addr.six then (added adds).v6 else (added adds).v4).get? length).bind (fun networks =>
      networks.get? (addr.value &&&
        (if length = 0 then 0 else ((1 <<< length) - 1) <<< (addressBits addr.six - length)))) =
      lastSource adds (around addr length) := by
  have table (value : Nat) :
      ((if addr.six then (added adds).v6 else (added adds).v4).get? length).bind
        (fun networks => networks.get? value) = lastSource adds ⟨addr.six, value, length⟩ :=
    lookup_added adds ⟨addr.six, value, length⟩
  have long (value : Nat) (beyond : addressBits addr.six < length) :
      lastSource adds ⟨addr.six, value, length⟩ = none := by
    cases held : lastSource adds ⟨addr.six, value, length⟩ with
    | none => rfl
    | some source =>
        obtain ⟨a, -, network⟩ := lastSource_eq_some held
        exact absurd (isNetwork_of_ipNetwork network).prefixlen (not_le.mpr beyond)
  rw [table, around]
  by_cases fits : length ≤ addressBits addr.six
  · rw [and_mask fits (value_of_ipAddress read)]
  · rw [long _ (not_le.mp fits), long _ (not_le.mp fits)]

/-- A match is the source that was last given for the longest network with the address in it. -/
theorem find_added (lib : Library) (adds : List (Text × Text)) {ip : Text} {addr : IpAddress}
    (read : ipAddress ip = some addr) :
    (∀ source, (added adds).find { lib with address := versioned } ip = some source ↔
      ∃ n, lastSource adds (around addr n) = some source ∧
        ∀ m, n < m → lastSource adds (around addr m) = none) ∧
    ((added adds).find { lib with address := versioned } ip = none ↔ ∀ n, lastSource adds (around addr n) = none) := by
  have covers : ∀ n b, ((if addr.six then (added adds).v6 else (added adds).v4).get? n).bind (fun networks =>
      networks.get? (addr.value &&&
        (if n = 0 then 0 else ((1 <<< n) - 1) <<< (addressBits addr.six - n)))) = some b →
      n ∈ ((if addr.six then (added adds).v6 else (added adds).v4).entries.map Prod.fst).mergeSort
        fun a b => decide (b ≤ a) := by
    intro n b found
    obtain ⟨networks, held, -⟩ := Option.bind_eq_some_iff.mp found
    rw [List.mem_mergeSort]
    exact List.mem_map_of_mem (Dict.get?_eq_some_iff_mem.mp held)
  rw [find_eq_longest read, longest]
  constructor
  · intro source
    rw [findSome?_descending ((List.pairwise_mergeSort' (· ≥ ·) _).imp fun below => below) covers]
    simp only [hit_added adds read]
  · rw [findSome?_eq_none_of_covers covers]
    simp only [hit_added adds read]

/-- Address rules match by the longest prefix, for any sequence of networks that are added. -/
theorem longest_wins (lib : Library) (adds : List (Text × Text)) {ip : Text} {addr : IpAddress}
    (read : ipAddress ip = some addr) :
    (∀ source, (added adds).find { lib with address := versioned } ip = some source ↔
      ∃ net, net.contains addr = true ∧ lastSource adds net = some source ∧
        ∀ a ∈ adds, ∀ other, ipNetwork (Name.strip a.1) = some other → other.contains addr = true →
          other.prefixlen ≤ net.prefixlen) ∧
    ((added adds).find { lib with address := versioned } ip = none ↔
      ∀ a ∈ adds, ∀ net, ipNetwork (Name.strip a.1) = some net → net.contains addr = false) := by
  have inside (n : Nat) : (around addr n).contains addr = true := contains_iff.mpr rfl
  obtain ⟨hit, miss⟩ := find_added lib adds read
  constructor
  · intro source
    rw [hit source]
    constructor
    · rintro ⟨n, held, highest⟩
      refine ⟨around addr n, inside n, held, fun a listed other network holds => ?_⟩
      by_contra longer
      have none := highest other.prefixlen (not_le.mp longer)
      rw [← contains_iff.mp holds] at none
      obtain ⟨source, some⟩ := lastSource_isSome listed network
      rw [none] at some
      cases some
    · rintro ⟨net, holds, held, longest⟩
      refine ⟨net.prefixlen, contains_iff.mp holds ▸ held, fun m longer => ?_⟩
      cases other : lastSource adds (around addr m) with
      | none => rfl
      | some source =>
          obtain ⟨a, listed, network⟩ := lastSource_eq_some other
          exact absurd (longest a listed _ network (inside m)) (not_le.mpr longer)
  · rw [miss]
    constructor
    · intro none a listed net network
      by_contra holds
      obtain ⟨source, some⟩ := lastSource_isSome listed network
      rw [contains_iff.mp (Bool.eq_true_of_not_eq_false holds), none] at some
      cases some
    · intro outside n
      cases held : lastSource adds (around addr n) with
      | none => rfl
      | some source =>
          obtain ⟨a, listed, network⟩ := lastSource_eq_some held
          have apart := outside a listed _ network
          rw [inside n] at apart
          cases apart

end IPMatcher

end Trench.Filter
