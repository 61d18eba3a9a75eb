import Mathlib
import Trench.Dhcp.Server

set_option autoImplicit false

/- The octets of a DHCP packet, written and read back. -/
namespace Trench.Dhcp

open Wire

/-! ### Options -/

/-- What the octets in front of the end are made of. -/
inductive Field where
  | pad
  | option (code : UInt8) (value : Octets)

namespace Field

def octets : Field → Octets
  | .pad => [0]
  | .option code value => code :: UInt8.ofNat value.length :: value

/-- One that can stand there. -/
def Proper : Field → Prop
  | .pad => True
  | .option code value => code ≠ 0 ∧ code ≠ Opt.stop ∧ value.length ≤ 255

/-- Instances of one code are one value. -/
def read (opts : Dict UInt8 Octets) : Field → Dict UInt8 Octets
  | .pad => opts
  | .option code value => opts.set code ((opts.get? code).getD [] ++ value)

end Field

namespace DhcpPacket

/-- Every octet up to the end option belongs to a field, and the options are those of the fields. -/
structure Accounts (fields : List Field) (rest data : Octets) : Prop where
  written : data = fields.flatMap Field.octets ++ rest
  proper : ∀ f ∈ fields, f.Proper
  ended : rest = [] ∨ rest.head? = some Opt.stop

section

variable {fuel : Nat} {data : Octets} {opts : Dict UInt8 Octets}

theorem parseOptions_of_accounts {fields : List Field} {rest : Octets} (accounts : Accounts fields rest data)
    (enough : data.length ≤ fuel) : parseOptions fuel data opts = some (fields.foldl Field.read opts) := by
  obtain ⟨written, proper, ended⟩ := accounts
  induction fields generalizing fuel data opts with
  | nil =>
      rw [List.flatMap_nil, List.nil_append] at written
      subst written
      cases data with
      | nil => cases fuel <;> rfl
      | cons code more =>
          cases fuel with
          | zero => exact absurd enough (Nat.not_succ_le_zero _)
          | succ fuel =>
              rw [parseOptions.eq_def]
              dsimp only
              rw [if_pos]
              · rfl
              · exact Option.some.inj (ended.resolve_left (List.cons_ne_nil _ _))
  | cons f fields ih =>
      obtain ⟨fits, others⟩ := List.forall_mem_cons.mp proper
      rw [List.flatMap_cons, List.append_assoc] at written
      rw [List.foldl_cons]
      cases f with
      | pad =>
          subst written
          cases fuel with
          | zero => exact absurd enough (Nat.not_succ_le_zero _)
          | succ fuel =>
              change (0 :: (fields.flatMap Field.octets ++ rest)).length ≤ fuel + 1 at enough
              change parseOptions fuel (fields.flatMap Field.octets ++ rest) opts = _
              exact ih (Nat.le_of_succ_le_succ enough) rfl others
      | option code value =>
          subst written
          obtain ⟨some', open', short⟩ := fits
          cases fuel with
          | zero => exact absurd enough (Nat.not_succ_le_zero _)
          | succ fuel =>
              change (code :: UInt8.ofNat value.length :: (value ++ _)).length ≤ fuel + 1 at enough
              change parseOptions (fuel + 1) (code :: UInt8.ofNat value.length :: (value ++ _)) opts = _
              have length : (UInt8.ofNat value.length).toNat = value.length := by
                rw [UInt8.toNat_ofNat', Nat.mod_eq_of_lt (by omega)]
              rw [List.length_cons, List.length_cons, List.length_append] at enough
              rw [parseOptions.eq_def]
              dsimp only
              rw [if_neg open', if_neg some', length, if_neg (by rw [List.length_append]; omega), List.drop_left, List.take_left]
              exact ih (by omega) rfl others

theorem accounts_of_parseOptions {read : Dict UInt8 Octets} (enough : data.length ≤ fuel)
    (parsed : parseOptions fuel data opts = some read) :
    ∃ fields rest, Accounts fields rest data ∧ read = fields.foldl Field.read opts := by
  induction fuel generalizing data opts with
  | zero =>
      obtain rfl := List.length_eq_zero_iff.mp (Nat.le_zero.mp enough)
      cases parsed
      exact ⟨[], [], ⟨rfl, fun _ none => absurd none List.not_mem_nil, .inl rfl⟩, rfl⟩
  | succ fuel ih =>
      cases data with
      | nil =>
          cases parsed
          exact ⟨[], [], ⟨rfl, fun _ none => absurd none List.not_mem_nil, .inl rfl⟩, rfl⟩
      | cons code more =>
          have less := Nat.le_of_succ_le_succ enough
          rw [parseOptions.eq_def] at parsed
          dsimp only at parsed
          split at parsed
          · next last =>
              cases parsed
              exact ⟨[], code :: more, ⟨rfl, fun _ none => absurd none List.not_mem_nil,
                .inr (congrArg some last)⟩, rfl⟩
          · next open' =>
              split at parsed
              · next zero =>
                  obtain ⟨fields, rest, ⟨written, proper, ended⟩, same⟩ := ih less parsed
                  refine ⟨.pad :: fields, rest, ⟨?_, List.forall_mem_cons.mpr ⟨trivial, proper⟩, ended⟩, same⟩
                  rw [written, zero]
                  rfl
              · next some' =>
                  cases more with
                  | nil => cases parsed
                  | cons length more =>
                      dsimp only at parsed
                      split at parsed
                      · cases parsed
                      · next whole =>
                          rw [List.length_cons] at less
                          obtain ⟨fields, rest, ⟨written, proper, ended⟩, same⟩ :=
                            ih (by rw [List.length_drop]; omega) parsed
                          have size : (more.take length.toNat).length = length.toNat := by
                            rw [List.length_take]
                            omega
                          have octet := length.toNat_lt
                          refine ⟨.option code (more.take length.toNat) :: fields, rest,
                            ⟨?_, List.forall_mem_cons.mpr ⟨⟨some', open', by omega⟩, proper⟩, ended⟩, same⟩
                          rw [List.flatMap_cons, Field.octets, size, UInt8.ofNat_toNat]
                          simp only [List.cons_append, List.append_assoc, ← written, List.take_append_drop]

end

/-! ### The packet -/

/-- The parts of a value that one option each can carry; an empty value is one empty part. -/
def parts (value : Octets) : List Octets :=
  if value = [] then [[]]
  else (List.range ((value.length + 254) / 255)).map fun n => (value.drop (255 * n)).take 255

def optionFields (e : UInt8 × Octets) : List Field := (parts e.2).map (.option e.1)

/-- `(self.chaddr + b"\x00" * 16)[:16]`. -/
def paddedChaddr (p : DhcpPacket) : Octets := (p.chaddr ++ List.replicate 16 0).take 16

/-- `to_wire`. -/
def toWire (p : DhcpPacket) : Octets :=
  let out := [p.op, p.htype, p.hlen, p.hops] ++ octets32 p.xid ++ octets16 p.secs ++ octets16 p.flags ++
    octets32 p.ciaddr ++ octets32 p.yiaddr ++ octets32 p.siaddr ++ octets32 p.giaddr ++ p.paddedChaddr ++
    List.replicate 64 0 ++ List.replicate 128 0 ++ [0x63, 0x82, 0x53, 0x63] ++
    (p.options.entries.flatMap optionFields).flatMap Field.octets ++ [Opt.stop]
  out ++ List.replicate (300 - out.length) 0

/-! ### What is read back -/

theorem flatten_slices (value : Octets) (n : Nat) :
    ((List.range n).map fun i => (value.drop (255 * i)).take 255).flatten = value.take (255 * n) := by
  induction n with
  | zero => rw [Nat.mul_zero, List.take_zero, List.range_zero, List.map_nil, List.flatten_nil]
  | succ n ih =>
      rw [List.range_succ, List.map_append, List.flatten_append, ih, List.map_singleton, List.flatten_singleton,
        Nat.mul_succ, List.take_add]

theorem flatten_parts (value : Octets) : (parts value).flatten = value := by
  rw [parts]
  split
  · next none => rw [none, List.flatten_singleton]
  · rw [flatten_slices, List.take_of_length_le (by omega)]

theorem parts_ne_nil (value : Octets) : parts value ≠ [] := by
  rw [parts]
  split
  · exact List.cons_ne_nil _ _
  · next some' =>
      have length := List.length_pos_iff.mpr some'
      rw [← List.length_pos_iff, List.length_map, List.length_range]
      omega

theorem length_le_of_parts {value part : Octets} (held : part ∈ parts value) : part.length ≤ 255 := by
  rw [parts] at held
  split at held
  · rw [List.mem_singleton.mp held]
    exact Nat.zero_le _
  · obtain ⟨n, -, rfl⟩ := List.mem_map.mp held
    rw [List.length_take]
    exact Nat.min_le_left _ _

theorem read_read (opts : Dict UInt8 Octets) (code : UInt8) (a b : Octets) :
    Field.read (Field.read opts (.option code a)) (.option code b) = Field.read opts (.option code (a ++ b)) := by
  rw [Field.read, Field.read, Field.read, Dict.set_set, Dict.get?_set, if_pos BEq.rfl, Option.getD_some,
    List.append_assoc]

/-- The parts of a value are read as one value. -/
theorem read_optionFields (opts : Dict UInt8 Octets) (e : UInt8 × Octets) :
    (optionFields e).foldl Field.read opts = opts.set e.1 ((opts.get? e.1).getD [] ++ e.2) := by
  have joined (more : List Octets) : ∀ (first : Octets) (opts : Dict UInt8 Octets),
      ((first :: more).map (Field.option e.1)).foldl Field.read opts =
        Field.read opts (.option e.1 (first :: more).flatten) := by
    induction more with
    | nil => exact fun first opts => by rw [List.flatten_singleton]; rfl
    | cons second more ih =>
        intro first opts
        rw [List.map_cons, List.foldl_cons, ih, read_read, List.flatten_cons (l := first)]
  obtain ⟨first, more, cut⟩ := List.exists_cons_of_ne_nil (parts_ne_nil e.2)
  rw [optionFields, cut, joined, ← cut, flatten_parts]
  rfl

theorem read_options (d : Dict UInt8 Octets) :
    (d.entries.flatMap optionFields).foldl Field.read .empty = d := by
  have one (opts : Dict UInt8 Octets) : ∀ e, (optionFields e).foldl Field.read opts =
      opts.set e.1 ((opts.get? e.1).getD [] ++ e.2) := read_optionFields opts
  rw [List.foldl_flatMap]
  simp only [one]
  refine Dict.ext_entries ((Dict.entries_foldl_set .empty d.entries _ (fun _ _ => rfl) d.distinct ?_).trans
    (List.nil_append _))
  intro d e missing
  have none : d.get? e.1 = none := by
    rw [← Option.not_isSome_iff_eq_none, ← Dict.contains_iff, missing]
    exact Bool.false_ne_true
  rw [none]
  rfl

theorem accounts_optionFields {entries : List (UInt8 × Octets)} (codes : ∀ e ∈ entries, e.1 ≠ 0 ∧ e.1 ≠ Opt.stop)
    (more : Octets) : Accounts (entries.flatMap optionFields) (Opt.stop :: more)
      ((entries.flatMap optionFields).flatMap Field.octets ++ Opt.stop :: more) := by
  refine ⟨rfl, fun f held => ?_, .inr rfl⟩
  obtain ⟨e, listed, held⟩ := List.mem_flatMap.mp held
  obtain ⟨part, cut, rfl⟩ := List.mem_map.mp held
  exact ⟨(codes e listed).1, (codes e listed).2, length_le_of_parts cut⟩

theorem length_paddedChaddr (p : DhcpPacket) : p.paddedChaddr.length = 16 := by
  rw [paddedChaddr, List.length_take, List.length_append, List.length_replicate]
  omega

theorem u16At_octets16 (v : UInt16) : u16At (octets16 v) 0 = v := join16_octets16 v

theorem u32At_octets32 (v : UInt32) : u32At (octets32 v) 0 = v := by
  change join32 (u16At (octets16 (UInt16.ofNat (v.toNat / 65536))) 0)
    (u16At (octets16 (UInt16.ofNat (v.toNat % 65536))) 0) = v
  rw [u16At_octets16, u16At_octets16, join32_halves]

/-- The octets in front of the hardware address. -/
def front (p : DhcpPacket) : Octets :=
  [p.op, p.htype, p.hlen, p.hops] ++ octets32 p.xid ++ octets16 p.secs ++ octets16 p.flags ++ octets32 p.ciaddr ++
    octets32 p.yiaddr ++ octets32 p.siaddr ++ octets32 p.giaddr

theorem toWire_eq (p : DhcpPacket) : ∃ n, p.toWire = p.front ++ (p.paddedChaddr ++ (List.replicate 192 0 ++
    ([0x63, 0x82, 0x53, 0x63] ++
      ((p.options.entries.flatMap optionFields).flatMap Field.octets ++ Opt.stop :: List.replicate n 0)))) := by
  rw [toWire]
  generalize 300 - _ = n
  refine ⟨n, ?_⟩
  have zeros : List.replicate 192 (0 : UInt8) = List.replicate 64 0 ++ List.replicate 128 0 := rfl
  simp only [zeros, front, List.append_assoc, List.singleton_append]

theorem parse_eq {data : Octets} {options : Dict UInt8 Octets} (long : 240 ≤ data.length)
    (cookie : (data.drop 236).take 4 = [0x63, 0x82, 0x53, 0x63])
    (read : parseOptions data.length (data.drop 240) .empty = some options) :
    parse data = some {
      op := data.getD 0 0
      htype := data.getD 1 0
      hlen := data.getD 2 0
      hops := data.getD 3 0
      xid := u32At data 4
      secs := u16At data 8
      flags := u16At data 10
      ciaddr := u32At data 12
      yiaddr := u32At data 16
      siaddr := u32At data 20
      giaddr := u32At data 24
      chaddr := (data.drop 28).take 16
      options } := by
  have fits : ¬(data.length < 240 ∨ (data.drop 236).take 4 ≠ [0x63, 0x82, 0x53, 0x63]) := by
    rintro (few | other)
    · omega
    · exact other cookie
  rw [parse, if_neg fits, read]
  rfl

/-- What is written is long enough, has the cookie, and is read where it was written. -/
theorem parse_toWire (p : DhcpPacket) (short : p.chaddr.length ≤ 16)
    (codes : ∀ e ∈ p.options.entries, e.1 ≠ 0 ∧ e.1 ≠ Opt.stop) :
    parse p.toWire = some { p with chaddr := p.paddedChaddr } := by
  obtain ⟨n, written⟩ := p.toWire_eq
  have accounts := accounts_optionFields codes (List.replicate n 0)
  have first : p.front.length = 28 := rfl
  have op : p.front.getD 0 0 = p.op := rfl
  have htype : p.front.getD 1 0 = p.htype := rfl
  have hlen : p.front.getD 2 0 = p.hlen := rfl
  have hops : p.front.getD 3 0 = p.hops := rfl
  have xid : u32At p.front 4 = p.xid := u32At_octets32 p.xid
  have secs : u16At p.front 8 = p.secs := u16At_octets16 p.secs
  have flags : u16At p.front 10 = p.flags := u16At_octets16 p.flags
  have ciaddr : u32At p.front 12 = p.ciaddr := u32At_octets32 p.ciaddr
  have yiaddr : u32At p.front 16 = p.yiaddr := u32At_octets32 p.yiaddr
  have siaddr : u32At p.front 20 = p.siaddr := u32At_octets32 p.siaddr
  have giaddr : u32At p.front 24 = p.giaddr := u32At_octets32 p.giaddr
  have padded := p.length_paddedChaddr
  generalize p.toWire = data at written ⊢
  generalize p.front = front at *
  generalize (p.options.entries.flatMap optionFields).flatMap Field.octets ++ Opt.stop :: List.replicate n 0 =
    options at written accounts
  have long : 240 ≤ data.length := by
    rw [written]
    simp only [List.length_append, first, padded, List.length_replicate, List.length_cons, List.length_nil]
    omega
  have hardware : (data.drop 28).take 16 = p.paddedChaddr := by
    rw [written, List.drop_left' first, List.take_left' padded]
  have behind : data.drop 236 = [0x63, 0x82, 0x53, 0x63] ++ options := by
    rw [written, ← List.append_assoc, ← List.append_assoc, List.drop_left']
    rw [List.length_append, List.length_append, first, padded, List.length_replicate]
  have last : data.drop 240 = options := by
    rw [show 240 = 236 + 4 from rfl, ← List.drop_drop, behind]
    rfl
  have cookie : (data.drop 236).take 4 = [0x63, 0x82, 0x53, 0x63] := by
    rw [behind]
    rfl
  have read : parseOptions data.length (data.drop 240) .empty = some p.options := by
    rw [last, parseOptions_of_accounts accounts, read_options]
    rw [← last, List.length_drop]
    exact Nat.sub_le _ _
  have octet (i : Nat) (early : i < 28) : data.getD i 0 = front.getD i 0 := by
    rw [written, List.getD_append _ _ _ _ (by rw [first]; exact early)]
  have double (i : Nat) (early : i + 1 < 28) : u16At data i = u16At front i := by
    rw [u16At, u16At, octet i (by omega), octet (i + 1) early]
  have quad (i : Nat) (early : i + 3 < 28) : u32At data i = u32At front i := by
    rw [u32At, u32At, double i (by omega), double (i + 2) early]
  rw [parse_eq long cookie read, hardware, octet 0 (by decide), octet 1 (by decide), octet 2 (by decide),
    octet 3 (by decide), quad 4 (by decide), double 8 (by decide), double 10 (by decide), quad 12 (by decide),
    quad 16 (by decide), quad 20 (by decide), quad 24 (by decide), op, htype, hlen, hops, xid, secs, flags, ciaddr,
    yiaddr, siaddr, giaddr]

/-- A packet is read, with every octet of its options accounted for, or is not well formed. -/
theorem parse_cases (data : Octets) :
    (∃ p fields rest, parse data = some p ∧ Accounts fields rest (data.drop 240) ∧
      p.options = fields.foldl Field.read .empty) ∨
    (parse data = none ∧ (data.length < 240 ∨ (data.drop 236).take 4 ≠ [0x63, 0x82, 0x53, 0x63] ∨
      ∀ fields rest, ¬Accounts fields rest (data.drop 240))) := by
  have enough : (data.drop 240).length ≤ data.length := by
    rw [List.length_drop]
    exact Nat.sub_le _ _
  by_cases fits : data.length < 240 ∨ (data.drop 236).take 4 ≠ [0x63, 0x82, 0x53, 0x63]
  · refine .inr ⟨?_, fits.imp_right .inl⟩
    rw [parse, if_pos fits]
  · obtain ⟨long, cookie⟩ := not_or.mp fits
    cases read : parseOptions data.length (data.drop 240) .empty with
    | none =>
        refine .inr ⟨?_, .inr (.inr fun fields rest accounts => ?_)⟩
        · rw [parse, if_neg fits, read]
          rfl
        · rw [parseOptions_of_accounts accounts enough] at read
          cases read
    | some options =>
        obtain ⟨fields, rest, accounts, same⟩ := accounts_of_parseOptions enough read
        exact .inl ⟨_, fields, rest, parse_eq (not_lt.mp long) (not_not.mp cookie) read, accounts, same⟩

/-- A packet is read back as it was written, and whatever arrives is read as the fields it is made of, or
refused. -/
theorem packet_roundTrips :
    (∀ p : DhcpPacket, p.chaddr.length ≤ 16 → (∀ e ∈ p.options.entries, e.1 ≠ 0 ∧ e.1 ≠ Opt.stop) →
      parse p.toWire = some { p with chaddr := p.paddedChaddr }) ∧
    ∀ data, (∃ p fields rest, parse data = some p ∧ Accounts fields rest (data.drop 240) ∧
        p.options = fields.foldl Field.read .empty) ∨
      (parse data = none ∧ (data.length < 240 ∨ (data.drop 236).take 4 ≠ [0x63, 0x82, 0x53, 0x63] ∨
        ∀ fields rest, ¬Accounts fields rest (data.drop 240))) :=
  ⟨parse_toWire, parse_cases⟩

/-- An empty value, one of a single option and one that takes two. -/
def longOptions : Dict UInt8 Octets :=
  ((Dict.empty.set Opt.hostname []).set Opt.msgType [5]).set Opt.dnr (List.replicate 300 7)

theorem packet_roundTrips_long : parse (toWire { options := longOptions }) =
    some { options := longOptions, chaddr := List.replicate 16 0 } :=
  packet_roundTrips.1 { options := longOptions } (by decide) (by decide)

end DhcpPacket

end Trench.Dhcp
