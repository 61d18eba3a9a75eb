import Mathlib
import Trench.Wire.Cursor

set_option autoImplicit false

namespace Trench.Wire

/-- The fields of the OPT pseudo-record. -/
structure Edns where
  udpSize : UInt16 := 1232
  extRcode : UInt8 := 0
  version : UInt8 := 0
  flags : UInt16 := 0
  options : List (UInt16 × Octets) := []
  deriving DecidableEq

namespace EdnsOption

def ecs : UInt16 := 8
def cookie : UInt16 := 10
def tcpKeepalive : UInt16 := 11
def padding : UInt16 := 12
def extendedError : UInt16 := 15

end EdnsOption

namespace Edns

def getOption (e : Edns) (code : UInt16) : Option Octets :=
  (e.options.find? fun option => option.1 == code).map Prod.snd

def removeOption (e : Edns) (code : UInt16) : Edns :=
  { e with options := e.options.filter fun option => option.1 != code }

def setOption (e : Edns) (code : UInt16) (data : Octets) : Edns :=
  { e with options := (e.removeOption code).options ++ [(code, data)] }

/-- Padding up to a multiple of a block, behind so many octets without it. -/
def setPadding (e : Edns) (targetBlock currentLen : Nat) : Edns :=
  let totalWoPad := currentLen + 4
  let pad := (targetBlock - totalWoPad % targetBlock) % targetBlock
  (e.removeOption EdnsOption.padding).setOption EdnsOption.padding (List.replicate pad 0)

theorem mem_setOption {e : Edns} {code : UInt16} {data : Octets} {option : UInt16 × Octets}
    (held : option ∈ (e.setOption code data).options) :
    option ∈ e.options ∧ option.1 ≠ code ∨ option = (code, data) := by
  rcases List.mem_append.mp held with held | held
  · obtain ⟨listed, other⟩ := List.mem_filter.mp held
    exact .inl ⟨listed, bne_iff_ne.mp other⟩
  · exact .inr (List.mem_singleton.mp held)

theorem mem_removeOption {e : Edns} {code : UInt16} {option : UInt16 × Octets} :
    option ∈ (e.removeOption code).options ↔ option ∈ e.options ∧ option.1 ≠ code := by
  rw [removeOption, List.mem_filter, bne_iff_ne]

end Edns

/-- Decompose the TTL field. -/
def parseOptTtl (ttl : UInt32) : UInt8 × UInt8 × UInt16 :=
  (UInt8.ofNat (ttl.toNat / 2 ^ 24), UInt8.ofNat (ttl.toNat / 2 ^ 16), UInt16.ofNat ttl.toNat)

def buildOptTtl (extRcode version : UInt8) (flags : UInt16) : UInt32 :=
  UInt32.ofNat (extRcode.toNat * 2 ^ 24 + version.toNat * 2 ^ 16 + flags.toNat)

theorem parseOptTtl_buildOptTtl (extRcode version : UInt8) (flags : UInt16) :
    parseOptTtl (buildOptTtl extRcode version flags) = (extRcode, version, flags) := by
  have first := extRcode.toNat_lt
  have second := version.toNat_lt
  have third := flags.toNat_lt
  simp only [parseOptTtl, buildOptTtl, Prod.mk.injEq]
  refine ⟨UInt8.toNat_inj.mp ?_, UInt8.toNat_inj.mp ?_, UInt16.toNat_inj.mp ?_⟩
  · simp only [UInt8.toNat_ofNat', UInt32.toNat_ofNat']
    omega
  · simp only [UInt8.toNat_ofNat', UInt32.toNat_ofNat']
    omega
  · simp only [UInt16.toNat_ofNat', UInt32.toNat_ofNat']
    omega

/-- The loop of `parse_options`, which stops at an option cut short. Each round
takes four octets at least. -/
def optionsLoop : Nat → Octets → List (UInt16 × Octets)
  | fuel + 1, a :: b :: c :: d :: rest =>
      let length := (join16 c d).toNat
      if rest.length < length then []
      else (join16 a b, rest.take length) :: optionsLoop fuel (rest.drop length)
  | _, _ => []

def parseOptions (data : Octets) : List (UInt16 × Octets) := optionsLoop data.length data

def emitOptions (w : Writer) : List (UInt16 × Octets) → Writer
  | [] => w
  | (code, data) :: rest =>
      emitOptions (((w.u16 code).u16 (UInt16.ofNat data.length)).raw data) rest

/-- The octets of a list of options. -/
def optionsOctets : List (UInt16 × Octets) → Octets
  | [] => []
  | (code, data) :: rest =>
      octets16 code ++ (octets16 (UInt16.ofNat data.length) ++ (data ++ optionsOctets rest))

theorem emitOptions_eq (w : Writer) (options : List (UInt16 × Octets)) :
    emitOptions w options = w.raw (optionsOctets options) := by
  induction options generalizing w with
  | nil => rw [emitOptions, optionsOctets, Writer.raw_nil]
  | cons option rest ih =>
      obtain ⟨code, data⟩ := option
      rw [emitOptions, ih, optionsOctets, Writer.u16, Writer.u16, Writer.raw_raw, Writer.raw_raw,
        Writer.raw_raw]

theorem optionsLoop_octets (options : List (UInt16 × Octets)) (fuel : Nat)
    (short : ∀ option ∈ options, option.2.length ≤ 65535) (enough : options.length ≤ fuel) :
    optionsLoop fuel (optionsOctets options) = options := by
  induction options generalizing fuel with
  | nil => cases fuel <;> rfl
  | cons option rest ih =>
      obtain ⟨code, data⟩ := option
      cases fuel with
      | zero => cases enough
      | succ fuel =>
          have bound : data.length ≤ 65535 := short _ List.mem_cons_self
          have width : (UInt16.ofNat data.length).toNat = data.length := by
            rw [UInt16.toNat_ofNat', Nat.mod_eq_of_lt (by omega)]
          have field := join16_octets16 (UInt16.ofNat data.length)
          rw [width] at field
          have tail := ih fuel (fun option held => short option (List.mem_cons_of_mem _ held))
            (Nat.le_of_succ_le_succ enough)
          simp only [optionsOctets, octets16, List.cons_append, List.nil_append, optionsLoop,
            join16_octets16, width, field, List.length_append, List.take_left, List.drop_left, tail]
          rw [if_neg (by omega)]

theorem length_le_optionsOctets (options : List (UInt16 × Octets)) :
    options.length ≤ (optionsOctets options).length := by
  induction options with
  | nil => exact Nat.le_refl 0
  | cons option rest ih =>
      obtain ⟨code, data⟩ := option
      simp only [optionsOctets, List.length_append, length_octets16, List.length_cons]
      omega

/-- Options are read back from their octets. -/
theorem parseOptions_optionsOctets (options : List (UInt16 × Octets))
    (short : ∀ option ∈ options, option.2.length ≤ 65535) :
    parseOptions (optionsOctets options) = options :=
  optionsLoop_octets options _ short (length_le_optionsOctets options)

theorem optionsLoop_bounds (fuel : Nat) (data : Octets) :
    (optionsOctets (optionsLoop fuel data)).length ≤ data.length ∧
      ∀ option ∈ optionsLoop fuel data, option.2.length ≤ 65535 := by
  induction fuel generalizing data with
  | zero => exact ⟨Nat.zero_le _, fun option held => (by cases held)⟩
  | succ fuel ih =>
      match data with
      | a :: b :: c :: d :: rest =>
          rw [optionsLoop]
          split
          · exact ⟨Nat.zero_le _, fun option held => (by cases held)⟩
          · next fits =>
              obtain ⟨total, short⟩ := ih (rest.drop (join16 c d).toNat)
              have bound := (join16 c d).toNat_lt
              rw [List.length_drop] at total
              constructor
              · simp only [optionsOctets, List.length_append, length_octets16, List.length_take,
                  List.length_cons]
                omega
              · intro option held
                rcases List.mem_cons.mp held with rfl | held
                · rw [List.length_take]
                  omega
                · exact short option held
      | [] => exact ⟨Nat.zero_le _, fun option held => (by cases held)⟩
      | [_] => exact ⟨Nat.zero_le _, fun option held => (by cases held)⟩
      | [_, _] => exact ⟨Nat.zero_le _, fun option held => (by cases held)⟩
      | [_, _, _] => exact ⟨Nat.zero_le _, fun option held => (by cases held)⟩

/-- What is parsed takes no more octets than it was parsed from. -/
theorem parseOptions_bounds (data : Octets) :
    (optionsOctets (parseOptions data)).length ≤ data.length ∧
      ∀ option ∈ parseOptions data, option.2.length ≤ 65535 :=
  optionsLoop_bounds data.length data

end Trench.Wire
