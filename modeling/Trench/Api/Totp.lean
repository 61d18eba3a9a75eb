import Mathlib
import Trench.Lib.Sha1
import Trench.Wire.Name

set_option autoImplicit false

/- One-time codes that change with the time. -/
namespace Trench.Api

open Wire

namespace Totp

/-- A character in upper case, as far as a base32 text can tell: of the rest of the characters only
these few become ASCII letters. -/
def upperChar (c : Char) : Text :=
  if 'a' ≤ c ∧ c ≤ 'z' then [Char.ofNat (c.toNat - 32)]
  else
    match c.toNat with
    | 0xDF => ['S', 'S']
    | 0x131 => ['I']
    | 0x17F => ['S']
    | 0xFB00 => ['F', 'F']
    | 0xFB01 => ['F', 'I']
    | 0xFB02 => ['F', 'L']
    | 0xFB03 => ['F', 'F', 'I']
    | 0xFB04 => ['F', 'F', 'L']
    | 0xFB05 => ['S', 'T']
    | 0xFB06 => ['S', 'T']
    | _ => [c]

def b32Value (c : Char) : Option Nat :=
  if 'A' ≤ c ∧ c ≤ 'Z' then some (c.toNat - 65)
  else if '2' ≤ c ∧ c ≤ '7' then some (c.toNat - 24)
  else none

/-- `base64.b32decode`; `none` where it raises. -/
def b32decode (s : Text) : Option (List UInt8) := do
  let body := (s.reverse.dropWhile (· = '=')).reverse
  let padchars := s.length - body.length
  let digits ← body.mapM b32Value
  if s.length % 8 = 0 ∧ padchars ∈ [0, 1, 3, 4, 6] then
    -- The bits after the last whole octet are dropped.
    let bits := 5 * digits.length
    some (Sha1.octets (bits / 8) (digits.foldl (fun n d => n * 32 + d) 0 / 2 ^ (bits % 8)))
  else none

/-- `str(code).zfill(6)`. -/
def sixDigits (code : Nat) : Text :=
  (List.range 6).map fun i => Nat.digitChar (code / 10 ^ (5 - i) % 10)

/-- `_hotp`. -/
def hotp (secret : Text) (counter : ℤ) : Option Text := do
  let pad := List.replicate ((8 - secret.length % 8) % 8) '='
  let key ← b32decode (secret.flatMap upperChar ++ pad)
  -- `struct.pack(">Q", …)`.
  if 0 ≤ counter ∧ counter < 2 ^ 64 then
    let mac := Sha1.hmac key (Sha1.octets 8 counter.toNat)
    let offset := (mac.getLast?.getD 0).toNat % 16
    let word := ((mac.drop offset).take 4).foldl (fun n o => n * 256 + o.toNat) 0
    some (sixDigits (word % 2 ^ 31 % 10 ^ 6))
  else none

/-- The time step of a moment. -/
def counterAt (time : ℚ) : ℤ := ⌊time / 30⌋

/-- `totp`. -/
def totp (secret : Text) (time : ℚ) : Option Text := hotp secret (counterAt time)

def ascii (s : Text) : Bool := s.all fun c => c.toNat < 128

/-- `hmac.compare_digest`, which takes no other characters. -/
def compareDigest (a b : Text) : Option Bool := if ascii a && ascii b then some (a == b) else none

/-- The loop of `verify`; `none` where it raises. -/
def matchesIn (secret code : Text) (now : ℚ) : List ℤ → Option Bool
  | [] => some false
  | w :: rest => do
      let want ← totp secret (now + w * 30)
      if ← compareDigest want code then some true else matchesIn secret code now rest

def window : List ℤ := [-1, 0, 1]

/-- `verify`. -/
def verify (secret code : Text) (now : ℚ) : Option Bool := matchesIn secret (Name.strip code) now window

/-! ### What is accepted -/

/-- The code of this step is accepted at this moment. -/
def Satisfies (secret code : Text) (now : ℚ) (step : ℤ) : Prop :=
  (∃ w ∈ window, step = counterAt now + w) ∧ hotp secret step = some (Name.strip code)

/-- No code can be made for one of the steps around this moment, whatever code is shown. -/
def Unreadable (secret : Text) (now : ℚ) : Prop := ∃ w ∈ window, totp secret (now + w * 30) = none

theorem counterAt_add (time : ℚ) (w : ℤ) : counterAt (time + w * 30) = counterAt time + w := by
  have apart : (time + w * 30) / 30 = time / 30 + w := by ring
  rw [counterAt, counterAt, apart, Int.floor_add_intCast]

theorem totp_step (secret : Text) (time : ℚ) (w : ℤ) :
    totp secret (time + w * 30) = hotp secret (counterAt time + w) := by rw [totp, counterAt_add]

theorem ascii_sixDigits (code : Nat) : ascii (sixDigits code) = true := by
  refine List.all_eq_true.mpr fun c held => ?_
  obtain ⟨i, -, rfl⟩ := List.mem_map.mp held
  have small : code / 10 ^ (5 - i) % 10 < 10 := Nat.mod_lt _ (by decide)
  generalize code / 10 ^ (5 - i) % 10 = d at small
  revert d
  decide

theorem ascii_hotp {secret : Text} {step : ℤ} {want : Text} (made : hotp secret step = some want) :
    ascii want = true := by
  rw [hotp] at made
  obtain ⟨key, -, made⟩ := Option.bind_eq_some_iff.mp made
  split at made
  · cases made
    exact ascii_sixDigits _
  · cases made

section

variable {secret code : Text} {now : ℚ}

theorem matchesIn_true {ws : List ℤ} (found : matchesIn secret code now ws = some true) :
    ∃ w ∈ ws, hotp secret (counterAt now + w) = some code := by
  induction ws with
  | nil => cases found
  | cons w rest ih =>
      rw [matchesIn] at found
      obtain ⟨want, made, found⟩ := Option.bind_eq_some_iff.mp found
      obtain ⟨same, compared, found⟩ := Option.bind_eq_some_iff.mp found
      cases same with
      | false =>
          obtain ⟨w, held, here⟩ := ih found
          exact ⟨w, List.mem_cons_of_mem _ held, here⟩
      | true =>
          refine ⟨w, List.mem_cons_self, ?_⟩
          rw [compareDigest] at compared
          split at compared
          · rw [← totp_step, made, eq_of_beq (Option.some.inj compared)]
          · cases compared

/-- What is accepted is a code of one of the three steps. -/
theorem satisfies_of_verify (found : verify secret code now = some true) :
    ∃ step, Satisfies secret code now step := by
  obtain ⟨w, held, made⟩ := matchesIn_true found
  exact ⟨_, ⟨w, held, rfl⟩, made⟩

theorem matchesIn_none (plain : ascii code = true) {ws : List ℤ} (raised : matchesIn secret code now ws = none) :
    ∃ w ∈ ws, totp secret (now + w * 30) = none := by
  induction ws with
  | nil => cases raised
  | cons w rest ih =>
      rw [matchesIn] at raised
      cases made : totp secret (now + w * 30) with
      | none => exact ⟨w, List.mem_cons_self, made⟩
      | some want =>
          have readable : ascii want = true := ascii_hotp (totp_step secret now w ▸ made)
          rw [made, Option.bind_eq_bind, Option.bind_some, compareDigest, readable, plain, Bool.and_self,
            if_pos rfl, Option.bind_eq_bind, Option.bind_some] at raised
          split at raised
          · cases raised
          · obtain ⟨w, held, here⟩ := ih raised
            exact ⟨w, List.mem_cons_of_mem _ held, here⟩

/-- For an ASCII code the verifier raises for the secret's sake only. -/
theorem unreadable_of_verify (plain : ascii (Name.strip code) = true) (raised : verify secret code now = none) :
    Unreadable secret now := matchesIn_none plain raised

theorem window_bounds : ∀ w ∈ window, -1 ≤ w ∧ w ≤ 1 := by decide

/-- A step is accepted for less than ninety seconds. -/
theorem satisfies_near {other : Text} {later : ℚ} {step : ℤ} (first : Satisfies secret code now step)
    (second : Satisfies secret other later step) : later - now < 90 := by
  obtain ⟨⟨w, held, same⟩, -⟩ := first
  obtain ⟨⟨v, held', same'⟩, -⟩ := second
  have low := window_bounds w held
  have high := window_bounds v held'
  have early : (counterAt now : ℚ) ≤ now / 30 ∧ now / 30 < counterAt now + 1 :=
    ⟨Int.floor_le _, Int.lt_floor_add_one _⟩
  have late : (counterAt later : ℚ) ≤ later / 30 ∧ later / 30 < counterAt later + 1 :=
    ⟨Int.floor_le _, Int.lt_floor_add_one _⟩
  have close : counterAt later - counterAt now ≤ 2 := by omega
  have close' : (counterAt later : ℚ) - counterAt now ≤ 2 := by exact_mod_cast close
  linarith only [early.1, late.2, close']

end

example : hotp "GEZDGNBVGY3TQOJQGEZDGNBVGY3TQOJQ".toList 1 = some "287082".toList := by decide +kernel

end Totp

end Trench.Api
