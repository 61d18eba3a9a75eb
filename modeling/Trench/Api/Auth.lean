import Mathlib
import Trench.Lib.Dict
import Trench.Lib.Machine
import Trench.Wire.IpAddress
import Trench.Api.Totp

set_option autoImplicit false

/- Who may sign in: the lockout after failures, the second factor, and the calls that run side by
side between their awaits. -/
namespace Trench.Api

open Wire

/-! ### Lockout keys -/

/-- `_addr_key`. -/
def addrKey (ip : Text) : Text :=
  match ipAddress ip with
  | none => ip
  | some addr =>
      if addr.six = false then ip
      else if addr.value / 2 ^ 32 = 0xFFFF then inetNtop4 (addressOctets false (addr.value % 2 ^ 32))
      else
        let net := masked true addr.value 64
        -- The zone of a link-local address is lost with its host bits.
        let zone := if net = addr.value then addr.scope else none
        inetNtop6 (addressOctets true net) ++ zone.elim [] ('%' :: ·) ++ "/64".toList

def userKey (name : Text) : Text := "user:".toList ++ name

def totpKey (name : Text) : Text := "totp:".toList ++ name

/-- Where a request says it comes from: an address, `?` for a peer without one, or nothing. -/
structure Origin where
  text : Text
  plain : (ipAddress text).isSome = true ∨ text = ['?'] ∨ text = []

/-! ### The manager -/

/-- The columns of `app_user` that a login reads; a secret that is NULL reads as empty. -/
structure Row where
  id : ℕ
  pwHash : Text
  totpSecret : Text
  deriving DecidableEq

/-- `_fails`, `_totp_used` and `_known_from`. -/
structure AuthManager where
  fails : Dict Text (ℕ × ℚ)
  totpUsed : Dict ℕ (Dict Text ℚ)
  knownFrom : Dict Text (List Text)

namespace AuthManager

def create : AuthManager := ⟨.empty, .empty, .empty⟩

/-- `_locked`; `none` where the power is too large for a float. -/
def locked (auth : AuthManager) (key : Text) (now : ℚ) : Option ℚ :=
  let (count, last) := (auth.fails.get? key).getD (0, 0)
  if count < 5 then some 0
  else if 1024 ≤ count - 5 then none
  else
    let delay := min 300 (2 * 2 ^ (count - 5))
    some (max 0 (last + delay - now))

/-- `any(self._locked(k) > 0 for k in keys)`. -/
def anyLocked (auth : AuthManager) (now : ℚ) : List Text → Option Bool
  | [] => some false
  | key :: rest => do
      let wait ← auth.locked key now
      if 0 < wait then some true else auth.anyLocked now rest

/-- `count, _ = self._fails.get(k, (0, 0.0))`, and one more. -/
def countFail (auth : AuthManager) (key : Text) (now : ℚ) : AuthManager :=
  let count := ((auth.fails.get? key).map Prod.fst).getD 0
  { auth with fails := auth.fails.set key (count + 1, now) }

/-- `_sweep`, for the counters. -/
def sweep (auth : AuthManager) (now : ℚ) : AuthManager :=
  { auth with fails := auth.fails.keep fun e => decide (now - e.2.2 ≤ 1200) }

/-- `_consume_totp`. -/
def consumeTotp (auth : AuthManager) (userId : ℕ) (code : Text) (mono : ℚ) : Bool × AuthManager :=
  let used := ((auth.totpUsed.get? userId).getD .empty).keep fun e => decide (mono - e.2 ≤ 120)
  if used.contains code then (false, { auth with totpUsed := auth.totpUsed.set userId used })
  else (true, { auth with totpUsed := auth.totpUsed.set userId (used.set code mono) })

/-- The second factor of both calls: `totp.verify`, then `_consume_totp`. -/
def secondFactor (auth : AuthManager) (row : Row) (code : Text) (now mono : ℚ) : Option (Bool × AuthManager) := do
  if ← Totp.verify row.totpSecret code now then some (auth.consumeTotp row.id code mono)
  else some (false, auth)

/-- The keys a login is counted under. -/
def loginKeys (auth : AuthManager) (name place : Text) : List Text :=
  if place ∈ (auth.knownFrom.get? name).getD [] then [place] else [place, userKey name]

/-- What a successful login does to the counters and to the known prefixes, the last eight of them. -/
def welcome (auth : AuthManager) (name place : Text) (keys : List Text) : AuthManager :=
  let known := (auth.knownFrom.get? name).getD []
  let known := if place ∈ known then known else (known ++ [place]).drop (known.length + 1 - 8)
  { auth with fails := auth.fails.eraseAll keys, knownFrom := auth.knownFrom.set name known }

end AuthManager

/-! ### Calls side by side -/

/-- What a login waits for: the row of its account, a slot to hash in, or its turn after the hash. -/
inductive Stage where
  | fetching
  | hashing (row : Option Row)
  | hashed (row : Option Row) (ok : Bool)
  deriving DecidableEq

/-- A login behind its first await. -/
structure Login where
  name : Text
  password : Text
  code : Text
  place : Text
  keys : List Text
  began : ℚ
  stage : Stage := .fetching
  deriving DecidableEq

/-- What has happened, for statements about runs: the code keeps no such record. -/
inductive Record where
  /-- A login got past the lockout. -/
  | counted (login : Login)
  /-- A password was compared with the hash of the account. -/
  | verified (login : Login) (moment : ℚ)
  | signedIn (login : Login) (moment : ℚ)
  /-- A call succeeded with a code. -/
  | spent (userId : ℕ) (secret code : Text) (moment : ℚ)
  /-- The verifier of codes raised. -/
  | raised (secret code : Text) (moment : ℚ)
  deriving DecidableEq

/-- `now` is what `time.time()` reads, `mono` what `time.monotonic()` does. -/
structure World where
  auth : AuthManager
  now : ℚ
  mono : ℚ
  calls : List Login
  record : List Record

inductive Event where
  | waits (seconds : ℚ)
  /-- `login`, up to its first await. -/
  | begins (name password code : Text) (ip : Origin)
  /-- The row of an enabled account arrives. -/
  | fetched (index : ℕ) (row : Option Row)
  /-- A thread hashes the password. -/
  | hashes (index : ℕ)
  /-- The rest of `login`, as far as the lockout and the codes go. -/
  | resumes (index : ℕ)
  /-- What a call waits for raises. -/
  | fails (index : ℕ)
  /-- `check_totp`, behind its only await. -/
  | checks (name code : Text) (row : Option Row)

namespace World

def create (now mono : ℚ) : World := ⟨.create, now, mono, [], []⟩

/-- The counter goes up before the first await. -/
def begin (w : World) (name password code : Text) (ip : Origin) : World :=
  let place := addrKey ip.text
  let keys := w.auth.loginKeys name place
  match w.auth.anyLocked w.now keys with
  | some false =>
      let login : Login := { name, password, code, place, keys, began := w.now }
      { w with
        auth := keys.foldl (fun auth key => auth.countFail key w.now) w.auth
        calls := w.calls ++ [login]
        record := .counted login :: w.record }
  | _ => w

/-- A failed login sweeps. -/
def fail (w : World) : World := { w with auth := w.auth.sweep w.now }

def succeed (w : World) (login : Login) : World :=
  { w with
    auth := w.auth.welcome login.name login.place login.keys
    record := .signedIn login w.now :: w.record }

/-- `login` after the hash, for an account that exists. -/
def finish (w : World) (login : Login) (row : Row) : World :=
  if row.totpSecret = [] then w.succeed login
  else
    match w.auth.secondFactor row login.code w.now w.mono with
    | none => { w with record := .raised row.totpSecret login.code w.now :: w.record }
    | some (false, auth) => { w with auth }.fail
    | some (true, auth) =>
        { w with auth, record := .spent row.id row.totpSecret login.code w.now :: w.record }.succeed login

/-- `check_totp`. -/
def check (w : World) (name code : Text) (row : Option Row) : World :=
  match row with
  | none => w
  | some row =>
      if row.totpSecret = [] then w
      else
        match w.auth.locked (totpKey name) w.now with
        | none => w
        | some wait =>
            if 0 < wait then w
            else
              match w.auth.secondFactor row code w.now w.mono with
              | none => { w with record := .raised row.totpSecret code w.now :: w.record }
              | some (false, auth) => { w with auth := auth.countFail (totpKey name) w.now }
              | some (true, auth) =>
                  { w with
                    auth := { auth with fails := auth.fails.erase (totpKey name) }
                    record := .spent row.id row.totpSecret code w.now :: w.record }

variable (verifyPassword : Text → Text → Bool)

/-- One step, or none where the event cannot happen. -/
def step (w : World) : Event → Option World
  | .waits seconds => if 0 ≤ seconds then some { w with now := w.now + seconds, mono := w.mono + seconds } else none
  | .begins name password code ip => some (w.begin name password code ip)
  | .fetched index row => do
      let login ← w.calls[index]?
      match login.stage with
      | .fetching => some { w with calls := w.calls.set index { login with stage := .hashing row } }
      | _ => none
  | .hashes index => do
      let login ← w.calls[index]?
      match login.stage with
      | .hashing none => some { w with calls := w.calls.set index { login with stage := .hashed none false } }
      | .hashing (some row) =>
          let ok := verifyPassword login.password row.pwHash
          some { w with
            calls := w.calls.set index { login with stage := .hashed (some row) ok }
            record := .verified login w.now :: w.record }
      | _ => none
  | .resumes index => do
      let login ← w.calls[index]?
      let rest := { w with calls := w.calls.eraseIdx index }
      match login.stage with
      | .hashed (some row) true => some (rest.finish login row)
      | .hashed _ _ => some rest.fail
      | _ => none
  | .fails index => if index < w.calls.length then some { w with calls := w.calls.eraseIdx index } else none
  | .checks name code row => some (w.check name code row)

end World

end Trench.Api
