import Mathlib
import Trench.Lib.Dict
import Trench.Lib.Machine
import Trench.Filter.Parser
import Trench.Wire.IpAddress

set_option autoImplicit false

/- Which policy a request gets: the listed clients, the neighbour table, and what is remembered. -/
namespace Trench.Clients

open Wire

/-- `str.lower`, and `str.isdigit` for one character. -/
structure Library where
  lower : Text → Text
  isDigit : Char → Bool

/-- The types of an ident; any other is ignored. -/
inductive IdentType where
  | ip
  | cidr
  | clientid
  | token
  | mac
  | other
  deriving DecidableEq

structure Client (π : Type) where
  ident : Text
  identType : IdentType
  policy : π

structure Registry (π : Type) where
  fallback : π
  exact : Dict Text (Client π)
  cidrs : List (IpNetwork × Client π)
  byClientid : Dict Text (Client π)
  byMac : Dict Text (Client π)
  cache : Dict (Text × Text) π

/-! ### The neighbour table -/

/-- What the tokens of a line come to: an address and a MAC, either of them still empty. -/
def readToken (lib : Library) (found : Text × Text) (tok : Text) : Text × Text :=
  let (ip, mac) := found
  if ip = [] ∧ tok.count '.' = 3 ∧ (tok.head?.any lib.isDigit) = true then (tok, mac)
  else if ip = [] ∧ ':' ∈ tok ∧ 5 < tok.count ':' then (ip, mac)
  else if ':' ∈ tok ∧ 11 ≤ tok.length ∧ tok.count ':' = 5 then (ip, lib.lower tok)
  else (ip, mac)

def readNeighbour (lib : Library) (table : Dict Text Text) (line : Text) : Dict Text Text :=
  let bare := line.map fun c => if c = '(' ∨ c = ')' then ' ' else c
  let (ip, mac) := (Filter.words bare).foldl (readToken lib) ([], [])
  if ip ≠ [] ∧ mac ≠ [] then table.set ip mac else table

/-- `refresh_neighbours`, from what each command printed, or none where it failed or printed nothing. -/
def refreshNeighbours (lib : Library) : List (Option Text) → Dict Text Text
  | [] => .empty
  | none :: rest => refreshNeighbours lib rest
  | some out :: rest =>
      let table := (Filter.splitLines out).foldl (readNeighbour lib) .empty
      if table.size = 0 then refreshNeighbours lib rest else table

namespace Registry

variable {π : Type}

/-- One client of the list. -/
def add (lib : Library) (reg : Registry π) (c : Client π) : Registry π :=
  match c.identType with
  | .ip => { reg with exact := reg.exact.set c.ident c }
  | .cidr =>
      match ipNetwork c.ident with
      | some net => { reg with cidrs := reg.cidrs ++ [(net, c)] }
      | none => reg
  | .clientid => { reg with byClientid := reg.byClientid.set c.ident c }
  | .token => { reg with byClientid := reg.byClientid.set c.ident c }
  | .mac => { reg with byMac := reg.byMac.set (lib.lower c.ident) c }
  | .other => reg

def create (lib : Library) (clients : List (Client π)) (fallback : π) : Registry π :=
  clients.foldl (add lib) ⟨fallback, .empty, [], .empty, .empty, .empty⟩

/-- `from_config`: the managed clients come after those of the configuration. -/
def fromConfig (lib : Library) (configured managed : List (Client π)) (fallback : π) : Registry π :=
  create lib (configured ++ managed) fallback

/-- The first listed network that the address is in. -/
def inCidr (reg : Registry π) (ip : Text) : Option (IpNetwork × Client π) :=
  match ipAddress ip with
  | none => none
  | some addr => reg.cidrs.find? fun entry => entry.1.contains addr

/-- The client whose MAC the table gives for the address. -/
def throughMac (reg : Registry π) (neighbours : Dict Text Text) (ip : Text) : Option (Client π) :=
  match neighbours.get? ip with
  | none => none
  | some mac => if mac = [] then none else reg.byMac.get? mac

/-- The first two lookups. -/
def named (reg : Registry π) (ip clientId : Text) : Option (Client π) :=
  (if clientId = [] then none else reg.byClientid.get? clientId).or (reg.exact.get? ip)

/-- `_resolve`. -/
def resolve (reg : Registry π) (neighbours : Dict Text Text) (ip clientId : Text) : π :=
  match reg.named ip clientId with
  | some c => c.policy
  | none =>
      match reg.inCidr ip with
      | some (_, c) => c.policy
      | none => ((reg.throughMac neighbours ip).map Client.policy).getD reg.fallback

def maxCache : ℕ := 4096

/-- `identify`. -/
def identify (reg : Registry π) (neighbours : Dict Text Text) (ip clientId : Text) : π × Registry π :=
  let key := (ip, clientId)
  match reg.cache.get? key with
  | some cached => (cached, { reg with cache := (reg.cache.erase key).set key cached })
  | none =>
      let policy := reg.resolve neighbours ip clientId
      let cache := reg.cache.set key policy
      (policy, { reg with cache := cache.dropFirst (cache.size - maxCache) })

end Registry

/-! ### Lookups and refreshes -/

/-- The registry and `_NEIGHBOURS`. -/
structure World (π : Type) where
  registry : Registry π
  neighbours : Dict Text Text

inductive Event where
  | identifies (ip clientId : Text)
  /-- `refresh_neighbours`, with what the two commands print. -/
  | refreshes (outputs : List (Option Text))

namespace World

variable {π : Type}

def step (lib : Library) (w : World π) : Event → Option (World π)
  | .identifies ip clientId => some { w with registry := (w.registry.identify w.neighbours ip clientId).2 }
  | .refreshes outputs => some { w with neighbours := refreshNeighbours lib outputs }

/-- What a lookup returns. -/
def given (w : World π) (ip clientId : Text) : π := (w.registry.identify w.neighbours ip clientId).1

end World

end Trench.Clients
