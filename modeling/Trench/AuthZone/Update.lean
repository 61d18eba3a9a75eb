import Mathlib
import Trench.Wire.RdataText
import Trench.Wire.Reply
import Trench.AuthZone.Signer

set_option autoImplicit false

/- Dynamic update of a zone. An exception leaves the zone as far changed as it was, so
the zone is returned beside the outcome. -/
namespace Trench.AuthZone

open Wire
open Rdata (TextError)

def maxJournal : Nat := 64

/-- What an update can raise. -/
inductive UpdateError where
  | text (e : TextError)
  | sign (e : SignError)
  deriving DecidableEq

/-- `UpdatePolicy`; no names stand for any name of the zone. -/
structure UpdatePolicy where
  allow : Bool := true
  names : Option (List Name) := none

def UpdatePolicy.permits (policy : UpdatePolicy) (z : Zone) (name : Name) : Bool :=
  policy.allow && name.isSubdomainOf z.origin && policy.names.all fun names => names.any (· == name)

/-! ### Prerequisites -/

/-- The two sets have the same members. -/
def sameTexts (left right : List Text) : Bool :=
  (left.all fun t => right.contains t) && right.all fun t => left.contains t

/-- `_rdata_set`. -/
def rdataSet (rrs : List RR) (name : Name) (rtype : RRType) : Except TextError (List Text) :=
  (rrs.filter fun rr => rr.name == name && rr.rtype == rtype).mapM fun rr => rr.rdata.toText

namespace Zone

/-- One prerequisite, `prereqs` being all of them. -/
def checkPrerequisite (z : Zone) (prereqs : List RR) (rr : RR) : Except TextError Nat :=
  if rr.ttl ≠ 0 then return formErr
  else
    let node := z.node rr.name
    if rr.rclass = RRClass.any then
      if rr.rtype = RRType.any then return if node.entries.isEmpty then nxDomain else noError
      else return if node.contains rr.rtype then noError else nxRrset
    else if rr.rclass = RRClass.none then
      if rr.rtype = RRType.any then return if node.entries.isEmpty then noError else yxDomain
      else return if node.contains rr.rtype then yxRrset else noError
    else do
      let want ← rdataSet prereqs rr.name rr.rtype
      let have_ ← (z.slot rr.name rr.rtype).mapM Rdata.toText
      return if sameTexts want have_ then noError else nxRrset

def checkFrom (z : Zone) (prereqs : List RR) : List RR → Except TextError Nat
  | [] => return noError
  | rr :: rest => do
      let rcode ← z.checkPrerequisite prereqs rr
      if rcode ≠ noError then return rcode else z.checkFrom prereqs rest

def checkPrerequisites (z : Zone) (prereqs : List RR) : Except TextError Nat :=
  z.checkFrom prereqs prereqs

/-! ### One record -/

/-- The node at a name, an empty one dropped. -/
def putNode (z : Zone) (name : Name) (node : Node) : Zone :=
  { z with records := if node.entries.isEmpty then z.records.erase name else z.records.set name node }

/-- The records of a set as they are journaled when they go. -/
def gone (name : Name) (rtype : RRType) (rds : List Rdata) : List RR :=
  rds.map fun rd => ⟨name, rtype, RRClass.in, 0, rd⟩

/-- The sets of the apex that no deletion of a set takes. -/
def guarded (z : Zone) (name : Name) (rtype : RRType) : Bool :=
  name == z.origin && (rtype == RRType.soa || rtype == RRType.ns)

/-- All sets of a name, for class and type ANY. -/
def deleteName (z : Zone) (name : Name) : Zone × List RR :=
  match z.records.get? name with
  | none => (z, [])
  | some node =>
      let dropped := node.entries.filter fun slot => !z.guarded name slot.1
      if node.entries.isEmpty then (z, [])
      else (z.putNode name (dropped.foldl (fun node slot => node.erase slot.1) node),
        dropped.flatMap fun slot => gone name slot.1 slot.2)

/-- One set of a name, for class ANY. -/
def deleteSet (z : Zone) (name : Name) (rtype : RRType) : Zone × List RR :=
  if z.guarded name rtype then (z, [])
  else
    match z.records.get? name with
    | none => (z, [])
    | some node =>
        match node.get? rtype with
        | none => (z, [])
        | some rds =>
            ({ (z.putNode name (node.erase rtype)) with rrsigs := z.rrsigs.erase (name, rtype) },
              gone name rtype rds)

/-- `[rd for rd in rds if rd.to_text() != text]`. -/
def keepOthers (text : Except TextError Text) : List Rdata → Except TextError (List Rdata)
  | [] => return []
  | rd :: rest => do
      let differs := (← rd.toText) != (← text)
      let more ← keepOthers text rest
      return if differs then rd :: more else more

/-- One record, for class NONE. -/
def deleteRecord (z : Zone) (rr : RR) : Except TextError (Zone × List RR) :=
  if rr.name == z.origin && rr.rtype == RRType.soa then .ok (z, [])
  else
    match z.records.get? rr.name with
    | none => .ok (z, [])
    | some node =>
        if rr.name == z.origin && rr.rtype == RRType.ns &&
            decide (((node.get? RRType.ns).getD []).length ≤ 1) then .ok (z, [])
        else
          match node.get? rr.rtype with
          | none => .ok (z, [])
          | some rds => do
              let keep ← keepOthers rr.rdata.toText rds
              let deleted := if keep.length ≠ rds.length then gone rr.name rr.rtype [rr.rdata] else []
              return if keep = [] then (z.putNode rr.name (node.erase rr.rtype), deleted)
                else ({ z with records := z.records.set rr.name (node.set rr.rtype keep) }, deleted)

/-- Whether no record of the list has the text; later ones are not looked at. -/
def allDiffer (text : Except TextError Text) : List Rdata → Except TextError Bool
  | [] => return true
  | rd :: rest => do
      if (← rd.toText) != (← text) then allDiffer text rest else return false

/-- A record of the zone's class is added unless it is there. -/
def addRecord (z : Zone) (rr : RR) : Except TextError (Zone × List RR) := do
  if ← allDiffer rr.rdata.toText (z.slot rr.name rr.rtype) then
    return (z.add rr.name rr.rtype rr.rdata rr.ttl, [rr])
  else return (z, [])

end Zone

/-- The zone under an update, and what was deleted and added so far. -/
structure Updating where
  zone : Zone
  deletions : List RR
  additions : List RR

/-- `_apply_one`. -/
def Updating.applyOne (u : Updating) (rr : RR) : Except TextError Updating :=
  if rr.rclass = RRClass.any then
    let (z, deleted) := if rr.rtype = RRType.any then u.zone.deleteName rr.name
      else u.zone.deleteSet rr.name rr.rtype
    .ok { u with zone := z, deletions := u.deletions ++ deleted }
  else if rr.rclass = RRClass.none then do
    let (z, deleted) ← u.zone.deleteRecord rr
    return { u with zone := z, deletions := u.deletions ++ deleted }
  else do
    let (z, added) ← u.zone.addRecord rr
    return { u with zone := z, additions := u.additions ++ added }

/-- The loop over the update section, up to the first record that raises. -/
def Updating.applyAll : Updating → List RR → Updating × Option TextError
  | u, [] => (u, none)
  | u, rr :: rest =>
      match u.applyOne rr with
      | .error e => (u, some e)
      | .ok next => next.applyAll rest

/-! ### The whole update -/

namespace Zone

/-- The first SOA record of the apex gets another serial. -/
def setSerial (z : Zone) (serial : Int) : Zone :=
  match z.slot z.origin RRType.soa with
  | .soa data :: rest =>
      let node := (z.node z.origin).set RRType.soa (.soa { data with serial } :: rest)
      { z with records := z.records.set z.origin node }
  | _ => z

def nextSerial (old : Int) : Int := (old + 1) % 2 ^ 32

/-- `_journal`. -/
def journalize (z : Zone) (step : JournalStep) : Zone :=
  let all := z.journal ++ [step]
  { z with journal := all.drop (all.length - maxJournal) }

def dnssecTypes : List RRType :=
  [RRType.nsec, RRType.nsec3, RRType.nsec3param, RRType.dnskey, RRType.cds, RRType.cdnskey]

/-- The copy that is signed anew: no record of the signer's, no signature. -/
def staged (z : Zone) : Zone :=
  let strip (node : Node) : Node := dnssecTypes.foldl Dict.erase node
  { z with
    records := z.records.entries.foldl (fun records entry =>
      let node := strip entry.2
      if node.entries.isEmpty then records.erase entry.1 else records.set entry.1 node) z.records
    ttls := z.records.entries.foldl (fun ttls entry =>
      dnssecTypes.foldl (fun ttls rtype => ttls.erase (entry.1, rtype)) ttls) z.ttls
    rrsigs := Dict.empty
    signed := false }

/-- `_resign`, with the parameters of a zone that was never signed here by default. -/
def resign (crypto : Crypto) (now : Int) (z : Zone) : Except SignError Zone :=
  let params := z.signParams.getD ⟨13, false, [], 0⟩
  match crypto.signZone z.staged params.algorithm now params.nsec3 params.nsec3Salt
      params.nsec3Iterations z.signingKey with
  | .error e => .error e
  | .ok (w, _) => .ok { z with
      records := w.records
      ttls := w.ttls
      rrsigs := w.rrsigs
      signed := w.signed
      signingKey := w.signingKey
      signParams := w.signParams }

/-- What the checks before the loop answer, where they refuse. -/
def refusal (z : Zone) (msg : Message) (policy : UpdatePolicy) : Except TextError (Option Nat) :=
  match msg.question with
  | none => return some formErr
  | some q =>
      if q.rtype ≠ RRType.soa then return some formErr
      else if !(z.origin == q.name) then return some notAuth
      else do
        let rcode ← z.checkPrerequisites msg.answers
        if rcode ≠ noError then return some rcode
        else
          let denied := msg.authority.findSome? fun rr =>
            if !rr.name.isSubdomainOf z.origin then some notZone
            else if !policy.permits z rr.name then some refused
            else none
          if denied.isSome then return denied
          else if msg.authority.any fun rr =>
              !(rr.rclass == RRClass.in || rr.rclass == RRClass.any || rr.rclass == RRClass.none) then
            return some formErr
          else if z.soa.isNone then return some servFail
          else return none

/-- `_bump_serial` and `_journal`. -/
def bump (u : Updating) : Zone :=
  match u.zone.soa with
  | none => u.zone
  | some soa =>
      (u.zone.setSerial (nextSerial soa.serial)).journalize
        ⟨soa.serial, nextSerial soa.serial, u.deletions, u.additions⟩

def applyUpdate (crypto : Crypto) (now : Int) (z : Zone) (msg : Message)
    (policy : UpdatePolicy := {}) : Zone × Except UpdateError Nat :=
  match z.refusal msg policy with
  | .error e => (z, .error (.text e))
  | .ok (some rcode) => (z, .ok rcode)
  | .ok none =>
      match (⟨z, [], []⟩ : Updating).applyAll msg.authority with
      | (u, some e) => (u.zone, .error (.text e))
      | (u, none) =>
          if u.additions = [] ∧ u.deletions = [] then (u.zone, .ok noError)
          else
            let bumped := bump u
            if bumped.signed then
              match bumped.resign crypto now with
              | .error e => (bumped, .error (.sign e))
              | .ok w => (w, .ok noError)
            else (bumped, .ok noError)

end Zone

end Trench.AuthZone
