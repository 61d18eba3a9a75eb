import Mathlib
import Trench.Engine.Pipeline
import Trench.Lib.Acts
import Trench.Lib.Dict
import Trench.Wire.NameOrder

set_option autoImplicit false

/- The iterative resolver. A resolution walks down from the deepest known zone cut, asks the servers
of one zone after another and shares the map of the namespace with all the others. -/
namespace Trench.Resolver

open Wire
open Engine.Rcode (noerror nxdomain servfail refused notimp formerr)
open Coroutine (Task)

/-! ### What resolutions share -/

/-- A cached zone cut: who serves the zone, and where they are. -/
structure Cut where
  zone : Name
  names : List Name
  addrs : Dict Name (List Text)
  expires : ℚ

def Cut.flat (cut : Cut) : List Text := cut.names.flatMap fun nm => (cut.addrs.get? nm).getD []

/-- What is known of one nameserver address. -/
structure Peer where
  rtt : ℚ := 1 / 20
  fails : Nat := 0

def Peer.rank (peer : Peer) : ℚ := peer.rtt + min peer.fails 4 * (1 / 2)

/-- `InfraCache` and the peers, and how often the clock, the shuffling and the validator were used. -/
structure Shared where
  cuts : Dict Name Cut := .empty
  addrs : Dict Name (List Text × ℚ) := .empty
  peers : Dict Text Peer := .empty
  readings : Nat := 0
  shuffles : Nat := 0
  validations : Nat := 0

/-- Time goes on. -/
instance : Preorder Shared := Preorder.lift Shared.readings

theorem same_time {s s' : Shared} (same : s.readings = s'.readings) : s ≤ s' := same.le

/-- One RRset, or its denial, that is to be validated. -/
structure Claimed where
  name : Name
  qtype : RRType
  rdatas : List Rdata
  rrsigs : List Rdata
  authority : List RR
  rcode : Nat

inductive Verdict where
  | secure
  | insecure
  | bogus
  | indeterminate
  deriving DecidableEq

/-- A validation: it asks for records of the chain of trust, one lookup after the other. A lookup
that raises gives nothing. -/
inductive Consult where
  | verdict (v : Verdict)
  | raises
  | lookup (name : Name) (rtype : RRType) (k : Option Message → Consult)

/-- The settings of `Recursive`, and what is outside of it: the n-th reading of the clock, the n-th
shuffle, the n-th validation. -/
structure Recursive where
  rootHints : List Text
  qmin : Bool := true
  maxSteps : Nat := 30
  maxCname : Nat := 12
  validate : Bool := false
  budget : ℚ := 5
  maxQueries : Int := 40
  queryTimeout : ℚ := 3 / 2
  maxNsDepth : Nat := 4
  serversPerStep : Nat := 4
  maxZones : Nat := 10000
  clock : Nat → ℚ
  shuffle : Nat → List Text → List Text
  reachable : Text → Bool
  validator : Nat → Claimed → Consult
  room : 0 < maxZones
  steady : Monotone clock
  shuffled : ∀ n ips, (shuffle n ips).Perm ips

/-- `dict.fromkeys`: what comes again is dropped. -/
def fromKeys {α : Type} [BEq α] (xs : List α) : List α :=
  xs.foldl (fun seen x => if seen.any fun y => y == x then seen else seen ++ [x]) []

namespace Recursive

variable (r : Recursive)

def now : StateM Shared ℚ := fun s => (r.clock s.readings, { s with readings := s.readings + 1 })

/-- How long a delegation or an address is kept. -/
def lifetime (ttl : Int) : Int := max 1 (min ttl 86400)

/-- Room for one more entry: what has expired goes, and then what came first. -/
def roomIn {ν : Type} (expires : ν → ℚ) (now : ℚ) (d : Dict Name ν) : Dict Name ν :=
  let kept := d.keep fun e => !decide (expires e.2 ≤ now)
  kept.dropFirst (kept.size + 1 - r.maxZones)

def closestFrom (now : ℚ) : List Name → StateM Shared (Option Cut)
  | [] => pure none
  | zone :: zones => do
      match (← get).cuts.get? zone with
      | none => closestFrom now zones
      | some cut =>
          if cut.expires ≤ now then
            modify fun s => { s with cuts := s.cuts.erase cut.zone }
            closestFrom now zones
          else if cut.flat ≠ [] then return some cut
          else closestFrom now zones

/-- The deepest cached cut that encloses the name. -/
def closest (name : Name) : StateM Shared (Option Cut) := do
  let now ← r.now
  closestFrom now (name.labels.tails.map Name.mk)

def putCut (zone : Name) (names : List Name) (addrs : Dict Name (List Text)) (ttl : Int) : StateM Shared Cut := do
  let written ← r.now
  let cut : Cut := { zone, names, addrs, expires := written + lifetime ttl }
  let s ← get
  if s.cuts.size ≥ r.maxZones ∧ s.cuts.contains zone = false then
    let now ← r.now
    modify fun s => { s with cuts := r.roomIn Cut.expires now s.cuts }
  modify fun s => { s with cuts := s.cuts.set zone cut }
  return cut

def addrsFor (nsname : Name) : StateM Shared (List Text) := do
  match (← get).addrs.get? nsname with
  | none => return []
  | some (addrs, exp) =>
      let now ← r.now
      if exp ≤ now then
        modify fun s => { s with addrs := s.addrs.erase nsname }
        return []
      return addrs

def putAddrs (nsname : Name) (addrs : List Text) (ttl : Int) : StateM Shared Unit := do
  if addrs = [] then return
  let s ← get
  if s.addrs.size ≥ r.maxZones ∧ s.addrs.contains nsname = false then
    let now ← r.now
    modify fun s => { s with addrs := r.roomIn Prod.snd now s.addrs }
  let written ← r.now
  modify fun s => { s with addrs := s.addrs.set nsname (addrs, written + lifetime ttl) }

def peer (s : Shared) (ip : Text) : Peer := (s.peers.get? ip).getD {}

/-- Changes what is known of an address. -/
def learn (ip : Text) (f : Peer → Peer) : StateM Shared Unit :=
  modify fun s => { s with peers := s.peers.set ip (f (peer s ip)) }

/-- `_order`: the best known servers first. -/
def order (servers : List Text) : StateM Shared (List Text) := do
  let uniq := (fromKeys servers).filter r.reachable
  let uniq := if uniq = [] then fromKeys servers else uniq
  let s ← get
  set { s with shuffles := s.shuffles + 1 }
  let ranked := (r.shuffle s.shuffles uniq).mergeSort fun a b => decide ((peer s a).rank ≤ (peer s b).rank)
  return ranked.take r.serversPerStep

end Recursive

/-! ### Replies -/

/-- What a resolution raises: a record has not the data of its type, or a text is no name. -/
inductive Fault where
  | attribute
  | wire (e : WireError)
  deriving DecidableEq

/-- The attribute `name` of data. -/
def nameOf : Rdata → Except Fault Name
  | .ns name | .cname name | .ptr name | .dname name => .ok name
  | _ => .error .attribute

/-- The address of data that were read as one. -/
def address? : Rdata → Option Text
  | .a address | .aaaa address => some address
  | _ => none

def within (names : List Name) (name : Name) : Bool := names.any fun n => n == name

/-- One pass of `_scrub` over the answers, with the chain so far. -/
def chainPass : List RR → List Name → Except Fault (List Name)
  | [], chain => .ok chain
  | rr :: rrs, chain =>
      if rr.rtype = RRType.cname ∧ within chain rr.name = true then do
        let target ← nameOf rr.rdata
        chainPass rrs (if within chain target then chain else chain ++ [target])
      else chainPass rrs chain

/-- The names of the CNAME chain from a question: passes until nothing is added. -/
def chainOf (answers : List RR) : Nat → List Name → Except Fault (List Name)
  | 0, chain => .ok chain
  | passes + 1, chain => do
      let grown ← chainPass answers chain
      if grown.length = chain.length then return grown
      chainOf answers passes grown

/-- `_scrub`: what the zone's server had the authority to say. -/
def scrub (msg : Message) (zone qn : Name) : Except Fault Message := do
  let answers := msg.answers.filter fun rr => rr.name.isSubdomainOf zone
  let chain ← chainOf answers (answers.length + 1) [qn]
  return { msg with
    answers := answers.filter fun rr => within chain rr.name
    authority := msg.authority.filter fun rr => rr.name.isSubdomainOf zone
    additional := msg.additional.filter fun rr => rr.name.isSubdomainOf zone }

/-- The deepest owner below the zone and above the name. -/
def delegated (zone name : Name) (ns : List RR) : Option Name :=
  ns.foldl (fun dz rr =>
    if rr.name.labels.length ≤ zone.labels.length ∨ rr.name.isSubdomainOf zone = false then dz
    else if name.isSubdomainOf rr.name = false then dz
    else match dz with
      | none => some rr.name
      | some best => if best.labels.length < rr.name.labels.length then some rr.name else dz) none

structure Referral where
  zone : Name
  names : List Name
  ttl : Int

def minTtl (rrs : List RR) : Int := ((rrs.map RR.ttl).min?).getD 300

/-- `_referral`: the delegation that a reply offers, if it is one to follow. -/
def referral (msg : Message) (zone name : Name) (qtype : RRType) : Except Fault (Option Referral) :=
  if msg.answers ≠ [] then .ok none
  else
    let ns := msg.authority.filter fun rr => rr.rtype == RRType.ns
    match delegated zone name ns with
    | none => .ok none
    | some dz =>
        if qtype = RRType.ds ∧ (dz == name) = true then .ok none
        else do
          let owned := ns.filter fun rr => rr.name == dz
          let names ← owned.mapM fun rr => nameOf rr.rdata
          return some ⟨dz, fromKeys names, minTtl owned⟩

/-- `_glue`: the addresses of the delegation's nameservers. -/
def glue (msg : Message) (names : List Name) : Dict Name (List Text) :=
  msg.additional.foldl (fun d rr =>
    match address? rr.rdata with
    | some address =>
        if (rr.rtype = RRType.a ∨ rr.rtype = RRType.aaaa) ∧ within names rr.name = true then
          d.set rr.name ((d.get? rr.name).getD [] ++ [address])
        else d
    | none => d) .empty

/-! ### A resolution -/

/-- `_Job`: the budget of one client question and of everything it spawns. -/
structure Job where
  deadline : ℚ
  queries : Int
  chasing : List Name := []

def Job.spent (job : Job) (now : ℚ) : Bool := job.queries ≤ 0 ∨ job.deadline ≤ now

/-- One packet: where it goes and what it asks, for which zone and which name, and by what time. -/
structure Request where
  ip : Text
  query : Message
  zone : Name
  name : Name
  sent : ℚ
  wait : ℚ
  deriving DecidableEq

inductive Reply where
  | message (msg : Message)
  /-- The host has no route to the address: nothing was sent. -/
  | noRoute
  /-- No answer in time, or none that could be read. -/
  | failed
  deriving DecidableEq

/-- A resolution's steps, with its job. -/
abbrev Act : Type → Type := Coroutine.Act Shared Request Reply Job Fault

/-- The query that is sent for a question. -/
def queryFor (validate : Bool) (qn : Name) (qtype : RRType) : Message where
  questions := [⟨qn, qtype, RRClass.in⟩]
  edns := some (Edns.setDnssecOk { udpSize := 1232 } validate)

/-- Rcodes that do not answer the question. -/
def useless (rcode : Nat) : Bool := rcode = servfail ∨ rcode = refused ∨ rcode = notimp ∨ rcode = formerr

def failure (qname : Text) (qtype : RRType) : Except Fault Message :=
  match Name.fromText qname with
  | .error e => .error (.wire e)
  | .ok name =>
      .ok { Message.setRcode { flags := flagQr ||| flagRa } servfail with questions := [⟨name, qtype, RRClass.in⟩] }

namespace Recursive

variable (r : Recursive)

/-- The loop of `_ask`. -/
def askServers (qn : Name) (qtype : RRType) (zone name : Name) : List Text → Act (Option Message)
  | [] => pure none
  | ip :: ips => do
      let now ← .atomic r.now
      let job ← .job
      if job.spent now then return none
      .modifyJob fun job => { job with queries := job.queries - 1 }
      .atomic (modify fun s => { s with peers := s.peers.setDefault ip {} })
      let wait := min r.queryTimeout (max 0 (job.deadline - now))
      if wait ≤ 0 then return none
      match ← .send { ip, query := queryFor r.validate qn qtype, zone, name, sent := now, wait } with
      | .noRoute =>
          .modifyJob fun job => { job with queries := job.queries + 1 }
          .atomic (learn ip fun peer => { peer with fails := 99 })
          askServers qn qtype zone name ips
      | .failed =>
          .atomic (learn ip fun peer => { peer with fails := peer.fails + 1 })
          askServers qn qtype zone name ips
      | .message msg =>
          let later ← .atomic r.now
          .atomic (learn ip fun peer => { peer with rtt := 4 / 5 * peer.rtt + 1 / 5 * max 0 (later - now) })
          if useless msg.rcode then
            .atomic (learn ip fun peer => { peer with fails := peer.fails + 1 })
            askServers qn qtype zone name ips
          else
            let msg ← .ofExcept (scrub msg zone qn)
            let deleg ← .ofExcept (referral msg zone name qtype)
            if deleg.isSome ∨ msg.has flagAa then
              .atomic (learn ip fun peer => { peer with fails := 0 })
              return some msg
            .atomic (learn ip fun peer => { peer with fails := peer.fails + 1 })
            askServers qn qtype zone name ips

/-- `_ask`: the first usable reply of the servers of a zone. -/
def ask (servers : List Text) (qn : Name) (qtype : RRType) (zone name : Name) : Act (Option Message) := do
  let servers ← .atomic (r.order servers)
  r.askServers qn qtype zone name servers

/-- `_child`: the name one label below the zone toward the name. -/
def child (name zone : Name) : Name := ⟨name.labels.drop (name.labels.length - zone.labels.length - 1)⟩

/-- Where the loop of `_resolve_name` stands. -/
structure Walk where
  zone : Name
  servers : List Text
  probe : Name
  qmin : Bool
  widened : Bool := false

/-- What one name comes to: a message, and the target where it is a CNAME. -/
abbrev Found : Type := Message × Option Name

/-- The loop of `_resolve_name`. -/
def descend (addresses : Cut → Act (List Text)) (name : Name) (qtype : RRType) : Nat → Walk → Act Found
  | 0, _ => do return (← .ofExcept (failure name.toText qtype), none)
  | steps + 1, w => do
      if w.servers = [] then return (← .ofExcept (failure name.toText qtype), none)
      let minimized : Bool := w.qmin && decide (w.probe.labels.length + 1 < name.labels.length)
      let qn := if minimized then child name w.probe else name
      let qt := if minimized then RRType.ns else qtype
      match ← r.ask w.servers qn qt w.zone name with
      | none => return (← .ofExcept (failure name.toText qtype), none)
      | some msg =>
          match ← .ofExcept (referral msg w.zone name qt) with
          | some deleg =>
              let cut ← .atomic (r.putCut deleg.zone deleg.names (glue msg deleg.names) deleg.ttl)
              let servers ← addresses cut
              if servers = [] then return (← .ofExcept (failure name.toText qtype), none)
              descend addresses name qtype steps { w with zone := deleg.zone, servers, probe := deleg.zone }
          | none =>
              if (qn == name) = false then
                if msg.rcode = noerror then descend addresses name qtype steps { w with probe := qn }
                else if w.widened = false then
                  descend addresses name qtype steps { w with widened := true, qmin := false }
                else return (msg, none)
              else if msg.answers.any fun rr => rr.name == name && rr.rtype == qtype then return (msg, none)
              else match msg.answers.find? fun rr => rr.name == name && rr.rtype == RRType.cname with
                | some rr => return (msg, some (← .ofExcept (nameOf rr.rdata)))
                | none => return (msg, none)

/-- `_resolve_name` -/
def resolveName (addresses : Cut → Act (List Text)) (name : Name) (qtype : RRType) : Act Found := do
  let start := if qtype = RRType.ds ∧ name.isRoot = false then name.parent else name
  let w : Walk ← match ← .atomic (r.closest start) with
    | some cut => do
        let servers ← addresses cut
        pure { zone := cut.zone, servers, probe := cut.zone, qmin := r.qmin }
    | none => pure { zone := Name.root, servers := r.rootHints, probe := Name.root, qmin := r.qmin }
  r.descend addresses name qtype r.maxSteps w

/-- The addresses of a nameserver in what was found for it. -/
def addressesIn (nm : Name) (answers : List RR) : List Text :=
  answers.filterMap fun rr =>
    match rr.rdata with
    | .a address => if rr.rtype = RRType.a ∧ (rr.name == nm) = true then some address else none
    | _ => none

/-- A nameserver is resolved, and its addresses kept. -/
def addressOf (resolve : Name → RRType → Act Found) (nm : Name) : Act (List Text) := do
  let (msg, _) ← resolve nm RRType.a
  let got := addressesIn nm msg.answers
  if got ≠ [] then
    .atomic (r.putAddrs nm got (minTtl (msg.answers.filter fun rr => rr.rtype == RRType.a)))
  return got

/-- The loop of `_addresses` over nameservers whose address is not known. -/
def chase (resolve : Name → RRType → Act Found) : List Name → Act (List Text)
  | [] => pure []
  | nm :: nms => do
      let job ← .job
      if within job.chasing nm then chase resolve nms
      else
        let now ← .atomic r.now
        if job.spent now then chase resolve nms
        else
          .modifyJob fun job => { job with chasing := job.chasing ++ [nm] }
          let found ← .attempt (r.addressOf resolve nm)
          .modifyJob fun job => { job with chasing := job.chasing.filter fun other => !(other == nm) }
          match found with
          | .ok (ip :: ips) => return ip :: ips
          | _ => chase resolve nms

/-- What `_addresses` knows of a cut, or else what it finds. -/
def known (cut : Cut) (finds : Act (List Text)) : Act (List Text) := do
  if cut.flat ≠ [] then return cut.flat
  let known ← .atomic (cut.names.flatMapM r.addrsFor)
  if known ≠ [] then return known
  if cut.zone.isRoot then return r.rootHints
  finds

/-- `_addresses`, with how many nameservers may still be resolved one below the other. -/
def addresses : Nat → Cut → Act (List Text)
  | 0, cut => r.known cut (pure [])
  | depth + 1, cut => r.known cut (r.chase (r.resolveName (addresses depth)) (cut.names.take 2))

/-- `_resolve_name` of a client's name. -/
def lookup (name : Name) (qtype : RRType) : Act Found := r.resolveName (r.addresses r.maxNsDepth) name qtype

/-! ### A question -/

/-- The records that a condition which may raise picks. -/
def select (p : RR → Except Fault Bool) : List RR → Except Fault (List RR)
  | [] => .ok []
  | rr :: rrs => do
      let mine ← p rr
      let others ← select p rrs
      return if mine then rr :: others else others

/-- `rdata.type_covered` is the type, where the record is a signature. -/
def signs (covered : RRType) (rr : RR) : Except Fault Bool :=
  if rr.rtype = RRType.rrsig then
    match rr.rdata with
    | .rrsig data => .ok (data.typeCovered == covered)
    | _ => .error .attribute
  else .ok false

/-- What a CNAME hop adds: the record itself and its signatures. -/
def hopOwn (name : Name) (rrs : List RR) : Except Fault (List RR) :=
  select (fun rr =>
    if (rr.name == name) = false then .ok false
    else if rr.rtype = RRType.cname then .ok true
    else signs RRType.cname rr) rrs

/-- A hop, kept for validation. -/
structure Hop where
  name : Name
  own : List RR
  authority : List RR

/-- A validation with its lookups, all on the job of the question. -/
def consult : Consult → Act Verdict
  | .verdict v => pure v
  | .raises => pure .bogus
  | .lookup name rtype k => do
      match ← .attempt (r.lookup name rtype) with
      | .ok found => consult (k (some found.1))
      | .error _ => consult (k none)

def nextValidation : StateM Shared Nat := fun s => (s.validations, { s with validations := s.validations + 1 })

/-- The signatures of a name over the records of a type. -/
def signaturesOf (name : Name) (qtype : RRType) (rrs : List RR) : Except Fault (List Rdata) := do
  let own ← select (fun rr => if rr.name == name then signs qtype rr else .ok false) rrs
  return own.map RR.rdata

/-- `_validate_one`: the verdict on one RRset or its denial, and whether it had signatures. -/
def validateOne (name : Name) (qtype : RRType) (records authority : List RR) (rcode : Nat) : Act (Verdict × Bool) := do
  let rdatas := (records.filter fun rr => rr.rtype == qtype && rr.name == name).map RR.rdata
  let rrsigs ← .ofExcept (signaturesOf name qtype records)
  let n ← .atomic nextValidation
  let verdict ← r.consult (r.validator n { name, qtype, rdatas, rrsigs, authority, rcode })
  return (verdict, !rrsigs.isEmpty)

/-- The loop of `_apply_validation` over the hops, up to one that is bogus. -/
def validateHops : List Hop → Verdict × Bool → Act (Verdict × Bool)
  | [], sofar => pure sofar
  | hop :: hops, sofar => do
      let (verdict, signed) ← r.validateOne hop.name RRType.cname hop.own hop.authority noerror
      if verdict = .bogus then return (verdict, signed)
      validateHops hops (if verdict = .secure then sofar else (verdict, sofar.2))

/-- `_ede` -/
def explained (msg : Message) (code : UInt16) (text : Text) : Message :=
  { msg with edns := some ((msg.edns.getD { udpSize := 1232 }).setOption EdnsOption.extendedError
      (octets16 code ++ text.map fun c => UInt8.ofNat c.toNat)) }

/-- The end of `_apply_validation`: AD on what is secure, nothing of what is bogus. -/
def conclude (out : Message) (result : Verdict × Bool) : Message :=
  if result.1 = .secure then out.setFlag flagAd
  else if result.1 = .bogus ∧ out.has flagCd = false then
    let failed := Message.setRcode { out with answers := [], authority := [] } servfail
    if result.2 then explained failed 6 "DNSSEC bogus".toList else explained failed 10 "RRSIGs missing".toList
  else out

/-- `_apply_validation` -/
def applyValidation (out : Message) (name : Name) (qtype : RRType) (hops : List Hop) : Act Message := do
  let out := out.setFlag flagAd false
  let sofar ← r.validateHops hops (.secure, true)
  if sofar.1 = .bogus then return conclude out sofar
  let one ← r.validateOne name qtype out.answers out.authority out.rcode
  return conclude out (if one.1 = .bogus ∨ sofar.1 = .secure then one else sofar)

/-- The loop of `_resolve_chain`. -/
def followChain (qname : Text) (qtype : RRType) : Nat → Name → List RR → List Hop → List Name → Act Message
  | 0, _, _, _, _ => .ofExcept (failure qname qtype)
  | left + 1, name, answers, hops, seen => do
      let (result, target) ← r.lookup name qtype
      match target with
      | some target =>
          let own ← .ofExcept (hopOwn name result.answers)
          if within seen target then .ofExcept (failure qname qtype)
          else
            followChain qname qtype left target (answers ++ own)
              (hops ++ [{ name, own, authority := result.authority }]) (seen ++ [target])
      | none =>
          if result.rcode ≠ noerror ∧ result.rcode ≠ nxdomain then .ofExcept (failure qname qtype)
          else
            let asked ← .ofExcept ((Name.fromText qname).mapError .wire)
            let out := { result with
              answers := answers ++ result.answers
              questions := [⟨asked, qtype, RRClass.in⟩] }
            if r.validate then r.applyValidation out name qtype hops
            else return out

/-- `Recursive.resolve`, from the reading of the clock that its budget begins with. -/
def resolve (qname : Text) (qtype : RRType) : Task Shared Request Reply (Except Fault Message) :=
  match Name.fromText qname with
  | .error e => .done (.error (.wire e))
  | .ok name =>
      .touch (fun s => (r.now s).2) fun s =>
        let job : Job := { deadline := (r.now s).1 + r.budget, queries := r.maxQueries }
        (r.followChain qname qtype r.maxCname name [] [] [name] job).bind fun out => .done out.2

/-- `RecursiveForwarder.resolve`: the answer to a client's query. -/
def forward (query : Message) : Task Shared Request Reply (Except Fault Message) :=
  match query.question with
  | none => .done (failure ['.'] 0)
  | some q =>
      (r.resolve q.name.toText q.rtype).bind fun out =>
        .done (out.map fun resp => { resp with id := query.id, questions := query.questions })

/-- A client's query with its answer. -/
def serve (query : Message) : Task Shared Request Reply (Message × Except Fault Message) :=
  (r.forward query).bind fun out => .done (query, out)

/-- Any number of queries, from empty caches, with replies and cancellations in any order. -/
def after (events : List (Coroutine.Event Message Reply)) :
    Coroutine.Pool Shared Request Reply (Message × Except Fault Message) :=
  Coroutine.run r.serve { shared := {} } events

/-- The queries that were answered, each with its answer. -/
def answered (events : List (Coroutine.Event Message Reply)) : List (Message × Message) :=
  (r.after events).slots.filterMap fun slot =>
    match slot.now with
    | some (.done (query, .ok msg)) => some (query, msg)
    | _ => none

end Recursive

end Trench.Resolver
