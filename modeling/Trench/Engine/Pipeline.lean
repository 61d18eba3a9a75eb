import Mathlib
import Trench.Engine.Harden
import Trench.Wire.RdataText

set_option autoImplicit false

/- The exit of the query pipeline, and the way to it through an upstream's reply. -/
namespace Trench.Engine

open Wire

/-! ### Rcodes and texts -/

namespace Rcode

def noerror : Nat := 0
def formerr : Nat := 1
def servfail : Nat := 2
def nxdomain : Nat := 3
def notimp : Nat := 4
def refused : Nat := 5
def badvers : Nat := 16

end Rcode

/-- `_RCODE_TEXT`. -/
def rcodeTexts : List (Nat × String) :=
  [(0, "NOERROR"), (1, "FORMERR"), (2, "SERVFAIL"), (3, "NXDOMAIN"), (4, "NOTIMP"), (5, "REFUSED"),
   (6, "YXDOMAIN"), (7, "YXRRSET"), (8, "NXRRSET"), (9, "NOTAUTH"), (10, "NOTZONE"), (16, "BADVERS"),
   (17, "BADKEY"), (18, "BADTIME")]

def rcodeText (rc : Nat) : Text :=
  match rcodeTexts.lookup rc with
  | some name => name.toList
  | none => (toString rc).toList

/-- `str.encode`. -/
def utf8 (s : Text) : Octets := s.flatMap String.utf8EncodeChar

/-- `QueryContext.qname`: without its last dots, in lower case. -/
def qname (query : Message) : Text :=
  match query.question with
  | some q => Name.lowerText (q.name.toText.rdropWhile (· = '.'))
  | none => []

def qtype (query : Message) : RRType :=
  match query.question with
  | some q => q.rtype
  | none => 0

/-! ### Names that are never forwarded -/

def specialUse : List String :=
  ["0.in-addr.arpa", "10.in-addr.arpa", "127.in-addr.arpa", "254.169.in-addr.arpa",
    "168.192.in-addr.arpa"] ++
  (List.range' 16 16).map (fun i => toString i ++ ".172.in-addr.arpa") ++
  (List.range' 64 64).map (fun i => toString i ++ ".100.in-addr.arpa") ++
  ["d.f.ip6.arpa", "8.e.f.ip6.arpa", "9.e.f.ip6.arpa", "a.e.f.ip6.arpa", "b.e.f.ip6.arpa",
    String.join (List.replicate 31 "0.") ++ "0.ip6.arpa",
    "1." ++ String.join (List.replicate 31 "0.") ++ "ip6.arpa",
    "invalid", "localhost", "local", "home.arpa", "resolver.arpa"]

/-- The loop of `is_local_only`; each round takes a label off. -/
def localOnlyLoop (localSuffixes : List Text) : Nat → Text → Bool
  | 0, _ => false
  | fuel + 1, name =>
      if name = [] then false
      else if specialUse.any (fun s => s.toList == name) || localSuffixes.contains name then true
      else localOnlyLoop localSuffixes fuel ((name.dropWhile (· ≠ '.')).drop 1)

def isLocalOnly (name : Text) (localSuffixes : List Text) : Bool :=
  localOnlyLoop localSuffixes name.length name

/-! ### Settings -/

/-- What is used of Python's library: addresses, and HMAC with SHA-256. -/
structure Library where
  addresses : Addresses
  hmac : Octets → Octets → Octets

/-- The secret in use. -/
structure CookieJar where
  secret : Octets

/-- The client's cookie and the server's own, bound to the address. -/
def CookieJar.makeResponse (jar : CookieJar) (lib : Library) (clientCookie : Octets)
    (clientIp : Text) : Octets :=
  clientCookie.take 8 ++ (lib.hmac jar.secret (clientCookie.take 8 ++ utf8 clientIp)).take 8

inductive BlockMode where
  | zeroIp
  | nxdomain
  | refused
  | nodata
  | customIp
  deriving DecidableEq

/-- What the query log wants: nothing, entries without answers, or all. -/
inductive LogLevel where
  | off
  | names
  | answers
  deriving DecidableEq

structure Settings where
  ednsUdpSize : UInt16
  blockMode : BlockMode
  blockIpv4 : Text
  blockIpv6 : Text
  ede : Bool
  cookies : Option CookieJar
  log : LogLevel
  rebinding : Bool
  localSuffixes : List Text
  use0x20 : Bool
  stripEch : Bool

/-! ### The upstream's reply -/

/-- What a block verdict quotes. -/
structure Block where
  reason : Text
  rule : Text

/-- `_Answer`. -/
inductive Answer where
  | resp (m : Message)
  | block (b : Block)

/-- `_HOP_BY_HOP`. -/
def hopByHop : List UInt16 := [EdnsOption.cookie, EdnsOption.tcpKeepalive, EdnsOption.padding]

def dropHopByHop (resp : Message) : Message :=
  { resp with edns := resp.edns.map fun e : Edns =>
      { e with options := e.options.filter fun option => option.1 ∉ hopByHop } }

/-- The records and options of a reply that are kept. -/
def keep (lib : Library) (s : Settings) (query : Message) (name : Name) (resp : Message) : Message :=
  let resp := if s.rebinding then scrub lib.addresses resp (qname query) s.localSuffixes else resp
  dropHopByHop resp

/-- `_fetch` for the question's name, sent in the letter case of `sent`. `inspect` is the cloak
inspection and the address lists. Nothing comes back where the reply is rejected by raising. -/
def fetch (lib : Library) (s : Settings) (query : Message) (name sent : Name)
    (inspect : Message → Option Block) (reply : Message) : Option Answer :=
  if s.use0x20 ∧ verifyCase reply sent = false then none
  else
    let resp := if s.use0x20 then restoreCase reply name else reply
    let resp := sanitize resp name
    let resp := if s.stripEch then stripEchRecords resp else resp
    match inspect resp with
    | some b => some (.block b)
    | none => some (.resp (keep lib s query name resp))

/-! ### What the stages leave behind -/

inductive Disposition where
  | refused
  | rateLimited
  | authoritative
  | blocked
  | safeSearch
  | rewrite
  | cached
  | forwarded
  | failed
  deriving DecidableEq

structure Outcome where
  response : Option Message
  action : Disposition
  reason : Text := []
  rule : Text := []

def blockTtl : Int := 60

/-- `build_block`. -/
def buildBlock (s : Settings) (query : Message) : Message :=
  let resp := query.reply Rcode.noerror
  match query.question with
  | none => resp.setRcode Rcode.refused
  | some q =>
      match s.blockMode with
      | .nxdomain => resp.setRcode Rcode.nxdomain
      | .refused => resp.setRcode Rcode.refused
      | .nodata => resp
      | mode =>
          let v4 := if mode = .zeroIp then "0.0.0.0".toList else s.blockIpv4
          let v6 := if mode = .zeroIp then "::".toList else s.blockIpv6
          if q.rtype = RRType.a then
            { resp with answers := [⟨q.name, RRType.a, RRClass.in, blockTtl, .a v4⟩] }
          else if q.rtype = RRType.aaaa then
            { resp with answers := [⟨q.name, RRType.aaaa, RRClass.in, blockTtl, .aaaa v6⟩] }
          else resp

/-- `_block`. -/
def blocked (s : Settings) (query : Message) (b : Block) : Outcome :=
  ⟨some (buildBlock s query), .blocked, b.reason, b.rule⟩

def staleFallback (m : Message) : Outcome := ⟨some m, .cached, "stale-fallback".toList, []⟩

/-- `_resolve_upstream`: `stale` is the expired answer at hand, `slow` tells whether the refresh
outlived the client's timer, `fetched` what it came to. -/
def resolveUpstream (s : Settings) (query : Message) (stale : Option Message) (slow : Bool)
    (fetched : Option Answer) : Outcome :=
  match stale, slow with
  | some old, true => ⟨some old, .cached, "stale-refreshing".toList, []⟩
  | _, _ =>
      match fetched with
      | none =>
          match stale with
          | some old => staleFallback old
          | none =>
              if isLocalOnly (qname query) s.localSuffixes then
                ⟨some (query.reply Rcode.nxdomain), .failed,
                  "local-only name; its route failed".toList, []⟩
              else ⟨some (query.reply Rcode.servfail), .failed, [], []⟩
      | some (.block b) => blocked s query b
      | some (.resp m) =>
          match stale with
          | some old =>
              if m.rcode = Rcode.servfail then staleFallback old else ⟨some m, .forwarded, [], []⟩
          | none => ⟨some m, .forwarded, [], []⟩

/-- `_header_error`. -/
def headerError (query : Message) : Option Nat :=
  if query.has Wire.flagQr then some Rcode.refused
  else if query.opcode ≠ 0 then some Rcode.notimp
  else if query.edns.any fun e => e.version ≠ 0 then some Rcode.badvers
  else if 1 < query.questions.length then some Rcode.formerr
  else if query.questions = [] ∧
      (query.edns.bind fun e => e.getOption EdnsOption.cookie) = none then some Rcode.formerr
  else none

/-- `_run`. The stages between the header and the upstream, the cache among them, answer
(`some (some _)`), raise (`some none`) or pass the question on; `upstream` answers what is
passed on. Nothing comes back where a stage raised. -/
def run (query : Message) (earlier : Option (Option Outcome)) (upstream : Question → Outcome) :
    Option Outcome :=
  match headerError query with
  | some bad => some ⟨some (query.reply bad), .refused, [], []⟩
  | none =>
      match query.question with
      | none => some ⟨some (query.reply Rcode.noerror), .refused, [], []⟩
      | some q => earlier.getD (some (upstream q))

/-! ### Finalization -/

/-- The OPT of the response: there is one exactly when the query has one. -/
def mirrorEdns (s : Settings) (query resp : Message) : Option Edns :=
  match query.edns, resp.edns with
  | some asked, none => some (Edns.setDnssecOk { udpSize := s.ednsUdpSize } asked.dnssecOk)
  | some _, some e => some { e with udpSize := s.ednsUdpSize, version := 0 }
  | none, _ => none

/-- Only our own cookie goes out. -/
def setCookie (lib : Library) (s : Settings) (query : Message) (clientIp : Text) (e : Edns) : Edns :=
  let e := e.removeOption EdnsOption.cookie
  match s.cookies, query.edns.bind fun asked => asked.getOption EdnsOption.cookie with
  | some jar, some cc =>
      if 8 ≤ cc.length then e.setOption EdnsOption.cookie (jar.makeResponse lib cc clientIp) else e
  | _, _ => e

/-- The extended errors: Blocked with its reason, and Stale Answer. -/
def setExtendedError (s : Settings) (outcome : Outcome) (e : Edns) : Edns :=
  let e :=
    if s.ede ∧ outcome.action = .blocked then
      let txt := if outcome.rule ≠ [] then outcome.rule
        else if outcome.reason ≠ [] then outcome.reason else "blocked".toList
      e.setOption EdnsOption.extendedError (octets16 15 ++ utf8 (txt.take 200))
    else e
  if outcome.action = .cached ∧ "stale".toList <+: outcome.reason ∧
      e.getOption EdnsOption.extendedError = none then
    e.setOption EdnsOption.extendedError (octets16 3)
  else e

structure LogEntry where
  qname : Text
  qtype : Text
  rcode : Text
  answers : List Text
  deriving DecidableEq

/-- The response as `_finalize` edits it. -/
def finalized (lib : Library) (s : Settings) (query : Message) (clientIp : Text)
    (outcome : Outcome) : Message :=
  let resp := outcome.response.getD (query.reply Rcode.servfail)
  { resp with
    id := query.id
    questions := query.questions
    edns := (mirrorEdns s query resp).map fun e =>
      setExtendedError s outcome (setCookie lib s query clientIp e) }

/-- The answers as the log shows them. -/
def answerTexts (resp : Message) : Except Rdata.TextError (List Text) :=
  (resp.answers.filter fun rr => rr.rtype ≠ RRType.opt).mapM fun rr => rr.rdata.toText

/-- `_finalize`, with the entry for the query log. -/
def finalize (lib : Library) (s : Settings) (query : Message) (clientIp : Text)
    (outcome : Outcome) : Except Rdata.TextError (Message × Option LogEntry) := do
  let resp := finalized lib s query clientIp outcome
  let name := if qname query = [] then ['.'] else qname query
  let entry := fun answers : List Text =>
    (⟨name, RRType.toText (qtype query), rcodeText resp.rcode, answers⟩ : LogEntry)
  match s.log with
  | .off => return (resp, none)
  | .names => return (resp, some (entry []))
  | .answers =>
      let answers ← answerTexts resp
      return (resp, some (entry answers))

/-- `resolve_ctx`: what the stages leave, or nothing where one of them raised. -/
def resolveCtx (lib : Library) (s : Settings) (query : Message) (clientIp : Text)
    (run : Option Outcome) : Except Rdata.TextError (Message × Option LogEntry) :=
  finalize lib s query clientIp
    (run.getD ⟨some (query.reply Rcode.servfail), .failed, [], []⟩)

end Trench.Engine
