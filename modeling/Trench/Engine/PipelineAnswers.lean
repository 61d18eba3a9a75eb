import Mathlib
import Trench.Engine.Pipeline
import Trench.Wire.RdataIdentity

set_option autoImplicit false

/- What every response of the pipeline has, and when there is one. -/
namespace Trench.Engine

open Wire

/-- The response belongs to the query: its id and questions, an OPT where the query has one,
and no cookie but the one made for this client. -/
structure Answers (lib : Library) (s : Settings) (query : Message) (clientIp : Text)
    (resp : Message) : Prop where
  id : resp.id = query.id
  questions : resp.questions = query.questions
  opt : resp.edns.isSome = query.edns.isSome
  cookies : ∀ e, resp.edns = some e → ∀ option ∈ e.options, option.1 = EdnsOption.cookie →
    ∃ jar cc, s.cookies = some jar ∧
      (query.edns.bind fun asked => asked.getOption EdnsOption.cookie) = some cc ∧
      option.2 = jar.makeResponse lib cc clientIp

/-- `resolve_ctx` returns, with such a response. -/
def Answered (lib : Library) (s : Settings) (query : Message) (clientIp : Text)
    (run : Option Outcome) : Prop :=
  ∃ resp entry, resolveCtx lib s query clientIp run = .ok (resp, entry) ∧
    Answers lib s query clientIp resp

/-- The answers have a text wherever the log asks for one. -/
def Renders (s : Settings) (resp : Message) : Prop :=
  s.log = .answers → ∀ rr ∈ resp.answers, rr.rtype ≠ RRType.opt → rr.rdata.AsciiTag

/-! ### What finalization leaves -/

section Finalized

variable {lib : Library} {s : Settings} {query : Message} {clientIp : Text} {outcome : Outcome}

theorem isSome_mirrorEdns (s : Settings) (query resp : Message) :
    (mirrorEdns s query resp).isSome = query.edns.isSome := by
  rw [mirrorEdns]
  cases query.edns with
  | none => rfl
  | some asked => cases resp.edns <;> rfl

theorem cookie_setCookie {e : Edns} {option : UInt16 × Octets}
    (held : option ∈ (setCookie lib s query clientIp e).options)
    (cookie : option.1 = EdnsOption.cookie) : ∃ jar cc, s.cookies = some jar ∧
      (query.edns.bind fun asked => asked.getOption EdnsOption.cookie) = some cc ∧
      option.2 = jar.makeResponse lib cc clientIp := by
  have bare (inside : option ∈ (e.removeOption EdnsOption.cookie).options) : False :=
    (Edns.mem_removeOption.mp inside).2 cookie
  rw [setCookie] at held
  split at held
  · next jar cc jars asked =>
      split at held
      · rcases Edns.mem_setOption held with ⟨inside, -⟩ | same
        · exact (bare inside).elim
        · exact ⟨jar, cc, jars, asked, congrArg Prod.snd same⟩
      · exact (bare held).elim
  · exact (bare held).elim

theorem mem_setExtendedError {e : Edns} {option : UInt16 × Octets}
    (held : option ∈ (setExtendedError s outcome e).options) :
    option ∈ e.options ∨ option.1 = EdnsOption.extendedError := by
  have added {e : Edns} {data : Octets} {told : Prop} [Decidable told]
      (held : option ∈ (if told then e.setOption EdnsOption.extendedError data else e).options) :
      option ∈ e.options ∨ option.1 = EdnsOption.extendedError := by
    split at held
    · exact (Edns.mem_setOption held).imp And.left (congrArg Prod.fst)
    · exact .inl held
  simp only [setExtendedError] at held
  rcases added held with held | code
  · exact added held
  · exact .inr code

theorem finalized_answers (lib : Library) (s : Settings) (query : Message) (clientIp : Text)
    (outcome : Outcome) : Answers lib s query clientIp (finalized lib s query clientIp outcome) := by
  refine ⟨rfl, rfl, ?_, ?_⟩
  · rw [finalized, Option.isSome_map, isSome_mirrorEdns]
  · intro e edns option held cookie
    obtain ⟨mirrored, -, rfl⟩ := Option.map_eq_some_iff.mp edns
    rcases mem_setExtendedError held with held | code
    · exact cookie_setCookie held cookie
    · rw [cookie] at code
      exact absurd code (by decide)

theorem mapM_toText {rrs : List RR} (good : ∀ rr ∈ rrs, rr.rdata.AsciiTag) :
    ∃ texts, rrs.mapM (fun rr => rr.rdata.toText) = .ok texts := by
  induction rrs with
  | nil => exact ⟨[], rfl⟩
  | cons rr rest ih =>
      obtain ⟨t, text⟩ := (Rdata.toText_ok_iff rr.rdata).mpr (good rr List.mem_cons_self)
      obtain ⟨texts, more⟩ := ih fun other held => good other (List.mem_cons_of_mem _ held)
      refine ⟨t :: texts, ?_⟩
      rw [List.mapM_cons, text, more]
      rfl

theorem ascii_of_mapM {rrs : List RR} {texts : List Text}
    (rendered : rrs.mapM (fun rr => rr.rdata.toText) = .ok texts) : ∀ rr ∈ rrs, rr.rdata.AsciiTag := by
  induction rrs generalizing texts with
  | nil =>
      intro rr held
      cases held
  | cons first rest ih =>
      intro rr held
      rw [List.mapM_cons] at rendered
      cases text : first.rdata.toText with
      | error e =>
          rw [text] at rendered
          cases rendered
      | ok t =>
          rw [text] at rendered
          cases more : rest.mapM (fun rr => rr.rdata.toText) with
          | error e =>
              simp only [more] at rendered
              cases rendered
          | ok others =>
              rcases List.mem_cons.mp held with rfl | held
              · exact (Rdata.toText_ok_iff _).mp ⟨t, text⟩
              · exact ih more rr held

theorem answerTexts_ok_iff (resp : Message) : (∃ texts, answerTexts resp = .ok texts) ↔
    ∀ rr ∈ resp.answers, rr.rtype ≠ RRType.opt → rr.rdata.AsciiTag := by
  constructor
  · rintro ⟨texts, rendered⟩ rr held other
    exact ascii_of_mapM rendered rr (List.mem_filter.mpr ⟨held, decide_eq_true other⟩)
  · intro good
    apply mapM_toText
    intro rr held
    obtain ⟨listed, other⟩ := List.mem_filter.mp held
    exact good rr listed (of_decide_eq_true other)

/-- Finalization returns the edited response, or raises in rendering an answer. -/
theorem finalize_ok_iff {resp : Message} : (∃ entry, finalize lib s query clientIp outcome =
    .ok (resp, entry)) ↔ resp = finalized lib s query clientIp outcome ∧ Renders s resp := by
  rw [finalize, Renders]
  cases s.log with
  | off =>
      constructor
      · rintro ⟨entry, done⟩
        cases done
        exact ⟨rfl, nofun⟩
      · rintro ⟨rfl, -⟩
        exact ⟨_, rfl⟩
  | names =>
      constructor
      · rintro ⟨entry, done⟩
        cases done
        exact ⟨rfl, nofun⟩
      · rintro ⟨rfl, -⟩
        exact ⟨_, rfl⟩
  | answers =>
      constructor
      · rintro ⟨entry, done⟩
        cases rendered : answerTexts (finalized lib s query clientIp outcome) with
        | error e =>
            rw [rendered] at done
            cases done
        | ok texts =>
            rw [rendered] at done
            cases done
            exact ⟨rfl, fun _ => (answerTexts_ok_iff _).mp ⟨texts, rendered⟩⟩
      · rintro ⟨rfl, good⟩
        obtain ⟨texts, rendered⟩ := (answerTexts_ok_iff _).mpr (good rfl)
        rw [rendered]
        exact ⟨_, rfl⟩

end Finalized

/-! ### What the upstream's reply leaves -/

theorem renders_nil (s : Settings) {resp : Message} (none : resp.answers = []) : Renders s resp := by
  intro _ rr held
  rw [none] at held
  cases held

theorem renders_reply (s : Settings) (query : Message) (rc : Nat) : Renders s (query.reply rc) :=
  renders_nil s (query.reply_plain rc).1

/-- The condition is one on the answers. -/
theorem Renders.congr {s : Settings} {resp other : Message} (same : resp.answers = other.answers) :
    Renders s resp ↔ Renders s other := by
  rw [Renders, same, Renders]

/-- New parameters leave the type of a record and whether it has a text. -/
theorem withParams_alike (change : Octets → Octets) (rr : RR) :
    (withParams change rr).rtype = rr.rtype ∧
      ((withParams change rr).rdata.AsciiTag ↔ rr.rdata.AsciiTag) := by
  rw [withParams]
  split
  · split
    · next d service =>
        rw [service]
        exact ⟨rfl, Iff.rfl⟩
    · next d service =>
        rw [service]
        exact ⟨rfl, Iff.rfl⟩
    · exact ⟨rfl, Iff.rfl⟩
  · exact ⟨rfl, Iff.rfl⟩

theorem renders_stripEch (s : Settings) (resp : Message) :
    Renders s (stripEchRecords resp) ↔ Renders s resp := by
  apply forall_congr'
  intro _
  constructor
  · intro good rr held other
    obtain ⟨type, tag⟩ := withParams_alike stripEch rr
    exact tag.mp (good _ (List.mem_map_of_mem held) (type ▸ other))
  · intro good rr held other
    obtain ⟨old, listed, rfl⟩ := List.mem_map.mp held
    obtain ⟨type, tag⟩ := withParams_alike stripEch old
    exact tag.mpr (good old listed (type ▸ other))

/-- An address always has a text. -/
theorem ascii_of_rebinds {lib : Addresses} {rr : RR} (inside : rebinds lib rr = true) :
    rr.rdata.AsciiTag := by
  rw [rebinds, Bool.and_eq_true] at inside
  obtain ⟨-, address⟩ := inside
  split at address
  · next same =>
      rw [same]
      exact trivial
  · next same =>
      rw [same]
      exact trivial
  · cases address

theorem renders_scrub (lib : Addresses) (s : Settings) (resp : Message) (qname : Text)
    (localSuffixes : List Text) : Renders s (scrub lib resp qname localSuffixes) ↔ Renders s resp := by
  rw [scrub]
  split
  · exact Iff.rfl
  · apply forall_congr'
    intro _
    constructor
    · intro good rr held other
      by_cases inside : rebinds lib rr = true
      · exact ascii_of_rebinds inside
      · obtain ⟨type, tag⟩ := withParams_alike (scrubHints lib) rr
        refine tag.mp (good _ (List.mem_map_of_mem (List.mem_filter.mpr ⟨held, ?_⟩)) (type ▸ other))
        rw [Bool.eq_false_of_not_eq_true inside]
        rfl
    · intro good rr held other
      obtain ⟨old, kept, rfl⟩ := List.mem_map.mp held
      obtain ⟨type, tag⟩ := withParams_alike (scrubHints lib) old
      exact tag.mpr (good old (List.mem_filter.mp kept).1 (type ▸ other))

theorem renders_keep (lib : Library) (s : Settings) (query : Message) (name : Name)
    (resp : Message) : Renders s (keep lib s query name resp) ↔ Renders s resp := by
  rw [keep]
  apply (Renders.congr (show (dropHopByHop _).answers = _ from rfl)).trans
  split
  · exact renders_scrub lib.addresses s resp _ _
  · exact Iff.rfl

/-- The reply with its own letter case undone, less what was not asked for. -/
def solicited (s : Settings) (name : Name) (reply : Message) : Message :=
  sanitize (if s.use0x20 then restoreCase reply name else reply) name

/-- The reply that the inspection sees. -/
def inspected (s : Settings) (name : Name) (reply : Message) : Message :=
  if s.stripEch then stripEchRecords (solicited s name reply) else solicited s name reply

/-- The reply is neither a forged one nor blocked. -/
def Passes (s : Settings) (name sent : Name) (inspect : Message → Option Block) (reply : Message) :
    Prop :=
  (s.use0x20 = true → verifyCase reply sent = true) ∧ inspect (inspected s name reply) = none

theorem fetch_eq (lib : Library) (s : Settings) (query : Message) (name sent : Name)
    (inspect : Message → Option Block) (reply : Message) : fetch lib s query name sent inspect reply =
      if s.use0x20 = true ∧ verifyCase reply sent = false then none
      else match inspect (inspected s name reply) with
        | some b => some (.block b)
        | none => some (.resp (keep lib s query name (inspected s name reply))) := rfl

theorem renders_inspected (s : Settings) (name : Name) (reply : Message) :
    Renders s (inspected s name reply) ↔ Renders s (solicited s name reply) := by
  rw [inspected]
  split
  · exact renders_stripEch s _
  · exact Iff.rfl

/-- What is forwarded: the reply that passes, with what is kept of it. -/
theorem fetch_eq_resp {lib : Library} {s : Settings} {query : Message} {name sent : Name}
    {inspect : Message → Option Block} {reply kept : Message} :
    fetch lib s query name sent inspect reply = some (.resp kept) ↔
      Passes s name sent inspect reply ∧ kept = keep lib s query name (inspected s name reply) := by
  rw [fetch_eq, Passes]
  split
  · next forged =>
      constructor
      · nofun
      · rintro ⟨⟨verified, -⟩, -⟩
        rw [verified forged.1] at forged
        exact absurd forged.2 (by decide)
  · next verified =>
      have verified : s.use0x20 = true → verifyCase reply sent = true := by
        intro on
        by_contra missed
        exact verified ⟨on, Bool.eq_false_of_not_eq_true missed⟩
      cases verdict : inspect (inspected s name reply) with
      | some b =>
          constructor
          · nofun
          · rintro ⟨⟨-, none⟩, -⟩
            cases none
      | none =>
          constructor
          · intro same
            cases same
            exact ⟨⟨verified, rfl⟩, rfl⟩
          · rintro ⟨-, rfl⟩
            rfl

theorem renders_buildBlock (s : Settings) (query : Message) : Renders s (buildBlock s query) := by
  have reply := renders_reply s query Rcode.noerror
  have set (rc : Nat) : Renders s ((query.reply Rcode.noerror).setRcode rc) :=
    (Renders.congr (by rw [Message.setRcode]; split <;> rfl)).mpr reply
  have address {resp : Message} {name : Name} {rtype : RRType} {rd : Rdata} (text : rd.AsciiTag) :
      Renders s { resp with answers := [⟨name, rtype, RRClass.in, blockTtl, rd⟩] } := by
    intro _ rr held _
    cases List.mem_singleton.mp held
    exact text
  rw [buildBlock]
  split
  · exact set _
  · split
    · exact set _
    · exact set _
    · exact reply
    · dsimp only
      split
      · exact address trivial
      · split
        · exact address trivial
        · exact reply

theorem resolveUpstream_fresh (s : Settings) (query : Message) (slow : Bool)
    (fetched : Option Answer) : resolveUpstream s query none slow fetched =
      match fetched with
      | none =>
          if isLocalOnly (qname query) s.localSuffixes then
            ⟨some (query.reply Rcode.nxdomain), .failed,
              "local-only name; its route failed".toList, []⟩
          else ⟨some (query.reply Rcode.servfail), .failed, [], []⟩
      | some (.block b) => blocked s query b
      | some (.resp m) => ⟨some m, .forwarded, [], []⟩ := by
  rcases fetched with - | b | m <;> rfl

/-- Where nothing expired is at hand, only a forwarded reply can lack a text. -/
theorem renders_upstream (s : Settings) (query : Message) (slow : Bool) (fetched : Option Answer) :
    (∀ m, (resolveUpstream s query none slow fetched).response = some m → Renders s m) ↔
      ∀ kept, fetched = some (.resp kept) → Renders s kept := by
  have reply (rc : Nat) : Renders s (query.reply rc) := renders_reply s query rc
  rw [resolveUpstream_fresh]
  cases fetched with
  | none =>
      refine ⟨fun _ => nofun, fun _ m same => ?_⟩
      dsimp only at same
      split at same
      · cases same
        exact reply _
      · cases same
        exact reply _
  | some fetched =>
      cases fetched with
      | block b =>
          refine ⟨fun _ => nofun, fun _ m same => ?_⟩
          cases same
          exact renders_buildBlock s query
      | resp kept =>
          constructor
          · intro good other same
            cases same
            exact good kept rfl
          · intro good m same
            cases same
            exact good kept rfl

section Answered

variable {lib : Library} {s : Settings} {query : Message} {clientIp : Text}

theorem answered_iff_renders (run : Option Outcome) : Answered lib s query clientIp run ↔
    ∀ outcome m, run = some outcome → outcome.response = some m → Renders s m := by
  have same (outcome : Outcome) : Renders s (finalized lib s query clientIp outcome) ↔
      Renders s (outcome.response.getD (query.reply Rcode.servfail)) := Renders.congr rfl
  constructor
  · rintro ⟨resp, entry, done, -⟩ outcome m rfl held
    obtain ⟨rfl, good⟩ := finalize_ok_iff.mp ⟨entry, done⟩
    have good := (same outcome).mp good
    rwa [held] at good
  · intro good
    have renders : Renders s (finalized lib s query clientIp
        (run.getD ⟨some (query.reply Rcode.servfail), .failed, [], []⟩)) := by
      apply (same _).mpr
      cases run with
      | none => exact renders_reply s query Rcode.servfail
      | some outcome =>
          cases held : outcome.response with
          | none =>
              change Renders s (outcome.response.getD _)
              rw [held]
              exact renders_reply s query Rcode.servfail
          | some m =>
              change Renders s (outcome.response.getD _)
              rw [held]
              exact good outcome m rfl held
    obtain ⟨entry, done⟩ := finalize_ok_iff.mpr ⟨rfl, renders⟩
    exact ⟨_, entry, done, finalized_answers lib s query clientIp _⟩

end Answered

/-- Whatever the stages leave, the pipeline answers exactly when the log does not record
answers or every answer has a text; for what it forwards, the reply decides. -/
theorem answered_iff (lib : Library) (s : Settings) (query : Message) (clientIp : Text) :
    (∀ run, Answered lib s query clientIp run ↔
      ∀ outcome m, run = some outcome → outcome.response = some m → Renders s m) ∧
    ∀ sent inspect slow reply, Answered lib s query clientIp (run query none fun q =>
        resolveUpstream s query none slow (fetch lib s query q.name sent inspect reply)) ↔
      ∀ q, headerError query = none → query.question = some q → Passes s q.name sent inspect reply →
        Renders s (solicited s q.name reply) := by
  refine ⟨answered_iff_renders, fun sent inspect slow reply => ?_⟩
  apply (answered_iff_renders _).trans
  have early (rc : Nat) : Renders s (query.reply rc) := renders_reply s query rc
  rw [run]
  cases headed : headerError query with
  | some bad =>
      refine ⟨fun _ q clear => (by cases clear), fun _ outcome m left held => ?_⟩
      cases left
      cases held
      exact early bad
  | none =>
      cases asked : query.question with
      | none =>
          refine ⟨fun _ q _ same => (by cases same), fun _ outcome m left held => ?_⟩
          cases left
          cases held
          exact early Rcode.noerror
      | some q =>
          have upstream := renders_upstream s query slow
            (fetch lib s query q.name sent inspect reply)
          constructor
          · intro good other _ same passes
            cases same
            have kept := upstream.mp (fun m => good _ m rfl) _ (fetch_eq_resp.mpr ⟨passes, rfl⟩)
            exact (renders_inspected s q.name reply).mp ((renders_keep lib s query q.name _).mp kept)
          · intro good outcome m left held
            cases left
            refine upstream.mpr (fun kept fetched => ?_) m held
            obtain ⟨passes, rfl⟩ := fetch_eq_resp.mp fetched
            exact (renders_keep lib s query q.name _).mpr
              ((renders_inspected s q.name reply).mpr (good q rfl rfl passes))

/-! ### An issuer's tag that is not ASCII -/

/-- The CAA records of `a`, asked for. -/
def issuerQuery : Octets := [0, 1, 1, 0, 0, 1, 0, 0, 0, 0, 0, 0, 1, 0x61, 0, 1, 1, 0, 1]

/-- One record, whose tag is the octet `0xE9`. -/
def issuerReply : Octets :=
  [0, 1, 0x81, 0x80, 0, 1, 0, 1, 0, 0, 0, 0, 1, 0x61, 0, 1, 1, 0, 1,
    0xC0, 12, 1, 1, 0, 1, 0, 0, 0, 60, 0, 4, 0, 1, 0xE9, 0x78]

def issuerQuestion : Question := ⟨⟨[⟨[0x61], by decide, by decide⟩]⟩, RRType.caa, RRClass.in⟩

def issuerAsked : Message where
  id := 1
  flags := 0x0100
  questions := [issuerQuestion]

def issuerTold : Message where
  id := 1
  flags := 0x8180
  questions := [issuerQuestion]
  answers := [⟨issuerQuestion.name, RRType.caa, RRClass.in, 60, .caa ⟨0, [0xE9], [0x78]⟩⟩]

def answerLog : Settings where
  ednsUdpSize := 1232
  blockMode := .zeroIp
  blockIpv4 := []
  blockIpv6 := []
  ede := true
  cookies := none
  log := .answers
  rebinding := true
  localSuffixes := []
  use0x20 := false
  stripEch := false

/-- The log renders the answer outside the guard, and nothing comes back. -/
theorem issuer_unanswered : ¬ ∀ (lib : Library) (s : Settings) (asked told : Octets)
    (query reply : Message) (clientIp : Text), Message.parse asked = .ok query →
    Message.parse told = .ok reply → Answered lib s query clientIp (run query none fun q =>
      resolveUpstream s query none false (fetch lib s query q.name q.name (fun _ => none) reply)) := by
  intro claim
  let lib : Library := ⟨⟨fun _ => [], fun _ => false⟩, fun _ _ => []⟩
  obtain ⟨resp, entry, done, -⟩ := claim lib answerLog issuerQuery issuerReply issuerAsked issuerTold []
    (by decide +kernel) (by decide +kernel)
  have raised : (resolveCtx lib answerLog issuerAsked [] (run issuerAsked none fun q =>
      resolveUpstream answerLog issuerAsked none false (fetch lib answerLog issuerAsked q.name q.name
        (fun _ => none) issuerTold))).isOk = false := by decide +kernel
  rw [done] at raised
  cases raised

end Trench.Engine
