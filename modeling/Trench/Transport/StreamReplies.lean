import Mathlib
import Trench.Engine.PipelineAnswers
import Trench.Transport.Base
import Trench.Wire.Extent
import Trench.Wire.MessageStable

set_option autoImplicit false

/- The replies that a stream can carry. -/
namespace Trench.Transport

open Wire Engine

/-! ### The size of what is sent -/

def roundUp (n block : Nat) : Nat := n + (block - n % block) % block

/-- Padding goes to an encrypted client that sent an OPT. -/
abbrev Pads (proto : Proto) (query : Message) : Prop :=
  proto ∈ padded ∧ query.edns.isSome = true

/-- The reply as its transport encodes it. -/
def encoded (proto : Proto) (query resp : Message) : Except EmitError Octets :=
  if Pads proto query then applyPadding resp >>= fun padded => padded.toWire else resp.toWire

def sentSize (proto : Proto) (query resp : Message) : Nat :=
  if Pads proto query then roundUp (resp.size + 4) padBlock else resp.size

/-- All data of a reply can be written. -/
def Written (resp : Message) : Prop :=
  Message.Writes resp.answers ∧ Message.Writes resp.authority ∧ Message.Writes resp.plainAdditional

/-- No padding has been added yet. -/
def Unpadded (resp : Message) : Prop :=
  ∀ e, resp.edns = some e → ∀ option ∈ e.options, option.1 ≠ EdnsOption.padding

theorem optionsSize_append (first second : List (UInt16 × Octets)) :
    optionsSize (first ++ second) = optionsSize first + optionsSize second := by
  rw [optionsSize, List.map_append, List.sum_append]
  rfl

theorem optionsSize_filter_le (keep : UInt16 × Octets → Bool) (options : List (UInt16 × Octets)) :
    optionsSize (options.filter keep) ≤ optionsSize options := by
  induction options with
  | nil => exact Nat.le_refl _
  | cons option rest ih =>
      have whole : optionsSize (option :: rest) = 4 + option.2.length + optionsSize rest := rfl
      rw [List.filter_cons]
      split
      · change 4 + option.2.length + optionsSize (rest.filter keep) ≤ _
        omega
      · omega

theorem removeOption_absent {e : Edns} {code : UInt16} (absent : ∀ option ∈ e.options, option.1 ≠ code) :
    e.removeOption code = e := by
  have all : (e.options.filter fun option => option.1 != code) = e.options :=
    List.filter_eq_self.mpr fun option held => bne_iff_ne.mpr (absent option held)
  rw [Edns.removeOption, all]

theorem optionsSize_setOption {e : Edns} {code : UInt16} (data : Octets)
    (absent : ∀ option ∈ e.options, option.1 ≠ code) :
    optionsSize (e.setOption code data).options = optionsSize e.options + (4 + data.length) := by
  rw [Edns.setOption, removeOption_absent absent, optionsSize_append]
  rfl

theorem plainAdditional_edns (resp : Message) {e other : Edns} (opt : resp.edns = some e) :
    ({ resp with edns := some other } : Message).plainAdditional = resp.plainAdditional := by
  rw [Message.plainAdditional, Message.plainAdditional, opt]
  rfl

/-- Padding fills the last block. -/
theorem size_setPadding {resp : Message} {e : Edns} (opt : resp.edns = some e)
    (unpadded : Unpadded resp) :
    ({ resp with edns := some (e.setPadding padBlock resp.size) } : Message).size =
      roundUp (resp.size + 4) padBlock := by
  have clear := removeOption_absent (unpadded e opt)
  have size : resp.size = (Extent.sections resp.questions resp.answers resp.authority
      resp.plainAdditional).pos + (11 + optionsSize e.options) := by
    rw [Message.size, opt]
  have padding := optionsSize_setOption (List.replicate
    ((padBlock - (resp.size + 4) % padBlock) % padBlock) (0 : UInt8)) (unpadded e opt)
  rw [List.length_replicate] at padding
  rw [Message.size, plainAdditional_edns resp opt, roundUp]
  change (Extent.sections resp.questions resp.answers resp.authority resp.plainAdditional).pos +
    (11 + optionsSize ((e.removeOption EdnsOption.padding).setOption EdnsOption.padding
    (List.replicate ((padBlock - (resp.size + 4) % padBlock) % padBlock) 0)).options) = _
  rw [clear, padding]
  omega

theorem written_iff (resp : Message) : (∃ wire, resp.toWire = .ok wire) ↔ Written resp :=
  resp.toWire_iff.1

theorem encoded_iff (proto : Proto) {query resp : Message}
    (mirrored : resp.edns.isSome = query.edns.isSome) (unpadded : Unpadded resp) :
    ((∃ out, encoded proto query resp = .ok out) ↔ Written resp) ∧
      ∀ out, encoded proto query resp = .ok out → out.length = sentSize proto query resp := by
  rw [encoded, sentSize]
  split
  · next pads =>
      rw [pads.2] at mirrored
      obtain ⟨e, opt⟩ := Option.isSome_iff_exists.mp mirrored
      have default : resp.edns.getD { udpSize := 1232 } = e := by
        rw [opt]
        rfl
      have same : ({ resp with edns := some e } : Message) = resp := by rw [← opt]
      have padding {base : Octets} (written : resp.toWire = .ok base) :
          applyPadding resp = .ok { resp with edns := some (e.setPadding padBlock resp.size) } := by
        rw [applyPadding, default, same, written, ← resp.toWire_iff.2 base written]
        rfl
      have alike : Written { resp with edns := some (e.setPadding padBlock resp.size) } ↔
          Written resp := by
        rw [Written, Written, plainAdditional_edns resp opt]
      constructor
      · constructor
        · rintro ⟨out, done⟩
          cases base : resp.toWire with
          | error failed =>
              rw [applyPadding, default, same, base] at done
              cases done
          | ok wire => exact (written_iff resp).mp ⟨wire, base⟩
        · intro good
          obtain ⟨base, written⟩ := (written_iff resp).mpr good
          rw [padding written]
          exact (written_iff _).mpr (alike.mpr good)
      · intro out done
        cases base : resp.toWire with
        | error failed =>
            rw [applyPadding, default, same, base] at done
            cases done
        | ok wire =>
            rw [padding base] at done
            rw [(Message.toWire_iff _).2 out done, size_setPadding opt unpadded]
  · exact resp.toWire_iff

/-! ### What is written to the stream -/

/-- The pipeline's reply, encoded and behind its length. -/
def Delivered (resolve : Resolve) (proto : Proto) (query : Message) (data : Octets) : Prop :=
  ∃ resp out, resolve query = .ok resp ∧ encoded proto query resp = .ok out ∧
    out.length < 2 ^ 16 ∧ answer resolve proto data = octets16 (UInt16.ofNat out.length) ++ out

theorem headerLen_le_toWire {m : Message} {wire : Octets} (written : m.toWire = .ok wire) :
    headerLen ≤ wire.length := by
  rw [m.toWire_iff.2 wire written, Message.size]
  exact (Extent.headerLen_le_sections _ _ _ _).trans (Nat.le_add_right _ _)

/-- Both responders send the one encoded reply. -/
theorem respond_eq {resolve : Resolve} {proto : Proto} {query resp : Message} {data : Octets}
    (stream : proto = .tcp ∨ proto = .tls) (asked : notAQuery data = false)
    (parsed : Message.parse data = .ok query) (resolved : resolve query = .ok resp) :
    respond resolve proto data = match encoded proto query resp with
      | .error e => .error (.emit e)
      | .ok out => .ok [out] := by
  rcases stream with rfl | rfl
  · have plain : ¬ Pads .tcp query := fun pads => absurd pads.1 (by decide)
    have processed : processQuery resolve data = (liftEmit resp.toWire).map some := by
      rw [processQuery, asked, parsed]
      simp only [Bool.false_eq_true, ↓reduceIte, resolved]
      change (liftEmit resp.toWire >>= fun out => .ok (some out)) = _
      cases resp.toWire <;> rfl
    rw [encoded, if_neg plain, respond, asked, processed]
    cases written : resp.toWire with
    | error e => rfl
    | ok out =>
        have long := headerLen_le_toWire written
        have some : out ≠ [] := by
          rintro rfl
          cases long
        have kept : [out].filter (fun out => decide (out ≠ [])) = [out] :=
          List.filter_eq_self.mpr fun other held => by
            rw [List.mem_singleton.mp held]
            exact decide_eq_true some
        exact congrArg Except.ok kept
  · have resolves : resolveWire resolve .tls data =
        if Pads .tls query then (liftEmit (applyPadding resp)).map some else .ok (some resp) := by
      rw [resolveWire, asked, parsed]
      simp only [Bool.false_eq_true, ↓reduceIte, resolved]
      change (if Pads .tls query then _ else _) = _
      split
      · cases applyPadding resp <;> rfl
      · rfl
    rw [respond, resolves, encoded]
    split
    · cases applyPadding resp with
      | error e => rfl
      | ok resp =>
          change (liftEmit resp.toWire >>= fun out => _) = match resp.toWire with
            | .error e => _
            | .ok out => _
          cases resp.toWire <;> rfl
    · change (liftEmit resp.toWire >>= fun out => _) = _
      cases resp.toWire <;> rfl

theorem delivered_iff {resolve : Resolve} {proto : Proto} {query : Message} {data : Octets}
    (stream : proto = .tcp ∨ proto = .tls) (asked : notAQuery data = false)
    (parsed : Message.parse data = .ok query) : Delivered resolve proto query data ↔
      ∃ resp out, resolve query = .ok resp ∧ encoded proto query resp = .ok out ∧
        out.length ≤ 65535 := by
  constructor
  · rintro ⟨resp, out, resolved, done, short, -⟩
    exact ⟨resp, out, resolved, done, Nat.le_of_lt_succ short⟩
  · rintro ⟨resp, out, resolved, done, short⟩
    refine ⟨resp, out, resolved, done, Nat.lt_succ_of_le short, ?_⟩
    have framed : frame out = some (octets16 (UInt16.ofNat out.length) ++ out) :=
      if_pos (Nat.lt_succ_of_le short)
    rw [answer, respond_eq stream asked parsed resolved, done]
    simp only [List.mapM_cons, List.mapM_nil, framed, Option.bind_eq_bind, Option.bind_some,
      Option.pure_def, Option.map_some, Option.getD_some, List.flatten_cons, List.flatten_nil,
      List.append_nil]

/-! ### The pipeline's replies -/

/-- `pipeline.resolve`, with what the stages leave for each query. -/
def resolver (lib : Library) (s : Settings) (clientIp : Text) (left : Message → Option Outcome) :
    Resolve := fun query => (resolveCtx lib s query clientIp (left query)).map Prod.fst

/-- What a message that is handed to finalization has: the only OPT is its EDNS field,
without what is set for each client. -/
structure Clean (m : Message) : Prop where
  plain : ∀ rr ∈ m.additional, rr.rtype ≠ RRType.opt
  options : ∀ e, m.edns = some e → ∀ option ∈ e.options,
    option.1 ≠ EdnsOption.cookie ∧ option.1 ≠ EdnsOption.padding

/-- The octets of the option for the client's cookie. -/
def cookieSize (lib : Library) (s : Settings) (query : Message) (clientIp : Text) : Nat :=
  match s.cookies, query.edns.bind fun asked => asked.getOption EdnsOption.cookie with
  | some jar, some cc => if 8 ≤ cc.length then 4 + (jar.makeResponse lib cc clientIp).length else 0
  | _, _ => 0

/-- The octets of the OPT around the options that are there. -/
def optSize (lib : Library) (s : Settings) (query : Message) (clientIp : Text) (left : Message) : Nat :=
  if query.edns.isSome then
    11 + ((left.edns.map fun e => optionsSize e.options).getD 0 + cookieSize lib s query clientIp)
  else 0

/-- The octets of the reply made of a message: its records behind the query's questions, an
OPT for a query with one, and padding for an encrypted client. -/
def streamSize (lib : Library) (s : Settings) (query : Message) (clientIp : Text) (proto : Proto)
    (left : Message) : Nat :=
  let plain := (Extent.sections query.questions left.answers left.authority left.additional).pos +
    optSize lib s query clientIp left
  if Pads proto query then roundUp (plain + 4) padBlock else plain

section Finalized

variable {lib : Library} {s : Settings} {query : Message} {clientIp : Text}

theorem optionsSize_setCookie (lib : Library) (s : Settings) (query : Message) (clientIp : Text) {e : Edns}
    (absent : ∀ option ∈ e.options, option.1 ≠ EdnsOption.cookie) :
    optionsSize (setCookie lib s query clientIp e).options =
      optionsSize e.options + cookieSize lib s query clientIp := by
  rw [setCookie, cookieSize, removeOption_absent absent]
  cases s.cookies with
  | none => rfl
  | some jar =>
      cases query.edns.bind fun asked => asked.getOption EdnsOption.cookie with
      | none => rfl
      | some cc =>
          dsimp only
          split
          · exact optionsSize_setOption _ absent
          · rfl

/-- The message that finalization starts from. -/
def start (query : Message) (outcome : Outcome) : Message :=
  outcome.response.getD (query.reply Rcode.servfail)

theorem mirrorEdns_options {left : Message} {e : Edns} (mirrored : mirrorEdns s query left = some e) :
    e.options = (left.edns.map Edns.options).getD [] := by
  rw [mirrorEdns] at mirrored
  split at mirrored
  · next asked none =>
      cases mirrored
      rw [none]
      rfl
  · next asked old held =>
      cases mirrored
      rw [held]
      rfl
  · cases mirrored

theorem edns_finalized {outcome : Outcome} {e : Edns}
    (opt : (finalized lib s query clientIp outcome).edns = some e) :
    ∃ mirrored, mirrorEdns s query (start query outcome) = some mirrored ∧
      e = setExtendedError s outcome (setCookie lib s query clientIp mirrored) := by
  obtain ⟨mirrored, some, rfl⟩ := Option.map_eq_some_iff.mp opt
  exact ⟨mirrored, some, rfl⟩

theorem Clean.mirrored {left : Message} (clean : Clean left) {e : Edns}
    (mirrored : mirrorEdns s query left = some e) : ∀ option ∈ e.options,
      option.1 ≠ EdnsOption.cookie ∧ option.1 ≠ EdnsOption.padding := by
  intro option held
  rw [mirrorEdns_options mirrored] at held
  cases opt : left.edns with
  | none =>
      rw [opt] at held
      cases held
  | some old =>
      rw [opt] at held
      exact clean.options old opt option held

theorem Clean.unpadded {outcome : Outcome} (clean : Clean (start query outcome)) (lib : Library)
    (s : Settings) (clientIp : Text) :
    Unpadded (finalized lib s query clientIp outcome) := by
  intro e opt option held padding
  obtain ⟨mirrored, some, rfl⟩ := edns_finalized opt
  rcases mem_setExtendedError held with held | code
  · rw [setCookie] at held
    have old (held : option ∈ (mirrored.removeOption EdnsOption.cookie).options) : False :=
      (clean.mirrored some option (Edns.mem_removeOption.mp held).1).2 padding
    split at held
    · split at held
      · rcases Edns.mem_setOption held with ⟨held, -⟩ | rfl
        · exact old held
        · exact absurd (show EdnsOption.cookie = EdnsOption.padding from padding) (by decide)
      · exact old held
    · exact old held
  · rw [padding] at code
    exact absurd code (by decide)

theorem plainAdditional_of_clean {m : Message} (plain : ∀ rr ∈ m.additional, rr.rtype ≠ RRType.opt) :
    m.plainAdditional = m.additional := by
  rw [Message.plainAdditional]
  split
  · exact List.filter_eq_self.mpr fun rr held => decide_eq_true (plain rr held)
  · rfl

theorem Clean.written {outcome : Outcome} (clean : Clean (start query outcome)) :
    Written (finalized lib s query clientIp outcome) ↔ Written (start query outcome) := by
  have same : (finalized lib s query clientIp outcome).additional = (start query outcome).additional :=
    rfl
  rw [Written, Written, plainAdditional_of_clean clean.plain,
    plainAdditional_of_clean (same ▸ clean.plain), same]
  exact Iff.rfl

/-- The size of a finalized message, up to its options. -/
theorem Clean.size {outcome : Outcome} (clean : Clean (start query outcome)) :
    (finalized lib s query clientIp outcome).size = (Extent.sections query.questions
      (start query outcome).answers (start query outcome).authority
      (start query outcome).additional).pos + match (finalized lib s query clientIp outcome).edns with
        | none => 0
        | some e => 11 + optionsSize e.options := by
  have plain := plainAdditional_of_clean
    (show ∀ rr ∈ (finalized lib s query clientIp outcome).additional, rr.rtype ≠ RRType.opt from
      clean.plain)
  rw [Message.size, plain]
  rfl

/-- A reply that is no block answer and not out of the cache has no extended error. -/
theorem sentSize_finalized {outcome : Outcome} {proto : Proto} (clean : Clean (start query outcome))
    (blocked : outcome.action ≠ .blocked) (cached : outcome.action ≠ .cached) :
    sentSize proto query (finalized lib s query clientIp outcome) =
      streamSize lib s query clientIp proto (start query outcome) := by
  have quiet (e : Edns) : setExtendedError s outcome e = e := by
    rw [setExtendedError]
    simp only [blocked, and_false, ↓reduceIte, cached, false_and]
  have size : (finalized lib s query clientIp outcome).size = (Extent.sections query.questions
      (start query outcome).answers (start query outcome).authority
      (start query outcome).additional).pos +
        optSize lib s query clientIp (start query outcome) := by
    rw [clean.size, optSize]
    have opt := (finalized_answers lib s query clientIp outcome).opt
    cases edns : (finalized lib s query clientIp outcome).edns with
    | none =>
        rw [edns] at opt
        rw [← opt]
        rfl
    | some e =>
        rw [edns] at opt
        obtain ⟨mirrored, some, rfl⟩ := edns_finalized edns
        have options := optionsSize_setCookie lib s query clientIp fun option held =>
          (clean.mirrored some option held).1
        rw [← opt, quiet]
        simp only [Option.isSome_some, ↓reduceIte, options, mirrorEdns_options some]
        cases (start query outcome).edns <;> rfl
  rw [sentSize, streamSize, size]

/-- For whatever the stages leave, the stream gets a reply exactly when the log can render it,
its data can be written and it is short enough. -/
theorem delivered_iff_start {proto : Proto} {data : Octets} {left : Message → Option Outcome}
    {outcome : Outcome} (stream : proto = .tcp ∨ proto = .tls) (asked : notAQuery data = false)
    (parsed : Message.parse data = .ok query)
    (reached : (left query).getD ⟨some (query.reply Rcode.servfail), .failed, [], []⟩ = outcome)
    (clean : Clean (start query outcome)) :
    Delivered (resolver lib s clientIp left) proto query data ↔
      Renders s (start query outcome) ∧ Written (start query outcome) ∧
        sentSize proto query (finalized lib s query clientIp outcome) ≤ 65535 := by
  have resolves (resp : Message) : resolver lib s clientIp left query = .ok resp ↔
      resp = finalized lib s query clientIp outcome ∧ Renders s resp := by
    rw [← finalize_ok_iff, resolver, resolveCtx, reached]
    cases finalize lib s query clientIp outcome with
    | error e => exact ⟨nofun, nofun⟩
    | ok done =>
        constructor
        · intro same
          cases same
          exact ⟨done.2, rfl⟩
        · rintro ⟨entry, same⟩
          cases same
          rfl
  obtain ⟨encodes, size⟩ := encoded_iff proto
    (finalized_answers lib s query clientIp outcome).opt (clean.unpadded lib s clientIp)
  apply (delivered_iff stream asked parsed).trans
  constructor
  · rintro ⟨resp, out, resolved, done, short⟩
    obtain ⟨rfl, renders⟩ := (resolves resp).mp resolved
    refine ⟨(Renders.congr rfl).mp renders, clean.written.mp (encodes.mp ⟨out, done⟩), ?_⟩
    rwa [← size out done]
  · rintro ⟨renders, written, short⟩
    obtain ⟨out, done⟩ := encodes.mpr (clean.written.mpr written)
    refine ⟨_, out, (resolves _).mpr ⟨rfl, (Renders.congr rfl).mpr renders⟩, done, ?_⟩
    rwa [size out done]

end Finalized

/-! ### Replies that are not forwarded -/

section Bounds

open Rdata (LegalName)

variable {lib : Library} {s : Settings} {query : Message} {clientIp : Text} {q : Question}

theorem roundUp_lt (n : Nat) {block : Nat} (positive : 0 < block) : roundUp n block < n + block :=
  Nat.add_lt_add_left (Nat.mod_lt _ positive) n

theorem sentSize_lt (proto : Proto) (query resp : Message) :
    sentSize proto query resp < resp.size + 4 + padBlock := by
  rw [sentSize]
  split
  · exact roundUp_lt _ (by decide)
  · exact Nat.lt_add_of_pos_right (show 0 < 4 + padBlock by decide)

theorem cookieSize_le (lib : Library) (s : Settings) (query : Message) (clientIp : Text) :
    cookieSize lib s query clientIp ≤ 20 := by
  rw [cookieSize]
  split
  · split
    · rw [CookieJar.makeResponse, List.length_append, List.length_take, List.length_take]
      omega
    · exact Nat.zero_le _
  · exact Nat.zero_le _

theorem clean_of_options {m : Message} (plain : m.additional = [])
    (options : ∀ e, m.edns = some e → e.options = []) : Clean m := by
  constructor
  · intro rr held
    rw [plain] at held
    cases held
  · intro e opt option held
    rw [options e opt] at held
    cases held

theorem written_of_answers {m : Message} (authority : m.authority = [])
    (additional : m.additional = []) : Written m ↔ Message.Writes m.answers := by
  have plain : m.plainAdditional = [] := by
    rw [Message.plainAdditional, additional]
    split <;> rfl
  have nothing : Message.Writes [] := fun rr held => by cases held
  rw [Written, authority, plain]
  exact ⟨And.left, fun answers => ⟨answers, nothing, nothing⟩⟩

theorem clean_reply (query : Message) (rc : Nat) : Clean (query.reply rc) :=
  clean_of_options (query.reply_plain rc).2.2 fun _ => Message.reply_options

theorem written_reply (query : Message) (rc : Nat) : Written (query.reply rc) := by
  obtain ⟨answers, authority, additional⟩ := query.reply_plain rc
  apply (written_of_answers authority additional).mpr
  rw [answers]
  intro rr held
  cases held

/-- A reply without records. -/
theorem streamSize_reply (lib : Library) (s : Settings) (query : Message) (clientIp : Text)
    (proto : Proto) (rc : Nat) : streamSize lib s query clientIp proto (query.reply rc) =
      streamSize lib s query clientIp proto {} := by
  obtain ⟨answers, authority, additional⟩ := query.reply_plain rc
  have options : ((query.reply rc).edns.map fun e => optionsSize e.options).getD 0 = 0 := by
    cases opt : (query.reply rc).edns with
    | none => rfl
    | some e =>
        change optionsSize e.options = 0
        rw [Message.reply_options opt]
        rfl
  rw [streamSize, streamSize, optSize, optSize, answers, authority, additional, options]
  rfl

theorem question_pos_le (legal : LegalName q.name) :
    (Extent.question ⟨headerLen, []⟩ q).pos ≤ 271 := by
  have bound := (Extent.question_bounds ⟨headerLen, []⟩ q).2
  have name : q.name.wireLen ≤ 255 := legal
  change _ ≤ 12 + q.name.wireLen + 4 at bound
  omega

/-- A reply without records to one question is short. -/
theorem streamSize_single (single : query.questions = [q]) (legal : LegalName q.name)
    (proto : Proto) : streamSize lib s query clientIp proto {} ≤ 65535 := by
  have question := question_pos_le legal
  have cookie := cookieSize_le lib s query clientIp
  have opt : optSize lib s query clientIp {} ≤ 31 := by
    rw [optSize]
    split
    · change 11 + (0 + _) ≤ 31
      omega
    · exact Nat.zero_le _
  have sections : (Extent.sections query.questions [] [] []).pos =
      (Extent.question ⟨headerLen, []⟩ q).pos := by
    rw [single]
    rfl
  rw [streamSize]
  dsimp only
  rw [sections]
  split
  · have rounded := roundUp_lt ((Extent.question ⟨headerLen, []⟩ q).pos +
      optSize lib s query clientIp {} + 4) (show 0 < padBlock by decide)
    have block : padBlock = 468 := rfl
    omega
  · omega

/-- A block answer holds one address at most. -/
theorem buildBlock_answers (s : Settings) (asked : query.question = some q) :
    (buildBlock s query).answers = [] ∨ ∃ rtype address, (buildBlock s query).answers =
      [⟨q.name, rtype, RRClass.in, blockTtl, .a address⟩] ∨ (buildBlock s query).answers =
      [⟨q.name, rtype, RRClass.in, blockTtl, .aaaa address⟩] := by
  have plain := (query.reply_plain Rcode.noerror).1
  have set (rc : Nat) : ((query.reply Rcode.noerror).setRcode rc).answers = [] := by
    rw [Message.setRcode]
    split <;> exact plain
  rw [buildBlock, asked]
  dsimp only
  split
  · exact .inl (set _)
  · exact .inl (set _)
  · exact .inl plain
  · split
    · exact .inr ⟨_, _, .inl rfl⟩
    · split
      · exact .inr ⟨_, _, .inr rfl⟩
      · exact .inl plain

theorem buildBlock_rest (s : Settings) (query : Message) : (buildBlock s query).authority = [] ∧
    (buildBlock s query).additional = [] ∧
      ∀ e, (buildBlock s query).edns = some e → e.options = [] := by
  obtain ⟨-, authority, additional⟩ := query.reply_plain Rcode.noerror
  have plain : ∀ e, (query.reply Rcode.noerror).edns = some e → e.options = [] :=
    fun e => Message.reply_options
  have set (rc : Nat) : ((query.reply Rcode.noerror).setRcode rc).authority = [] ∧
      ((query.reply Rcode.noerror).setRcode rc).additional = [] ∧
        ∀ e, ((query.reply Rcode.noerror).setRcode rc).edns = some e → e.options = [] := by
    refine ⟨?_, ?_, fun e opt => ?_⟩
    · rw [Message.setRcode]
      split <;> exact authority
    · rw [Message.setRcode]
      split <;> exact additional
    · rw [Message.setRcode_options opt]
      cases old : (query.reply Rcode.noerror).edns with
      | none => rfl
      | some e => exact plain e old
  rw [buildBlock]
  split
  · exact set _
  · split
    · exact set _
    · exact set _
    · exact ⟨authority, additional, plain⟩
    · dsimp only
      split
      · exact ⟨authority, additional, plain⟩
      · split
        · exact ⟨authority, additional, plain⟩
        · exact ⟨authority, additional, plain⟩

theorem clean_buildBlock (s : Settings) (query : Message) : Clean (buildBlock s query) :=
  clean_of_options (buildBlock_rest s query).2.1 (buildBlock_rest s query).2.2

theorem length_utf8_le (t : Text) : (utf8 t).length ≤ 4 * t.length := by
  rw [utf8]
  induction t with
  | nil => exact Nat.le_refl _
  | cons c rest ih =>
      have char : (String.utf8EncodeChar c).length ≤ 4 := by
        rw [String.length_utf8EncodeChar]
        exact c.utf8Size_le_four
      rw [List.flatMap_cons, List.length_append, List.length_cons]
      omega

theorem optionsSize_setOption_le (e : Edns) (code : UInt16) (data : Octets) :
    optionsSize (e.setOption code data).options ≤ optionsSize e.options + (4 + data.length) := by
  rw [Edns.setOption, optionsSize_append]
  exact Nat.add_le_add_right (optionsSize_filter_le _ _) _

/-- A block answer quotes two hundred characters at most. -/
theorem optionsSize_blocked (s : Settings) {outcome : Outcome} (blocked : outcome.action = .blocked) (e : Edns) :
    optionsSize (setExtendedError s outcome e).options ≤ optionsSize e.options + 806 := by
  have uncached : outcome.action ≠ .cached := by
    rw [blocked]
    decide
  rw [setExtendedError]
  simp only [uncached, false_and, ↓reduceIte]
  split
  · apply (optionsSize_setOption_le _ _ _).trans
    have text := length_utf8_le ((if outcome.rule ≠ [] then outcome.rule
      else if outcome.reason ≠ [] then outcome.reason else "blocked".toList).take 200)
    rw [List.length_take] at text
    rw [List.length_append, length_octets16]
    omega
  · exact Nat.le_add_right _ _

theorem address_le {address : Text} {rr : RR} (data : rr.rdata = .a address ∨ rr.rdata = .aaaa address)
    (emits : ∀ w, rr.rdata.emit w = .ok (w.raw rr.rdata.octets)) : rr.bodySize ≤ 26 := by
  have length {octets : Octets} (emitted : rr.rdata.emit .empty = .ok (Writer.empty.raw octets)) :
      rr.rdata.octets.length = octets.length := by
    rw [emits, Except.ok.injEq] at emitted
    exact congrArg (fun w => w.buf.length) emitted
  rw [RR.bodySize]
  have emitted := emits .empty
  rcases data with same | same
  · rw [same, Rdata.emit] at emitted
    split at emitted
    · next octets read =>
        have four := length_inetPton4 read
        rw [length (by rw [same, Rdata.emit, read])]
        omega
    · cases emitted
  · rw [same, Rdata.emit] at emitted
    split at emitted
    · next octets read =>
        have sixteen := length_inetPton6 read
        rw [length (by rw [same, Rdata.emit, read])]
        omega
    · cases emitted

theorem sections_block_le (single : query.questions = [q]) (legal : LegalName q.name)
    (writes : Message.Writes (buildBlock s query).answers) :
    (Extent.sections query.questions (buildBlock s query).answers (buildBlock s query).authority
      (buildBlock s query).additional).pos ≤ 552 := by
  obtain ⟨authority, additional, -⟩ := buildBlock_rest s query
  have asked : query.question = some q := by
    rw [Message.question, single]
    rfl
  have question := question_pos_le legal
  have name : q.name.wireLen ≤ 255 := legal
  have one {rr : RR} (owner : rr.name = q.name) (short : rr.bodySize ≤ 26) :
      (Extent.record (Extent.question ⟨headerLen, []⟩ q) rr).pos ≤ 552 := by
    have bound := (Extent.record_bounds (Extent.question ⟨headerLen, []⟩ q) rr).2
    rw [owner] at bound
    omega
  rw [authority, additional, single]
  rcases buildBlock_answers s asked with answers | ⟨rtype, address, answers | answers⟩
  · rw [answers]
    exact question.trans (by decide)
  · rw [answers] at writes ⊢
    exact one rfl (address_le (.inl rfl) (writes _ List.mem_cons_self))
  · rw [answers] at writes ⊢
    exact one rfl (address_le (.inr rfl) (writes _ List.mem_cons_self))

theorem sentSize_block (single : query.questions = [q]) (legal : LegalName q.name)
    (writes : Message.Writes (buildBlock s query).answers) (proto : Proto) (b : Block) :
    sentSize proto query (finalized lib s query clientIp (blocked s query b)) ≤ 65535 := by
  have clean : Clean (start query (blocked s query b)) := clean_buildBlock s query
  have sections := sections_block_le single legal writes
  have cookie := cookieSize_le lib s query clientIp
  have size : (finalized lib s query clientIp (blocked s query b)).size ≤ 552 + (11 + 826) := by
    rw [clean.size]
    apply Nat.add_le_add sections
    cases edns : (finalized lib s query clientIp (blocked s query b)).edns with
    | none => exact Nat.zero_le _
    | some e =>
        obtain ⟨mirrored, some, rfl⟩ := edns_finalized edns
        have quoted := optionsSize_blocked s (show (blocked s query b).action = .blocked from rfl)
          (setCookie lib s query clientIp mirrored)
        have options := optionsSize_setCookie lib s query clientIp fun option held =>
          (clean.mirrored some option held).1
        have none : optionsSize mirrored.options = 0 := by
          rw [mirrorEdns_options some]
          change optionsSize (((buildBlock s query).edns.map Edns.options).getD []) = 0
          cases old : (buildBlock s query).edns with
          | none => rfl
          | some e =>
              change optionsSize e.options = 0
              rw [(buildBlock_rest s query).2.2 e old]
              rfl
        change 11 + optionsSize _ ≤ 11 + 826
        omega
  have sent := sentSize_lt proto query (finalized lib s query clientIp (blocked s query b))
  have block : padBlock = 468 := rfl
  omega

end Bounds

/-! ### The upstream's reply -/

/-- The data of all records can be written, and the OPT is not among them. -/
structure Sound (m : Message) : Prop where
  answers : Message.Writes m.answers
  authority : Message.Writes m.authority
  additional : Message.Writes m.additional
  plain : ∀ rr ∈ m.additional, rr.rtype ≠ RRType.opt

theorem Sound.written {m : Message} (sound : Sound m) : Written m := by
  rw [Written, plainAdditional_of_clean sound.plain]
  exact ⟨sound.answers, sound.authority, sound.additional⟩

theorem sound_of_parse {wire : Octets} {m : Message} (parsed : Message.parse wire = .ok m) :
    Sound m := by
  obtain ⟨writable, -⟩ := Message.parsed_of_parse parsed
  have emits {rr : RR} (held : rr ∈ m.records) : ∀ w, rr.rdata.emit w = .ok (w.raw rr.rdata.octets) :=
    (writable.records rr held).emit_eq
  exact ⟨fun rr held => emits (List.mem_append_left _ (List.mem_append_left _ held)),
    fun rr held => emits (List.mem_append_left _ (List.mem_append_right _ held)),
    fun rr held => emits (List.mem_append_right _ held), writable.plain⟩

theorem writes_filter {rrs : List RR} (writes : Message.Writes rrs) (p : RR → Bool) :
    Message.Writes (rrs.filter p) := fun rr held => writes rr (List.mem_filter.mp held).1

/-- The data of a service record can be written whatever its parameters are. -/
theorem writes_withParams {rrs : List RR} (writes : Message.Writes rrs) (change : Octets → Octets) :
    Message.Writes (rrs.map (withParams change)) := by
  have always {rd : Rdata} (emitted : ∀ e, rd.emit .empty ≠ .error e) :
      ∀ w, rd.emit w = .ok (w.raw rd.octets) := by
    rcases rd.emit_cases with emits | ⟨e, failed⟩
    · exact emits
    · exact absurd (failed .empty) (emitted e)
  intro rr held
  obtain ⟨old, listed, rfl⟩ := List.mem_map.mp held
  rw [withParams]
  split
  · split
    · exact always fun e failed => by
        rw [Rdata.emit] at failed
        cases failed
    · exact always fun e failed => by
        rw [Rdata.emit] at failed
        cases failed
    · exact writes old listed
  · exact writes old listed

theorem plain_withParams {rrs : List RR} (plain : ∀ rr ∈ rrs, rr.rtype ≠ RRType.opt)
    (change : Octets → Octets) : ∀ rr ∈ rrs.map (withParams change), rr.rtype ≠ RRType.opt := by
  intro rr held
  obtain ⟨old, listed, rfl⟩ := List.mem_map.mp held
  rw [(withParams_alike change old).1]
  exact plain old listed

theorem Sound.restoreCase {m : Message} (sound : Sound m) (name : Name) :
    Sound (restoreCase m name) := by
  refine ⟨fun rr held => ?_, sound.authority, sound.additional, sound.plain⟩
  obtain ⟨old, listed, rfl⟩ := List.mem_map.mp held
  split <;> exact sound.answers old listed

theorem Sound.sanitize {m : Message} (sound : Sound m) (name : Name) : Sound (sanitize m name) :=
  ⟨writes_filter sound.answers _, writes_filter sound.authority _, writes_filter sound.additional _,
    fun rr held => sound.plain rr (List.mem_filter.mp held).1⟩

theorem Sound.inspected {m : Message} (sound : Sound m) (s : Settings) (name : Name) :
    Sound (inspected s name m) := by
  have solicited : Sound (solicited s name m) := by
    apply Sound.sanitize
    split
    · exact sound.restoreCase name
    · exact sound
  rw [Engine.inspected]
  split
  · exact ⟨writes_withParams solicited.answers _, writes_withParams solicited.authority _,
      writes_withParams solicited.additional _, plain_withParams solicited.plain _⟩
  · exact solicited

theorem Sound.keep {m : Message} (sound : Sound m) (lib : Library) (s : Settings) (query : Message)
    (name : Name) : Sound (keep lib s query name m) := by
  rw [Engine.keep]
  split
  · rw [scrub]
    split
    · exact ⟨sound.answers, sound.authority, sound.additional, sound.plain⟩
    · exact ⟨writes_withParams (writes_filter sound.answers _) _, sound.authority, sound.additional,
        sound.plain⟩
  · exact ⟨sound.answers, sound.authority, sound.additional, sound.plain⟩

theorem clean_keep {m : Message} (sound : Sound m) (lib : Library) (s : Settings) (query : Message)
    (name : Name) : Clean (keep lib s query name m) := by
  refine ⟨(sound.keep lib s query name).plain, fun e opt option held => ?_⟩
  obtain ⟨old, -, rfl⟩ := Option.map_eq_some_iff.mp opt
  have other := of_decide_eq_true (List.mem_filter.mp held).2
  constructor
  · intro code
    exact other (code ▸ by decide)
  · intro code
    exact other (code ▸ by decide)

section Upstream

variable {lib : Library} {s : Settings} {query : Message} {clientIp : Text} {proto : Proto}
  {data : Octets}

/-- What a stream can carry: an echo of the questions, a block answer with an address that can
be read, or the records kept of the reply, where the log can render them. -/
def Sendable (lib : Library) (s : Settings) (query : Message) (clientIp : Text) (proto : Proto)
    (sent : Name) (inspect : Message → Option Block) (reply : Message) : Prop :=
  match headerError query, query.question with
  | none, some q => (s.use0x20 = true → verifyCase reply sent = true) →
      match inspect (inspected s q.name reply) with
      | some _ => Message.Writes (buildBlock s query).answers
      | none => Renders s (solicited s q.name reply) ∧ streamSize lib s query clientIp proto
          (keep lib s query q.name (inspected s q.name reply)) ≤ 65535
  | _, _ => streamSize lib s query clientIp proto {} ≤ 65535

theorem single_of_headerError {q : Question} (clear : headerError query = none)
    (asked : query.question = some q) : query.questions = [q] := by
  have few : ¬ 1 < query.questions.length := by
    intro many
    rw [headerError] at clear
    split at clear
    · cases clear
    · split at clear
      · cases clear
      · split at clear
        · cases clear
        · cases clear
  rw [Message.question] at asked
  match listed : query.questions with
  | [] =>
      rw [listed] at asked
      cases asked
  | [only] =>
      rw [listed] at asked
      cases asked
      rfl
  | first :: second :: rest =>
      rw [listed] at few
      exact absurd (Nat.succ_lt_succ (Nat.succ_pos rest.length)) few

variable (stream : proto = .tcp ∨ proto = .tls) (asked : notAQuery data = false)
  (parsed : Message.parse data = .ok query)

include stream asked parsed

/-- A reply that echoes the questions. -/
theorem delivered_echo {left : Message → Option Outcome} {rc : Nat} {action : Disposition}
    {reason : Text} (blocked : action ≠ .blocked) (cached : action ≠ .cached)
    (reached : left query = some ⟨some (query.reply rc), action, reason, []⟩) :
    Delivered (resolver lib s clientIp left) proto query data ↔
      streamSize lib s query clientIp proto {} ≤ 65535 := by
  have clean : Clean (start query ⟨some (query.reply rc), action, reason, []⟩) := clean_reply query rc
  have begun : (left query).getD ⟨some (query.reply Rcode.servfail), .failed, [], []⟩ =
      ⟨some (query.reply rc), action, reason, []⟩ := by
    rw [reached]
    rfl
  apply (delivered_iff_start stream asked parsed begun clean).trans
  rw [sentSize_finalized clean blocked cached]
  change Renders s (query.reply rc) ∧ Written (query.reply rc) ∧
    streamSize lib s query clientIp proto (query.reply rc) ≤ 65535 ↔ _
  rw [streamSize_reply]
  exact ⟨fun sent => sent.2.2, fun short => ⟨renders_reply s query rc, written_reply query rc, short⟩⟩

/-- A block answer is short, whatever it quotes. -/
theorem delivered_block {left : Message → Option Outcome} {q : Question} {b : Block}
    (single : query.questions = [q]) (legal : Rdata.LegalName q.name)
    (reached : left query = some (blocked s query b)) :
    Delivered (resolver lib s clientIp left) proto query data ↔
      Message.Writes (buildBlock s query).answers := by
  have clean : Clean (start query (blocked s query b)) := clean_buildBlock s query
  have begun : (left query).getD ⟨some (query.reply Rcode.servfail), .failed, [], []⟩ =
      blocked s query b := by
    rw [reached]
    rfl
  obtain ⟨authority, additional, -⟩ := buildBlock_rest s query
  have written : Written (start query (blocked s query b)) ↔
      Message.Writes (buildBlock s query).answers := written_of_answers authority additional
  apply (delivered_iff_start stream asked parsed begun clean).trans
  rw [written]
  constructor
  · intro sent
    exact sent.2.1
  · intro writes
    exact ⟨renders_buildBlock s query, writes, sentSize_block single legal writes proto b⟩

theorem delivered_forwarded {left : Message → Option Outcome} {kept : Message} (clean : Clean kept)
    (written : Written kept) (reached : left query = some ⟨some kept, .forwarded, [], []⟩) :
    Delivered (resolver lib s clientIp left) proto query data ↔
      Renders s kept ∧ streamSize lib s query clientIp proto kept ≤ 65535 := by
  have clean : Clean (start query ⟨some kept, .forwarded, [], []⟩) := clean
  have begun : (left query).getD ⟨some (query.reply Rcode.servfail), .failed, [], []⟩ =
      ⟨some kept, .forwarded, [], []⟩ := by
    rw [reached]
    rfl
  apply (delivered_iff_start stream asked parsed begun clean).trans
  rw [sentSize_finalized clean (show Disposition.forwarded ≠ .blocked by decide)
    (show Disposition.forwarded ≠ .cached by decide)]
  change Renders s kept ∧ Written kept ∧ streamSize lib s query clientIp proto kept ≤ 65535 ↔ _
  exact and_congr_right fun _ => and_iff_right written

/-- For every query and every upstream's reply, the client of a stream gets an answer exactly when
what is kept of the reply is short enough, and the log can render it. -/
theorem delivered_iff_sendable {told : Octets} {reply : Message} (lib : Library) (s : Settings)
    (clientIp : Text) (sent : Name) (inspect : Message → Option Block) (slow : Bool)
    (answered : Message.parse told = .ok reply) :
    Delivered (resolver lib s clientIp fun query => run query none fun q =>
        resolveUpstream s query none slow (fetch lib s query q.name sent inspect reply))
      proto query data ↔ Sendable lib s query clientIp proto sent inspect reply := by
  rw [Sendable]
  let left := fun query : Message => run query none fun q =>
    resolveUpstream s query none slow (fetch lib s query q.name sent inspect reply)
  change Delivered (resolver lib s clientIp left) proto query data ↔ _
  cases headed : headerError query with
  | some bad =>
      apply delivered_echo stream asked parsed (show Disposition.refused ≠ .blocked by decide)
        (by decide)
      change run query none _ = _
      rw [run, headed]
  | none =>
      cases question : query.question with
      | none =>
          apply delivered_echo stream asked parsed (show Disposition.refused ≠ .blocked by decide)
            (by decide)
          change run query none _ = _
          rw [run, headed, question]
      | some q =>
          have single := single_of_headerError headed question
          have legal : Rdata.LegalName q.name :=
            (Message.parsed_of_parse parsed).1.questions q (single ▸ List.mem_cons_self)
          have reached : left query = some (resolveUpstream s query none slow
              (fetch lib s query q.name sent inspect reply)) := by
            change run query none _ = _
            rw [run, headed, question]
            rfl
          rw [resolveUpstream_fresh, fetch_eq] at reached
          by_cases forged : s.use0x20 = true ∧ verifyCase reply sent = false
          · have short : streamSize lib s query clientIp proto {} ≤ 65535 :=
              streamSize_single single legal proto
            rw [if_pos forged] at reached
            dsimp only at reached
            have echoed : Delivered (resolver lib s clientIp left) proto query data := by
              split at reached
              · exact (delivered_echo stream asked parsed (show Disposition.failed ≠ .blocked by decide)
                  (by decide) reached).mpr short
              · exact (delivered_echo stream asked parsed (show Disposition.failed ≠ .blocked by decide)
                  (by decide) reached).mpr short
            refine ⟨fun _ verified => ?_, fun _ => echoed⟩
            rw [verified forged.1] at forged
            exact absurd forged.2 (by decide)
          · have verified : s.use0x20 = true → verifyCase reply sent = true := by
              intro on
              by_contra missed
              exact forged ⟨on, Bool.eq_false_of_not_eq_true missed⟩
            rw [if_neg forged] at reached
            apply Iff.trans _ (forall_prop_of_true verified).symm
            cases verdict : inspect (inspected s q.name reply) with
            | some b =>
                rw [verdict] at reached
                exact delivered_block stream asked parsed single legal reached
            | none =>
                rw [verdict] at reached
                have sound := (sound_of_parse answered).inspected s q.name
                have clean := clean_keep sound lib s query q.name
                have written := (sound.keep lib s query q.name).written
                rw [← (renders_keep lib s query q.name _).trans (renders_inspected s q.name reply)]
                exact delivered_forwarded stream asked parsed clean written reached

end Upstream

/-! ### A reply as long as a stream allows -/

section Long

open Rdata (LegalName InRange)

def longQuestion : Question := ⟨Name.root, 0xFF00, RRClass.in⟩

/-- A reply without an OPT. -/
def longReply (data : Octets) : Message where
  id := 1
  flags := 0x8180
  questions := [longQuestion]
  answers := [⟨Name.root, 0xFF00, RRClass.in, 60, .unknown 0xFF00 data⟩]

/-- A query with an OPT. -/
def longQuery : Octets :=
  [0, 1, 1, 0, 0, 1, 0, 0, 0, 0, 0, 1, 0, 0xFF, 0, 0, 1, 0, 0, 41, 4, 0xD0, 0, 0, 0, 0, 0, 0]

def longAsked : Message where
  id := 1
  flags := 0x0100
  questions := [longQuestion]
  edns := some {}

def quiet : Settings where
  ednsUdpSize := 1232
  blockMode := .zeroIp
  blockIpv4 := []
  blockIpv6 := []
  ede := false
  cookies := none
  log := .off
  rebinding := false
  localSuffixes := []
  use0x20 := false
  stripEch := false

theorem size_longReply (data : Octets) : (longReply data).size = 28 + data.length := by
  have octets : (Rdata.unknown 0xFF00 data).octets = data := octets_unknown 0xFF00 data
  change 18 + (10 + (Rdata.unknown 0xFF00 data).octets.length) + 0 = _
  rw [octets]
  omega

theorem wellFormed_longReply {data : Octets} (short : data.length ≤ 65535) :
    (longReply data).WellFormed := by
  have octets : (Rdata.unknown 0xFF00 data).octets = data := octets_unknown 0xFF00 data
  have only {rr : RR} (held : rr ∈ (longReply data).records) :
      rr = ⟨Name.root, 0xFF00, RRClass.in, 60, .unknown 0xFF00 data⟩ := List.mem_singleton.mp held
  refine ⟨fun q held => ?_, fun rr held => ?_, fun rr held => ?_, fun rr held => ?_, fun rr held => ?_,
    fun rr held => (by cases held), ?_, fun e opt => (by cases opt)⟩
  · rw [List.mem_singleton.mp held]
    decide
  · rw [only held]
    exact (by decide : LegalName Name.root)
  · rw [only held]
    exact (by decide : InRange 32 60)
  · rw [only held]
    exact .inr ⟨⟨data, rfl⟩, (by decide : Rdata.registry.lookup 0xFF00 = none)⟩
  · rw [only held, octets]
    exact short
  · exact (by decide : 1 ≤ 65535 ∧ 1 ≤ 65535 ∧ 0 ≤ 65535 ∧ 0 + 0 ≤ 65535)

/-- Nothing in it has a letter case. -/
theorem eq_longReply {m : Message} {data : Octets} (same : m.fold = (longReply data).fold) :
    m = longReply data := by
  have root {name : Name} (same : name.canonicalize = Name.root.canonicalize) : name = Name.root := by
    have none : name.labels.map Label.lower = [] := congrArg Name.labels same
    exact congrArg Name.mk (List.map_eq_nil_iff.mp none)
  obtain ⟨id, flags, questions, answers, authority, additional, edns⟩ := m
  simp only [Message.fold, longReply, List.map_cons, List.map_nil, Message.mk.injEq,
    List.map_eq_nil_iff] at same
  obtain ⟨rfl, rfl, questions, answers, rfl, rfl, rfl⟩ := same
  obtain ⟨⟨name, rtype, rclass⟩, rfl, asked⟩ := List.map_eq_singleton_iff.mp questions
  obtain ⟨⟨owner, type, class_, ttl, rd⟩, rfl, told⟩ := List.map_eq_singleton_iff.mp answers
  simp only [Question.fold, longQuestion, Question.mk.injEq] at asked
  simp only [RR.fold, RR.mk.injEq] at told
  obtain ⟨asked, rfl, rfl⟩ := asked
  obtain ⟨told, rfl, rfl, rfl, raw⟩ := told
  rw [root asked, root told, eq_unknown_of_fold raw]
  rfl

theorem keep_longReply (lib : Library) (data : Octets) :
    keep lib quiet longAsked Name.root (inspected quiet Name.root (longReply data)) = longReply data :=
  rfl

/-- With one octet of data, the reply reaches the client. -/
theorem short_delivered : Delivered (resolver ⟨⟨fun _ => [], fun _ => false⟩, fun _ _ => []⟩ quiet []
    fun query => run query none fun q => resolveUpstream quiet query none false
      (fetch ⟨⟨fun _ => [], fun _ => false⟩, fun _ _ => []⟩ quiet query q.name q.name (fun _ => none)
        (longReply [7]))) .tcp longAsked longQuery := by
  have read : Message.parse [0, 1, 0x81, 0x80, 0, 1, 0, 1, 0, 0, 0, 0, 0, 0xFF, 0, 0, 1,
      0, 0xFF, 0, 0, 1, 0, 0, 0, 60, 0, 1, 7] = .ok (longReply [7]) := by decide +kernel
  apply (delivered_iff_sendable (.inl rfl) (by decide) (by decide +kernel) _ quiet [] _ _ false
    read).mpr
  intro _
  exact ⟨nofun, by decide +kernel⟩

/-- The OPT that the query asks for does not fit beside the record. -/
theorem long_undelivered : ¬ ∀ (lib : Library) (s : Settings) (asked told : Octets)
    (query reply : Message) (clientIp : Text) (proto : Proto), proto = .tcp ∨ proto = .tls →
    notAQuery asked = false → told.length ≤ 65535 → Message.parse asked = .ok query →
    Message.parse told = .ok reply → Delivered (resolver lib s clientIp fun query =>
        run query none fun q => resolveUpstream s query none false
          (fetch lib s query q.name q.name (fun _ => none) reply))
      proto query asked := by
  intro claim
  let lib : Library := ⟨⟨fun _ => [], fun _ => false⟩, fun _ _ => []⟩
  obtain ⟨data, long⟩ : ∃ data : Octets, data.length = 65507 :=
    ⟨List.replicate 65507 0, List.length_replicate⟩
  obtain ⟨told, written, back, read, same⟩ :=
    Message.roundTrips_of_wellFormed (wellFormed_longReply (show data.length ≤ 65535 by omega)) true
  cases eq_longReply same
  have size := (Message.toWire_iff _).2 told written
  rw [size_longReply] at size
  have parsed : Message.parse longQuery = .ok longAsked := by decide +kernel
  have asked : notAQuery longQuery = false := by decide
  have sent := claim lib quiet longQuery told longAsked (longReply data) [] .tcp (.inl rfl) asked
    (by omega) parsed read
  have sound := (sound_of_parse read).inspected quiet Name.root
  have kept := sound.keep lib quiet longAsked Name.root
  have short := ((delivered_forwarded (.inl rfl) asked parsed
    (clean_keep sound lib quiet longAsked Name.root) kept.written rfl).mp sent).2
  rw [keep_longReply] at short
  have whole : streamSize lib quiet longAsked [] .tcp (longReply data) = (longReply data).size + 11 :=
    rfl
  rw [whole, size_longReply] at short
  omega

end Long

end Trench.Transport
