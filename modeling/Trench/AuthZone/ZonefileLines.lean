import Mathlib
import Trench.AuthZone.ZonefileData

set_option autoImplicit false

/- The lines of a zone file: what each leaves to the next, and what a file comes to as a whole. -/
namespace Trench.AuthZone

open Wire
open Wire.Rdata (LegalName)
open Trench.Filter (words startsWith)

namespace Zonefile

variable (u : Strings)

/-! ### What the lines of a file say -/

/-- What of a line is read. -/
def content (line : Text) : Text := rstrip (code line)

def isBlank (line : Text) : Bool := Name.strip line = []

def isOrigin (line : Text) : Bool := startsWith line "$ORIGIN".toList

def isTtl (line : Text) : Bool := startsWith line "$TTL".toList

/-- A line that is neither blank nor a directive. -/
def isRecord (line : Text) : Bool := !isBlank line && !isOrigin line && !isTtl line

/-- The origin, or the TTL, that a directive names. -/
def originOf (line : Text) : Option Name := (words line)[1]?.bind fun s => (Name.fromText s).toOption

def ttlOf (line : Text) : Option Int := (words line)[1]?.bind (ttl u)

/-- A directive without a meaning. -/
def refused (line : Text) : Bool :=
  (isOrigin line && (originOf line).isNone) || (isTtl line && (ttlOf u line).isNone)

/-- What a line leaves to those behind it. -/
def Frame.after (f : Frame) (line : Text) : Frame :=
  if isBlank line then f
  else if isOrigin line then { f with org := (originOf line).getD f.org }
  else if isTtl line then { f with defaultTtl := (ttlOf u line).getD f.defaultTtl }
  else match owner line f.lastOwner f.org with
    | .ok (name, _) => { f with lastOwner := name }
    | .error _ => f

/-- The lines with records, each with what stands before it. -/
def recordLines (f : Frame) : List Text → List (Frame × Text)
  | [] => []
  | line :: lines => (if isRecord line then [(f, line)] else []) ++ recordLines (f.after u line) lines

/-- The record of a line whose type is known. -/
def entry (f : Frame) (line : Text) : Option Entry := do
  let (owner, rest) ← (owner line f.lastOwner f.org).toOption
  let (ttl, toks) ← (ttlAhead u f.defaultTtl (words rest)).toOption
  let rtype ← (classAhead u toks).head?
  let kind ← Kind.ofText (u.upper rtype)
  return { owner, ttl, kind, data := (classAhead u toks).tail, org := f.org }

/-- A record line whose names can be read, and its TTL if it is one of digits. -/
structure Readable (f : Frame) (line : Text) : Prop where
  owner : ∃ found, owner line f.lastOwner f.org = .ok found
  ttl : ∀ found, Zonefile.owner line f.lastOwner f.org = .ok found → ∀ tok ∈ (words found.2)[0]?,
    isDigits u tok = true → (u.int tok).isSome
  names : ∀ e ∈ entry u f line, e.Named u

/-- The records that are taken up. -/
def carried (f : Frame) (lines : List Text) : List Entry :=
  ((recordLines u f lines).filterMap fun (f, line) => entry u f line).filter fun e => e.Carries u

/-! ### One line -/

section

variable {u} {f : Frame} {line origin : Text} {lineno : Nat}

/-- The records that are in scope are made of legal names. -/
structure Frame.Legal (f : Frame) : Prop where
  org : LegalName f.org
  lastOwner : LegalName f.lastOwner

/-- What is loaded is what the entry has. -/
structure Loads (e : Entry) (l : Loaded) : Prop where
  owner : l.owner = e.owner
  legal : LegalName l.owner
  kind : l.kind = e.kind
  ttl : l.ttl = e.ttl
  holds : Holds e.kind l.rdata (e.InBounds u)

/-- A fault that is no fault of a directive. -/
def Unnamed (fault : LoadError) : Prop := ∀ o n d x, fault ≠ .config o n d x

theorem directive_cases {α : Type} (origin : Text) (lineno : Nat) (line : Text) (parse : Text → Option α) :
    (∃ v, (words line)[1]?.bind parse = some v ∧ directive origin lineno parse line = .ok v) ∨
      ((words line)[1]?.bind parse = none ∧
        ∃ d x, directive origin lineno parse line = .error (.config origin lineno d x)) := by
  rw [directive]
  rcases words line with _ | ⟨d, _ | ⟨s, more⟩⟩
  · exact .inr ⟨rfl, _, _, rfl⟩
  · exact .inr ⟨rfl, _, _, rfl⟩
  · change (∃ v, parse s = some v ∧ _) ∨ (parse s = none ∧ _)
    cases found : parse s with
    | none => exact .inr ⟨rfl, _, _, by simp only [found]; rfl⟩
    | some v => exact .inl ⟨v, rfl, by simp only [found]⟩

theorem map_eq_ok {ε α β : Type} {read : Except ε α} {g : α → β} {y : β} (same : read.map g = .ok y) :
    ∃ x, read = .ok x ∧ g x = y := by
  cases read with
  | error e => cases same
  | ok x => exact ⟨x, rfl, Except.ok.inj same⟩

theorem legal_owner (legal : f.Legal) {found : Name × Text}
    (read : owner line f.lastOwner f.org = .ok found) : LegalName found.1 := by
  rw [owner.eq_def] at read
  split at read
  · cases read
    exact legal.lastOwner
  · split at read
    · cases read
      exact legal.lastOwner
    · obtain ⟨name, denotes, rfl⟩ := map_eq_ok read
      exact legal_of_qualify legal.org denotes

theorem ttlAhead_cases (standing : Int) (toks : List Text) :
    (∃ found, ttlAhead u standing toks = .ok found ∧
      ∀ tok ∈ toks[0]?, isDigits u tok = true → (u.int tok).isSome) ∨
    (ttlAhead u standing toks = .error .value ∧
      ¬ ∀ tok ∈ toks[0]?, isDigits u tok = true → (u.int tok).isSome) := by
  rcases toks with _ | ⟨tok, more⟩
  · exact .inl ⟨_, rfl, by rintro _ ⟨⟩⟩
  · rw [ttlAhead]
    by_cases digits : isDigits u tok = true
    · rw [if_pos digits]
      cases number : u.int tok with
      | none =>
          refine .inr ⟨rfl, fun each => ?_⟩
          have present := each tok rfl digits
          rw [number] at present
          cases present
      | some n =>
          refine .inl ⟨_, rfl, ?_⟩
          rintro _ ⟨⟩ _
          rw [number]
          rfl
    · rw [if_neg digits]
      refine .inl ⟨_, rfl, ?_⟩
      rintro _ ⟨⟩ held
      exact absurd held digits

/-- The entry that a line carries, if it carries one. -/
def carriedEntry (u : Strings) (f : Frame) (line : Text) : Option Entry :=
  (entry u f line).filter fun e => e.Carries u

/-- What a record line comes to: it is read, or something of it cannot be and the whole file fails. -/
theorem recordLine_cases (line : Text) (legal : f.Legal) :
    (Readable u f line ∧ ∃ name rest loaded, owner line f.lastOwner f.org = .ok (name, rest) ∧
      recordLine u f line = .ok (name, loaded) ∧ Option.Rel (Loads (u := u)) (carriedEntry u f line) loaded) ∨
    (¬ Readable u f line ∧ ∃ fault, recordLine u f line = .error fault ∧ Unnamed fault) := by
  cases owned : owner line f.lastOwner f.org with
  | error w =>
      refine .inr ⟨fun readable => ?_, .wire w, ?_, by simp [Unnamed]⟩
      · obtain ⟨found, read⟩ := readable.owner
        rw [owned] at read
        cases read
      · simp only [recordLine, owned, Except.mapError]
        rfl
  | ok found =>
      obtain ⟨name, rest⟩ := found
      have short : LegalName name := legal_owner legal owned
      rcases ttlAhead_cases (u := u) f.defaultTtl (words rest) with ⟨⟨ttl, toks⟩, ahead, fine⟩ | ⟨failed, bad⟩
      · have ttls : ∀ found, owner line f.lastOwner f.org = .ok found → ∀ tok ∈ (words found.2)[0]?,
            isDigits u tok = true → (u.int tok).isSome := by
          intro found read
          rw [owned] at read
          cases read
          exact fine
        have readable (names : ∀ e ∈ entry u f line, e.Named u) : Readable u f line := ⟨⟨_, owned⟩, ttls, names⟩
        have entry_eq : entry u f line = (classAhead u toks).head?.bind fun rtype =>
            (Kind.ofText (u.upper rtype)).map fun kind => ⟨name, ttl, kind, (classAhead u toks).tail, f.org⟩ := by
          simp only [entry, owned, ahead, Except.toOption, Option.bind_eq_bind, Option.bind_some]
          refine congrArg _ (funext fun rtype => ?_)
          cases Kind.ofText (u.upper rtype) <;> rfl
        cases typed : classAhead u toks with
        | nil =>
            have record_eq : recordLine u f line = .ok (name, none) := by
              simp only [recordLine, owned, ahead, Except.mapError, bind, Except.bind, typed]
              rfl
            rw [typed] at entry_eq
            refine .inl ⟨readable ?_, name, rest, none, rfl, record_eq, ?_⟩
            · rw [entry_eq]
              rintro _ ⟨⟩
            · rw [carriedEntry, entry_eq]
              exact .none
        | cons rtype data =>
            have record_eq : recordLine u f line = ((rdata u (u.upper rtype) data f.org).mapError .wire).map
                fun read => (name, read.map fun found => ⟨name, found.1, found.2, ttl⟩) := by
              simp only [recordLine, owned, ahead, Except.mapError, bind, Except.bind, typed]
              cases rdata u (u.upper rtype) data f.org <;> rfl
            rw [typed] at entry_eq
            cases known : Kind.ofText (u.upper rtype) with
            | none =>
                rw [List.head?_cons, Option.bind_some, known, Option.map_none] at entry_eq
                refine .inl ⟨readable ?_, name, rest, none, rfl, ?_, ?_⟩
                · rw [entry_eq]
                  rintro _ ⟨⟩
                · simp only [record_eq, rdata, known]
                  rfl
                · rw [carriedEntry, entry_eq]
                  exact .none
            | some kind =>
                rw [List.head?_cons, Option.bind_some, known, Option.map_some, List.tail_cons] at entry_eq
                let e : Entry := ⟨name, ttl, kind, data, f.org⟩
                have read := read_entry (u := u) e legal.org
                by_cases named : e.Named u
                · have names : ∀ e ∈ entry u f line, e.Named u := by
                    rw [entry_eq]
                    rintro _ ⟨⟩
                    exact named
                  by_cases carries : e.Carries u
                  · obtain ⟨rd, found, holds⟩ := read.carried named carries
                    refine .inl ⟨readable names, name, rest, some ⟨name, kind, rd, ttl⟩, rfl, ?_, ?_⟩
                    · simp only [record_eq, rdata, known, show readRdata u kind data f.org = _ from found]
                      rfl
                    · rw [carriedEntry, entry_eq, Option.filter_some, if_pos (decide_eq_true carries)]
                      exact .some ⟨rfl, short, rfl, rfl, holds⟩
                  · obtain ⟨fault, failed, other⟩ := read.dropped named carries
                    refine .inl ⟨readable names, name, rest, none, rfl, ?_, ?_⟩
                    · simp only [record_eq, rdata, known, show readRdata u kind data f.org = _ from failed]
                      cases fault with
                      | wire w => exact absurd rfl (other w)
                      | _ => rfl
                    · rw [carriedEntry, entry_eq, Option.filter_some, if_neg (by simpa using carries)]
                      exact .none
                · obtain ⟨w, failed⟩ := read.unnamed named
                  refine .inr ⟨fun readable => named (readable.names e entry_eq), .wire w, ?_, by simp [Unnamed]⟩
                  simp only [record_eq, rdata, known, show readRdata u kind data f.org = _ from failed]
                  rfl
      · refine .inr ⟨fun readable => bad (readable.ttl _ owned), .value, ?_, by simp [Unnamed]⟩
        simp only [recordLine, owned, Except.mapError, bind, Except.bind, failed]

theorem not_blank {c : Char} (visible : Name.isSpace c = false) (rest : Text) : isBlank (c :: rest) = false := by
  refine decide_eq_false fun empty => ?_
  rw [Name.strip, List.dropWhile_cons_of_neg (by simp [visible]), List.reverse_eq_nil_iff,
    List.dropWhile_eq_nil_iff] at empty
  have space := empty c (by simp)
  rw [visible] at space
  cases space

theorem not_blank_of_directive (starts : isOrigin line = true ∨ isTtl line = true) : isBlank line = false := by
  rcases starts with starts | starts
  · obtain ⟨rest, rfl⟩ := List.isPrefixOf_iff_prefix.mp starts
    exact not_blank rfl _
  · obtain ⟨rest, rfl⟩ := List.isPrefixOf_iff_prefix.mp starts
    exact not_blank rfl _

theorem not_ttl_of_origin (starts : isOrigin line = true) : isTtl line = false := by
  obtain ⟨rest, rfl⟩ := List.isPrefixOf_iff_prefix.mp starts
  rfl

/-- The record that a line carries, if it carries one. -/
def recorded (u : Strings) (f : Frame) (line : Text) : Option Entry :=
  if isRecord line then carriedEntry u f line else none

/-- A directive is refused, or a line is read, or a record line cannot be. -/
theorem parseLine_cases (origin : Text) (lineno : Nat) (line : Text) (legal : f.Legal) :
    (refused u line = true ∧ ∃ d x, parseLine u origin lineno f line = .error (.config origin lineno d x)) ∨
    (refused u line = false ∧ (isRecord line = true → Readable u f line) ∧ ∃ loaded,
      parseLine u origin lineno f line = .ok (f.after u line, loaded) ∧
        Option.Rel (Loads (u := u)) (recorded u f line) loaded) ∨
    (refused u line = false ∧ ¬ (isRecord line = true → Readable u f line) ∧
      ∃ fault, parseLine u origin lineno f line = .error fault ∧ Unnamed fault) := by
  cases blank : isBlank line with
  | true =>
      have origin_no : isOrigin line = false := by
        by_contra starts
        rw [not_blank_of_directive (.inl (by simpa using starts))] at blank
        cases blank
      have ttl_no : isTtl line = false := by
        by_contra starts
        rw [not_blank_of_directive (.inr (by simpa using starts))] at blank
        cases blank
      refine .inr (.inl ⟨by simp [refused, origin_no, ttl_no], by simp [isRecord, blank], none, ?_, ?_⟩)
      · rw [parseLine, if_pos (of_decide_eq_true blank), Frame.after, blank, if_pos rfl]
      · simp [recorded, isRecord, blank]
  | false =>
      have shown : ¬ Name.strip line = [] := of_decide_eq_false blank
      cases starts : isOrigin line with
      | true =>
          have ttl_no := not_ttl_of_origin starts
          have parsed : parseLine u origin lineno f line =
              (directive origin lineno (fun s => (Name.fromText s).toOption) line).map
                fun org => ({ f with org }, none) := by
            rw [parseLine, if_neg shown, if_pos (show startsWith line _ = true from starts)]
          rcases directive_cases origin lineno line
            (fun s => (Name.fromText s).toOption) with ⟨org, read, same⟩ | ⟨none, d, x, same⟩
          · have found : originOf line = some org := read
            refine .inr (.inl ⟨by simp [refused, starts, ttl_no, found], by simp [isRecord, starts], none, ?_, ?_⟩)
            · rw [parsed, same, Frame.after, blank, starts, found]
              rfl
            · simp [recorded, isRecord, starts]
          · have absent : originOf line = Option.none := none
            exact .inl ⟨by simp [refused, starts, absent], d, x, by rw [parsed, same]; rfl⟩
      | false =>
          cases also : isTtl line with
          | true =>
              have parsed : parseLine u origin lineno f line =
                  (directive origin lineno (ttl u) line).map fun ttl => ({ f with defaultTtl := ttl }, none) := by
                rw [parseLine, if_neg shown, if_neg (by simpa [isOrigin] using starts),
                  if_pos (show startsWith line _ = true from also)]
              rcases directive_cases origin lineno line (ttl u) with
                ⟨n, read, same⟩ | ⟨none, d, x, same⟩
              · have found : ttlOf u line = some n := read
                refine .inr (.inl ⟨by simp [refused, starts, found], by simp [isRecord, also], none, ?_, ?_⟩)
                · rw [parsed, same, Frame.after, blank, starts, also, found]
                  rfl
                · simp [recorded, isRecord, also]
              · have absent : ttlOf u line = Option.none := none
                exact .inl ⟨by simp [refused, also, absent], d, x, by rw [parsed, same]; rfl⟩
          | false =>
              have fine : refused u line = false := by simp [refused, starts, also]
              have record : isRecord line = true := by simp [isRecord, blank, starts, also]
              have parsed : parseLine u origin lineno f line = (recordLine u f line).map
                  fun found => ({ f with lastOwner := found.1 }, found.2) := by
                rw [parseLine, if_neg shown, if_neg (by simpa [isOrigin] using starts),
                  if_neg (by simpa [isTtl] using also)]
              rcases recordLine_cases (u := u) line legal with
                ⟨readable, name, rest, loaded, owned, read, loads⟩ | ⟨unreadable, fault, failed, other⟩
              · refine .inr (.inl ⟨fine, fun _ => readable, loaded, ?_, ?_⟩)
                · rw [parsed, read, Frame.after, blank, starts, also, owned]
                  rfl
                · rw [recorded, if_pos record]
                  exact loads
              · refine .inr (.inr ⟨fine, fun all => unreadable (all record), fault, ?_, other⟩)
                rw [parsed, failed]
                rfl

/-! ### All lines -/

theorem Frame.Legal.after (legal : f.Legal) (line : Text) : (f.after u line).Legal := by
  rw [Frame.after]
  split
  · exact legal
  · split
    · refine ⟨?_, legal.lastOwner⟩
      cases found : originOf line with
      | none => exact legal.org
      | some org =>
          obtain ⟨s, -, read⟩ := Option.bind_eq_some_iff.mp found
          cases denotes : Name.fromText s with
          | error e =>
              rw [denotes] at read
              cases read
          | ok name =>
              rw [denotes] at read
              cases read
              exact Name.wireLen_of_fromText denotes
    · split
      · exact ⟨legal.org, legal.lastOwner⟩
      · split
        · next name rest owned => exact ⟨legal.org, legal_owner legal owned⟩
        · exact legal

theorem carried_cons (u : Strings) (f : Frame) (line : Text) (lines : List Text) :
    carried u f (line :: lines) = (recorded u f line).toList ++ carried u (f.after u line) lines := by
  rw [carried, recordLines, List.filterMap_append, List.filter_append, ← carried, recorded]
  refine congrArg (· ++ _) ?_
  split
  · rw [carriedEntry, List.filterMap_cons, List.filterMap_nil]
    dsimp only
    cases entry u f line with
    | none => rfl
    | some e =>
        rw [Option.filter_some, List.filter_cons, List.filter_nil]
        split <;> rfl
  · rfl

/-- The lines before the first directive that is refused. -/
def heeded (u : Strings) (lines : List Text) : List Text := lines.takeWhile fun line => !refused u line

/-- Every record line can be read. -/
def Sound (u : Strings) (f : Frame) (lines : List Text) : Prop :=
  ∀ p ∈ recordLines u f lines, Readable u p.1 p.2

theorem sound_cons {u : Strings} {f : Frame} {line : Text} {lines : List Text} :
    Sound u f (line :: lines) ↔ (isRecord line = true → Readable u f line) ∧ Sound u (f.after u line) lines := by
  rw [Sound, recordLines, List.forall_mem_append, ← Sound]
  refine and_congr_left fun _ => ?_
  split
  · next record => simp [record]
  · next other => simp [other]

/-- The loop: a file is loaded, or refused by its first bad directive, or something else fails. -/
theorem parseLines_cases (origin : Text) (raws : List Text) {f : Frame} (legal : f.Legal) (zone : Zone) (lineno : Nat) :
    (Sound u f (heeded u (raws.map content)) ∧ (∀ line ∈ raws.map content, refused u line = false) ∧
      ∃ ls, List.Forall₂ (Loads (u := u)) (carried u f (raws.map content)) ls ∧
        parseLines u origin lineno f zone raws = .ok (ls.foldl addLoaded zone)) ∨
    (Sound u f (heeded u (raws.map content)) ∧ (∃ line ∈ raws.map content, refused u line = true) ∧
      ∃ d x, parseLines u origin lineno f zone raws =
        .error (.config origin (lineno + (heeded u (raws.map content)).length) d x)) ∨
    (¬ Sound u f (heeded u (raws.map content)) ∧
      ∃ fault, parseLines u origin lineno f zone raws = .error fault ∧ Unnamed fault) := by
  induction raws generalizing f zone lineno with
  | nil =>
      refine .inl ⟨fun p held => (by cases held), fun line held => (by cases held), [], .nil, rfl⟩
  | cons raw raws ih =>
      rw [parseLines, ← content, List.map_cons, heeded]
      rcases parseLine_cases (u := u) origin lineno (content raw) legal with
        ⟨bad, d, x, failed⟩ | ⟨fine, readable, loaded, read, loads⟩ | ⟨fine, unreadable, fault, failed, other⟩
      · rw [List.takeWhile_cons_of_neg (by simp [bad]), failed]
        exact .inr (.inl ⟨fun p held => (by cases held), ⟨_, List.mem_cons_self, bad⟩, d, x, rfl⟩)
      · rw [List.takeWhile_cons_of_pos (by simp [fine]), sound_cons, carried_cons, read]
        dsimp only
        rcases ih (legal.after (content raw)) (loaded.elim zone (addLoaded zone)) (lineno + 1) with
          ⟨sound, clean, ls, all, parsed⟩ | ⟨sound, ⟨line, held, bad⟩, d, x, failed⟩ | ⟨unsound, fault, failed, other⟩
        · refine .inl ⟨⟨readable, sound⟩, List.forall_mem_cons.mpr ⟨fine, clean⟩, loaded.toList ++ ls, ?_, ?_⟩
          · refine List.rel_append ?_ all
            generalize recorded u f (content raw) = stood at loads
            cases loads with
            | none => exact .nil
            | some one => exact .cons one .nil
          · rw [parsed, List.foldl_append]
            cases loaded <;> rfl
        · refine .inr (.inl ⟨⟨readable, sound⟩, ⟨line, List.mem_cons_of_mem _ held, bad⟩, d, x, ?_⟩)
          rw [failed, heeded, List.length_cons, Nat.add_assoc, Nat.add_comm 1]
        · exact .inr (.inr ⟨fun both => unsound both.2, fault, failed, other⟩)
      · rw [List.takeWhile_cons_of_pos (by simp [fine]), sound_cons, failed]
        exact .inr (.inr ⟨fun both => unreadable both.1, fault, rfl, other⟩)

end

end Zonefile

end Trench.AuthZone
