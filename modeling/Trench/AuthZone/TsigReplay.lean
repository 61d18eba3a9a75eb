import Mathlib
import Trench.AuthZone.Tsig

set_option autoImplicit false

/- Runs of verifications that share one replay window. The invariant says of every
message accepted so far that the window still remembers its MAC, or that its own
window has passed, or that the key's high-water mark is too far ahead of it. -/
namespace Trench.AuthZone

open Wire
open Wire.Name (fromText lowerText)
open Cursor (Ensures Parser)

/-- One verification with everything the caller passes, the shared objects apart. -/
structure Call where
  wire : Octets
  requestMac : Option Octets
  now : Int
  fudgeMax : Int
  timersOnly : Bool

/-- A presented message with the arguments its MAC was checked against. -/
structure Accepted where
  shown : Presentation
  requestMac : Option Octets
  timersOnly : Bool
  deriving DecidableEq

namespace Accepted

/-- The signed content: message, key, time signed and fudge. -/
def content (a : Accepted) : Octets × TsigKey × BitVec 48 × UInt16 :=
  (a.shown.message, a.shown.key, a.shown.tsig.timeSigned, a.shown.tsig.fudge)

def time (a : Accepted) : Int := a.shown.tsig.timeSigned.toNat

def mac (a : Accepted) : Octets := a.shown.tsig.mac

/-- The MAC is the digest of what was presented, or its leading octets. -/
def Authentic (hmac : Hmac) (a : Accepted) : Prop :=
  ∃ expected, digest hmac a.shown.key a.shown.message a.shown.tsig.algorithm a.shown.tsig.timeSigned
    a.shown.tsig.fudge 0 a.shown.tsig.other a.requestMac a.timersOnly = .ok expected ∧
      a.mac = expected.take a.mac.length

/-- Signed alike, and the MAC cut to the same length. -/
def SameForm (a b : Accepted) : Prop :=
  a.mac.length = b.mac.length ∧ a.shown.tsig.other = b.shown.tsig.other ∧
    a.requestMac = b.requestMac ∧ a.timersOnly = b.timersOnly

/-- No later call can find the message within its window, when no verifier allows
a fudge above `limit`. -/
def Outlived (limit now : Int) (a : Accepted) : Prop :=
  min (a.shown.tsig.fudge.toNat : Int) limit < now - a.time

/-- The high-water mark keeps the message out. -/
def Overtaken (limit high : Int) (a : Accepted) : Prop :=
  a.time + min (a.shown.tsig.fudge.toNat : Int) limit < high

end Accepted

/-- The shared replay window, what has been accepted, and the clock. -/
structure History where
  window : ReplayWindow
  accepted : List Accepted
  clock : Int

def Call.verify (hmac : Hmac) (keyring : Dict Text TsigKey) (r : ReplayWindow) (c : Call) :
    Except VerifyError ((Octets × TsigKey × TsigData) × Option ReplayWindow) :=
  verifyWire hmac keyring c.wire c.requestMac c.now c.fudgeMax (some r) c.timersOnly

def Call.present (keyring : Dict Text TsigKey) (c : Call) : Option Accepted :=
  match identify keyring c.wire with
  | .ok p => some ⟨p, c.requestMac, c.timersOnly⟩
  | .error _ => none

def History.next (hmac : Hmac) (keyring : Dict Text TsigKey) (h : History) (c : Call) : History :=
  match c.verify hmac keyring h.window, c.present keyring with
  | .ok (_, some r), some a => ⟨r, a :: h.accepted, c.now⟩
  | _, _ => { h with clock := c.now }

/-- The histories of calls at non-decreasing clocks, each within `limit` and meeting
a condition on itself and the history before it. -/
inductive Run (hmac : Hmac) (keyring : Dict Text TsigKey) (limit : Int)
    (allowed : History → Call → Prop) : History → Prop where
  | start (maxKeys : Nat) (clock : Int) :
      Run hmac keyring limit allowed ⟨ReplayWindow.fresh maxKeys, [], clock⟩
  | call {h : History} (c : Call) (before : Run hmac keyring limit allowed h)
      (later : h.clock ≤ c.now) (within : c.fudgeMax ≤ limit) (meets : allowed h c) :
      Run hmac keyring limit allowed (h.next hmac keyring c)

/-- No signed content was accepted twice. -/
def AcceptedOnce (h : History) : Prop := h.accepted.Pairwise fun a b => a.content ≠ b.content

/-- The message a call presents, when its MAC is right, its time within the window
and not too far behind the key's high-water mark. -/
structure Admissible (hmac : Hmac) (keyring : Dict Text TsigKey) (h : History) (c : Call)
    (a : Accepted) : Prop where
  shown : c.present keyring = some a
  authentic : a.Authentic hmac
  timely : |c.now - a.time| ≤ windowOf a.shown c.fudgeMax
  notOlder : ∀ high, h.window.high.get? a.shown.keyName = some high →
    high - windowOf a.shown c.fudgeMax ≤ a.time

/-- What keeps a call from being a replay the window misses, or from making it miss
one later. -/
structure Spared (hmac : Hmac) (keyring : Dict Text TsigKey) (limit : Int) (h : History)
    (c : Call) : Prop where
  /-- A content accepted before comes with the MAC it had then. -/
  form : ∀ a, Admissible hmac keyring h c a → ∀ e ∈ h.accepted, e.content = a.content → e.SameForm a
  /-- A message with a narrow window does not drop another of its key that a later
  call could still present. -/
  pruned : ∀ a, Admissible hmac keyring h c a → (∀ e ∈ h.accepted, e.content ≠ a.content) →
    ∀ e ∈ h.accepted, e.shown.keyName = a.shown.keyName →
      e.time < c.now - windowOf a.shown c.fudgeMax →
        e.Outlived limit c.now ∨
          e.Overtaken limit (max ((h.window.high.get? a.shown.keyName).getD 0) a.time)
  /-- No key arrives at a full table that holds such messages. -/
  evicted : ∀ a, Admissible hmac keyring h c a → h.window.seen.get? a.shown.keyName = none →
    h.window.maxKeys ≤ h.window.seen.size → ∀ e ∈ h.accepted, e.Outlived limit c.now

/-- A key is filed under one name. -/
def Filed (keyring : Dict Text TsigKey) : Prop :=
  ∀ e ∈ keyring.entries, ∀ f ∈ keyring.entries, e.2 = f.2 → e.1 = f.1

/-! ### The names behind a presentation -/

theorem ensures_locateLoop (left questions : Nat) (found : Located)
    (legal : ∀ e, found.final = some e → e.2.2.wireLen ≤ maxName) :
    Ensures (locateLoop left questions found) fun last =>
      ∀ e, last.final = some e → e.2.2.wireLen ≤ maxName := by
  induction left generalizing questions found with
  | zero => exact Ensures.pure legal
  | succ left ih =>
      rw [locateLoop]
      refine Ensures.trivial.bind fun start _ => ?_
      refine Reader.ensures_readName.bind fun owner short => ?_
      refine Ensures.trivial.bind fun rtype _ => ?_
      refine Ensures.trivial.bind fun _ _ => ?_
      cases questions with
      | succ questions => exact ih questions found legal
      | zero =>
          refine Ensures.trivial.bind fun _ _ => ?_
          refine Ensures.trivial.bind fun rdlen _ => ?_
          refine Ensures.trivial.bind fun rdStart _ => ?_
          refine Ensures.trivial.bind fun data _ => ?_
          refine Ensures.trivial.bind fun _ _ => ?_
          refine ih 0 _ fun e same => ?_
          cases same
          exact short

theorem locateTsig_legal {wire : Octets} {start : Nat} {tsig : TsigData} {owner : Name}
    (found : locateTsig wire = .ok (start, tsig, owner)) : owner.wireLen ≤ maxName := by
  rw [locateTsig] at found
  split at found
  · cases found
  · split at found
    · cases found
    · simp only at found
      split at found
      · cases found
      · next last first rtype name data rest same =>
          have legal := ensures_locateLoop _ _ ⟨none, none⟩ (fun e none => by cases none) _ _ _ same
            _ rfl
          split at found
          · cases found
            exact legal
          · cases found
      · cases found

/-- A key that is found is filed under a name that reads as the owner's. -/
theorem lookupKey_filed {keyring : Dict Text TsigKey} {owner : Name} {key : TsigKey}
    (legal : owner.wireLen ≤ maxName) (found : lookupKey keyring owner = some key) :
    ∃ e ∈ keyring.entries, e.2 = key ∧ ∃ name, fromText e.1 = .ok name ∧
      lowerText name.toText = lowerText owner.toText := by
  rw [lookupKey] at found
  split at found
  · next k same =>
      cases found
      obtain ⟨e, held, hit, value⟩ := Dict.get?_eq_some.mp same
      refine ⟨e, held, value, owner.canonicalize, ?_, Name.lowerText_idem owner⟩
      rw [eq_of_beq hit]
      exact Name.fromText_lowerText owner legal
  · next same =>
      obtain ⟨e, first, value⟩ := Option.map_eq_some_iff.mp found
      have hit := List.find?_some first
      refine ⟨e, List.mem_of_find?_eq_some first, value, ?_⟩
      split at hit
      · next name read => exact ⟨name, read, eq_of_beq hit⟩
      · cases hit

/-- A presentation names the key by the text of an owner the keyring finds it under,
and names the key's algorithm. -/
structure Known (keyring : Dict Text TsigKey) (p : Presentation) : Prop where
  filed : ∃ e ∈ keyring.entries, e.2 = p.key ∧ ∃ name, fromText e.1 = .ok name ∧
    lowerText name.toText = p.keyName
  algorithm : ∃ name, fromText p.key.algorithm = .ok name ∧ name.lower = p.tsig.algorithm.lower

theorem known_of_identify {keyring : Dict Text TsigKey} {wire : Octets} {p : Presentation}
    (found : identify keyring wire = .ok p) : Known keyring p := by
  obtain ⟨⟨start, tsig, owner⟩, located, rest⟩ := bind_eq_ok.mp found
  dsimp only at rest
  split at rest
  · cases rest
  · next key same =>
      obtain ⟨algorithm, read, rest⟩ := bind_eq_ok.mp rest
      split at rest
      · next agree =>
          cases rest
          have parsed : fromText key.algorithm = .ok algorithm := by
            cases text : fromText key.algorithm with
            | error e => rw [text] at read; cases read
            | ok name => rw [text] at read; cases read; rfl
          exact ⟨lookupKey_filed (locateTsig_legal located) same,
            algorithm, parsed, Name.beq_iff.mp agree⟩
      · cases rest

theorem keyName_unique {keyring : Dict Text TsigKey} (filed : Filed keyring) {p q : Presentation}
    (left : Known keyring p) (right : Known keyring q) (same : p.key = q.key) :
    p.keyName = q.keyName := by
  obtain ⟨e, eHeld, eKey, name, eRead, eText⟩ := left.filed
  obtain ⟨f, fHeld, fKey, other, fRead, fText⟩ := right.filed
  have names := filed e eHeld f fHeld (eKey.trans (same.trans fKey.symm))
  rw [names, fRead] at eRead
  cases eRead
  rw [← eText, ← fText]

/-! ### One call -/

theorem canonName_congr {a b : Name} (same : a.lower = b.lower) : canonName a = canonName b := by
  rw [canonName, canonName, Name.canonicalize, Name.canonicalize, same]

theorem digest_congr {hmac : Hmac} {key : TsigKey} {message : Octets} {a b : Name}
    {time : BitVec 48} {fudge error : UInt16} {other : Octets} {requestMac : Option Octets}
    {timersOnly : Bool} (same : a.lower = b.lower) :
    digest hmac key message a time fudge error other requestMac timersOnly =
      digest hmac key message b time fudge error other requestMac timersOnly := by
  rw [digest, digest, canonName_congr same]

/-- One content signed in one form has one MAC. -/
theorem mac_eq {hmac : Hmac} {keyring : Dict Text TsigKey} {a b : Accepted}
    (aKnown : Known keyring a.shown) (bKnown : Known keyring b.shown)
    (aMac : a.Authentic hmac) (bMac : b.Authentic hmac) (same : a.content = b.content)
    (form : a.SameForm b) : a.mac = b.mac := by
  obtain ⟨aName, aRead, aLower⟩ := aKnown.algorithm
  obtain ⟨bName, bRead, bLower⟩ := bKnown.algorithm
  obtain ⟨expected, aDigest, aCut⟩ := aMac
  obtain ⟨others, bDigest, bCut⟩ := bMac
  obtain ⟨length, other, requestMac, timersOnly⟩ := form
  simp only [Accepted.content, Prod.mk.injEq] at same
  obtain ⟨message, key, time, fudge⟩ := same
  have lowers : a.shown.tsig.algorithm.lower = b.shown.tsig.algorithm.lower := by
    rw [key, bRead] at aRead
    cases aRead
    rw [← aLower, ← bLower]
  rw [message, key, time, fudge, other, requestMac, timersOnly, digest_congr lowers, bDigest]
    at aDigest
  cases aDigest
  rw [aCut, bCut, length]

theorem checkMac_ok {p : Presentation} {expected : Octets} (passed : checkMac p expected = .ok ()) :
    p.tsig.mac = expected.take p.tsig.mac.length ∧ p.tsig.error = 0 := by
  rw [checkMac] at passed
  split at passed
  · cases passed
  · split at passed
    · cases passed
    · next same =>
        split at passed
        · cases passed
        · next quiet => exact ⟨(not_not.mp same).symm, not_not.mp quiet⟩

/-- What an accepted call has passed. -/
theorem verify_ok {hmac : Hmac} {keyring : Dict Text TsigKey} {r after : ReplayWindow} {c : Call}
    {v : Octets × TsigKey × TsigData} (accepted : c.verify hmac keyring r = .ok (v, some after)) :
    ∃ a, c.present keyring = some a ∧ Known keyring a.shown ∧ a.Authentic hmac ∧
      |c.now - a.time| ≤ windowOf a.shown c.fudgeMax ∧
      r.check a.shown.keyName a.time a.mac (windowOf a.shown c.fudgeMax) c.now = .ok after := by
  obtain ⟨p, identified, rest⟩ := bind_eq_ok.mp accepted
  obtain ⟨expected, computed, rest⟩ := bind_eq_ok.mp rest
  obtain ⟨_, passed, rest⟩ := bind_eq_ok.mp rest
  obtain ⟨cut, quiet⟩ := checkMac_ok passed
  refine ⟨⟨p, c.requestMac, c.timersOnly⟩, ?_, known_of_identify identified,
    ⟨expected, by rw [← quiet]; exact computed, cut⟩, ?_⟩
  · rw [Call.present, identified]
  · dsimp only at rest
    split at rest
    · cases rest
    · next timely =>
        split at rest
        · cases rest
        · next checked =>
            cases rest
            exact ⟨not_lt.mp timely, checked⟩

/-- The two ways `check` succeeds, and the window it leaves. -/
theorem check_ok {r after : ReplayWindow} {k : Text} {time window now : Int} {mac : Octets}
    (passed : r.check k time mac window now = .ok after) :
    ∃ base kept,
      ((∃ seen, r.seen.get? k = some seen ∧ base = r ∧
          kept = seen.filter fun e => now - window ≤ e.1) ∨
        (r.seen.get? k = none ∧ kept = [] ∧
          base = if r.maxKeys ≤ r.seen.size then r.clear else r)) ∧
      (∀ e ∈ kept, e.2 ≠ mac) ∧
      (∀ high, base.high.get? k = some high → high - window ≤ time) ∧
      after = { base with
        seen := base.seen.set k (kept ++ [(time, mac)])
        high := base.high.set k (max ((base.high.get? k).getD 0) time) } := by
  have admitted {base : ReplayWindow} {kept : List (Int × Octets)}
      (done : base.enter k time mac window kept = .ok after) :
      (∀ high, base.high.get? k = some high → high - window ≤ time) ∧
        after = { base with
          seen := base.seen.set k (kept ++ [(time, mac)])
          high := base.high.set k (max ((base.high.get? k).getD 0) time) } := by
    rw [ReplayWindow.enter] at done
    split at done
    · cases done
    · next fine =>
        cases done
        refine ⟨fun high same => ?_, rfl⟩
        rw [same, Option.any_some, decide_eq_true_eq] at fine
        exact not_lt.mp fine
  rw [ReplayWindow.check] at passed
  split at passed
  · next seen same =>
      dsimp only at passed
      split at passed
      · cases passed
      · next novel =>
          refine ⟨r, _, .inl ⟨seen, same, rfl, rfl⟩, ?_, admitted passed⟩
          intro e held equal
          exact novel (List.any_eq_true.mpr ⟨e, held, beq_iff_eq.mpr equal⟩)
  · next absent =>
      exact ⟨_, [], .inr ⟨absent, rfl, rfl⟩, fun e held => (by cases held), admitted passed⟩

/-! ### The invariant -/

/-- Why a message accepted earlier is not accepted again. -/
def Remembered (limit now : Int) (r : ReplayWindow) (e : Accepted) : Prop :=
  (∃ seen, r.seen.get? e.shown.keyName = some seen ∧ (e.time, e.mac) ∈ seen) ∨
    e.Outlived limit now ∨
    ∃ high, r.high.get? e.shown.keyName = some high ∧ e.Overtaken limit high

structure Invariant (hmac : Hmac) (keyring : Dict Text TsigKey) (limit : Int) (h : History) :
    Prop where
  known : ∀ e ∈ h.accepted, Known keyring e.shown
  authentic : ∀ e ∈ h.accepted, e.Authentic hmac
  paired : ∀ k, h.window.seen.get? k = none → h.window.high.get? k = none
  remembered : ∀ e ∈ h.accepted, Remembered limit h.clock h.window e
  once : AcceptedOnce h

theorem Remembered.later {limit now next : Int} {r : ReplayWindow} {e : Accepted}
    (kept : Remembered limit now r e) (later : now ≤ next) : Remembered limit next r e := by
  rcases kept with seen | outlived | high
  · exact .inl seen
  · refine .inr (.inl ?_)
    simp only [Accepted.Outlived] at outlived ⊢
    omega
  · exact .inr (.inr high)

/-- A remembered message does not pass the window again. -/
theorem not_checked_of_remembered {limit : Int} {r after : ReplayWindow} {e a : Accepted} {c : Call}
    (kept : Remembered limit c.now r e) (paired : ∀ k, r.seen.get? k = none → r.high.get? k = none)
    (within : c.fudgeMax ≤ limit) (name : e.shown.keyName = a.shown.keyName)
    (same : e.content = a.content) (mac : e.mac = a.mac)
    (timely : |c.now - a.time| ≤ windowOf a.shown c.fudgeMax)
    (passed : r.check a.shown.keyName a.time a.mac (windowOf a.shown c.fudgeMax) c.now = .ok after) :
    False := by
  simp only [Accepted.content, Prod.mk.injEq] at same
  have time : e.time = a.time := by rw [Accepted.time, Accepted.time, same.2.2.1]
  have fudge : windowOf a.shown c.fudgeMax ≤ min (e.shown.tsig.fudge.toNat : Int) limit := by
    rw [windowOf, same.2.2.2]
    exact min_le_min_left _ within
  obtain ⟨early, late⟩ := abs_le.mp timely
  obtain ⟨base, stored, origin, novel, notOlder, -⟩ := check_ok passed
  rcases kept with ⟨seen, found, inside⟩ | outlived | ⟨high, found, overtaken⟩
  · rcases origin with ⟨list, listed, rfl, rfl⟩ | ⟨absent, -, -⟩
    · rw [name, listed] at found
      cases found
      refine novel (e.time, e.mac) (List.mem_filter.mpr ⟨inside, ?_⟩) mac
      rw [decide_eq_true_eq]
      show c.now - windowOf a.shown c.fudgeMax ≤ e.time
      omega
    · rw [name, absent] at found
      cases found
  · simp only [Accepted.Outlived] at outlived
    omega
  · simp only [Accepted.Overtaken] at overtaken
    rcases origin with ⟨list, listed, rfl, rfl⟩ | ⟨absent, -, -⟩
    · have bound := notOlder high (name ▸ found)
      omega
    · rw [name, paired _ absent] at found
      cases found

theorem paired_of_check {r after : ReplayWindow} {k : Text} {time window now : Int} {mac : Octets}
    (paired : ∀ l, r.seen.get? l = none → r.high.get? l = none)
    (passed : r.check k time mac window now = .ok after) (l : Text)
    (absent : after.seen.get? l = none) : after.high.get? l = none := by
  obtain ⟨base, stored, origin, -, -, rfl⟩ := check_ok passed
  rw [Dict.get?_set] at absent ⊢
  split at absent
  · cases absent
  · next other =>
      rw [if_neg other]
      rcases origin with ⟨-, -, rfl, -⟩ | ⟨-, -, rfl⟩
      · exact paired l absent
      · split
        · rfl
        · next room =>
            rw [if_neg room] at absent
            exact paired l absent

/-- A new message leaves every earlier one remembered. -/
theorem remembered_of_check {limit : Int} {r after : ReplayWindow} {e a : Accepted} {c : Call}
    (kept : Remembered limit c.now r e)
    (pruned : e.shown.keyName = a.shown.keyName → e.time < c.now - windowOf a.shown c.fudgeMax →
      e.Outlived limit c.now ∨
        e.Overtaken limit (max ((r.high.get? a.shown.keyName).getD 0) a.time))
    (evicted : r.seen.get? a.shown.keyName = none → r.maxKeys ≤ r.seen.size → e.Outlived limit c.now)
    (passed : r.check a.shown.keyName a.time a.mac (windowOf a.shown c.fudgeMax) c.now = .ok after) :
    Remembered limit c.now after e := by
  obtain ⟨base, stored, origin, -, -, rfl⟩ := check_ok passed
  by_cases outlived : e.Outlived limit c.now
  · exact .inr (.inl outlived)
  have base_eq : base = r := by
    rcases origin with ⟨-, -, rfl, -⟩ | ⟨absent, -, rfl⟩
    · rfl
    · exact if_neg fun full => outlived (evicted absent full)
  subst base_eq
  by_cases name : e.shown.keyName = a.shown.keyName
  · have hit : (a.shown.keyName == e.shown.keyName) = true := beq_iff_eq.mpr name.symm
    rcases kept with ⟨seen, found, inside⟩ | old | ⟨high, found, overtaken⟩
    · by_cases narrow : e.time < c.now - windowOf a.shown c.fudgeMax
      · refine .inr (.inr ⟨_, ?_, (pruned name narrow).resolve_left outlived⟩)
        rw [Dict.get?_set, if_pos hit]
      · refine .inl ⟨stored ++ [(a.time, a.mac)], ?_, ?_⟩
        · rw [Dict.get?_set, if_pos hit]
        · rcases origin with ⟨list, listed, -, rfl⟩ | ⟨absent, -, -⟩
          · rw [name, listed] at found
            cases found
            refine List.mem_append_left _ (List.mem_filter.mpr ⟨inside, ?_⟩)
            rw [decide_eq_true_eq]
            exact not_lt.mp narrow
          · rw [name, absent] at found
            cases found
    · exact absurd old outlived
    · refine .inr (.inr ⟨max high a.time, ?_, lt_max_of_lt_left overtaken⟩)
      rw [Dict.get?_set, if_pos hit, ← name, found, Option.getD_some]
  · have miss : ¬ (a.shown.keyName == e.shown.keyName) = true :=
      fun hit => name (beq_iff_eq.mp hit).symm
    rcases kept with ⟨seen, found, inside⟩ | old | ⟨high, found, overtaken⟩
    · exact .inl ⟨seen, by rw [Dict.get?_set, if_neg miss]; exact found, inside⟩
    · exact absurd old outlived
    · exact .inr (.inr ⟨high, by rw [Dict.get?_set, if_neg miss]; exact found, overtaken⟩)

theorem remembered_self {limit : Int} {r after : ReplayWindow} {a : Accepted} {c : Call}
    (passed : r.check a.shown.keyName a.time a.mac (windowOf a.shown c.fudgeMax) c.now = .ok after) :
    Remembered limit c.now after a := by
  obtain ⟨base, stored, -, -, -, rfl⟩ := check_ok passed
  refine .inl ⟨stored ++ [(a.time, a.mac)], ?_, List.mem_append_right _ List.mem_cons_self⟩
  rw [Dict.get?_set, if_pos (beq_self_eq_true _)]

/-- One call keeps the invariant. -/
theorem Invariant.next {hmac : Hmac} {keyring : Dict Text TsigKey} {limit : Int} {h : History}
    {c : Call} (inv : Invariant hmac keyring limit h) (filed : Filed keyring)
    (later : h.clock ≤ c.now) (within : c.fudgeMax ≤ limit)
    (spared : Spared hmac keyring limit h c) :
    Invariant hmac keyring limit (h.next hmac keyring c) := by
  have waited : ∀ e ∈ h.accepted, Remembered limit c.now h.window e :=
    fun e held => (inv.remembered e held).later later
  rw [History.next]
  split
  · next v r a accepted shown =>
      obtain ⟨a', shown', known, authentic, timely, passed⟩ := verify_ok accepted
      rw [shown] at shown'
      cases shown'
      have admissible : Admissible hmac keyring h c a := by
        refine ⟨shown, authentic, timely, fun high found => ?_⟩
        obtain ⟨base, stored, origin, -, notOlder, -⟩ := check_ok passed
        rcases origin with ⟨-, -, rfl, -⟩ | ⟨absent, -, -⟩
        · exact notOlder high found
        · rw [inv.paired _ absent] at found
          cases found
      have novel : ∀ e ∈ h.accepted, e.content ≠ a.content := by
        intro e held same
        have key : e.shown.key = a.shown.key := congrArg (fun s => s.2.1) same
        exact not_checked_of_remembered (waited e held) inv.paired within
          (keyName_unique filed (inv.known e held) known key) same
          (mac_eq (inv.known e held) known (inv.authentic e held) authentic same
            (spared.form a admissible e held same)) timely passed
      refine ⟨?_, ?_, paired_of_check inv.paired passed, ?_, ?_⟩
      · exact List.forall_mem_cons.mpr ⟨known, inv.known⟩
      · exact List.forall_mem_cons.mpr ⟨authentic, inv.authentic⟩
      · refine List.forall_mem_cons.mpr ⟨remembered_self passed, fun e held => ?_⟩
        exact remembered_of_check (waited e held) (spared.pruned a admissible novel e held)
          (fun absent full => spared.evicted a admissible absent full e held) passed
      · exact List.pairwise_cons.mpr ⟨fun e held same => novel e held same.symm, inv.once⟩
  · exact ⟨inv.known, inv.authentic, inv.paired, waited, inv.once⟩

theorem invariant_of_run {hmac : Hmac} {keyring : Dict Text TsigKey} {limit : Int} {h : History}
    (filed : Filed keyring) (run : Run hmac keyring limit (Spared hmac keyring limit) h) :
    Invariant hmac keyring limit h := by
  induction run with
  | start maxKeys clock =>
      exact ⟨fun e held => (by cases held), fun e held => (by cases held), fun k _ => rfl,
        fun e held => (by cases held), List.Pairwise.nil⟩
  | call c before later within meets ih => exact ih.next filed later within meets

/-! ### A captured UPDATE -/

/-- The key `k.` with the one-octet secret `s`. -/
def updateKey : TsigKey := ⟨"k.".toList, [0x73], "hmac-sha256.".toList⟩

def updateKeyring : Dict Text TsigKey := Dict.empty.set "k.".toList updateKey

/-- An empty UPDATE with the TSIG variables for time 1000 and fudge 300. -/
def updateText : Octets :=
  [0, 1, 40, 0, 0, 0, 0, 0, 0, 0, 0, 0, 1, 107, 0, 0, 255, 0, 0, 0, 0, 11, 104, 109, 97, 99, 45, 115,
   104, 97, 50, 53, 54, 0, 0, 0, 0, 0, 3, 232, 1, 44, 0, 0, 0, 0]

/-- Its HMAC-SHA256 under the secret. -/
def updateMac : Octets :=
  [162, 86, 86, 160, 160, 42, 225, 182, 118, 203, 85, 180, 23, 138, 75, 208, 206, 212, 218, 203, 187,
   138, 204, 28, 1, 119, 152, 29, 232, 159, 67, 204]

/-- Agrees with HMAC on that input, the only one it is asked about. -/
def updateHmac : Hmac := fun hash secret text =>
  if hash = .sha256 ∧ secret = [0x73] ∧ text = updateText then updateMac else []

/-- The signed message with the first `n` octets of the MAC. -/
def updateWire (n : Nat) : Octets :=
  [0, 1, 40, 0, 0, 0, 0, 0, 0, 0, 0, 1, 1, 107, 0, 0, 250, 0, 255, 0, 0, 0, 0] ++
    octets16 (UInt16.ofNat (29 + n)) ++
    [11, 104, 109, 97, 99, 45, 115, 104, 97, 50, 53, 54, 0, 0, 0, 0, 0, 3, 232, 1, 44] ++
    octets16 (UInt16.ofNat n) ++ updateMac.take n ++ [0, 1, 0, 0, 0, 0]

def updateCall (n : Nat) : Call := ⟨updateWire n, none, 1000, 300, false⟩

/-- The history of the message sent with MACs of these lengths. -/
def updateHistory (lengths : List Nat) : History :=
  lengths.foldl (fun h n => h.next updateHmac updateKeyring (updateCall n))
    ⟨ReplayWindow.fresh 4096, [], 1000⟩

theorem updateKeyring_filed : Filed updateKeyring := by
  unfold Filed
  decide +kernel

/-- The first message is spared, and so is the same message sent again. -/
theorem spared_of_same {hmac : Hmac} {keyring : Dict Text TsigKey} {limit : Int} {h : History}
    {c : Call} (same : ∀ e ∈ h.accepted, c.present keyring = some e)
    (room : h.window.seen.size < h.window.maxKeys) : Spared hmac keyring limit h c := by
  have equal {a e : Accepted} (shown : Admissible hmac keyring h c a) (held : e ∈ h.accepted) :
      e = a := by
    have other := same e held
    rw [shown.shown] at other
    exact (Option.some.inj other).symm
  refine ⟨?_, ?_, ?_⟩
  · intro a shown e held _
    rw [equal shown held]
    exact ⟨rfl, rfl, rfl, rfl⟩
  · intro a shown novel e held
    exact absurd (congrArg Accepted.content (equal shown held)) (novel e held)
  · intro a _ _ full
    exact absurd room (not_lt.mpr full)

/-- No content is accepted twice in a run whose calls spare the window. -/
theorem acceptedOnce_of_spared {hmac : Hmac} {keyring : Dict Text TsigKey} {limit : Int}
    {h : History} (filed : Filed keyring)
    (run : Run hmac keyring limit (Spared hmac keyring limit) h) : AcceptedOnce h :=
  (invariant_of_run filed run).once

theorem acceptedOnce_update :
    (updateHistory [32, 32]).accepted.length = 1 ∧ AcceptedOnce (updateHistory [32, 32]) := by
  have first : Run updateHmac updateKeyring 300 (Spared updateHmac updateKeyring 300)
      (updateHistory [32]) :=
    (Run.start 4096 1000).call (updateCall 32) le_rfl le_rfl
      (spared_of_same (fun e held => (by cases held)) (by decide))
  have second : Run updateHmac updateKeyring 300 (Spared updateHmac updateKeyring 300)
      (updateHistory [32, 32]) :=
    first.call (updateCall 32) (by decide +kernel) le_rfl
      (spared_of_same (by decide +kernel) (by decide +kernel))
  exact ⟨by decide +kernel, acceptedOnce_of_spared updateKeyring_filed second⟩

/-- The same message with its MAC cut to half is accepted again. -/
theorem accepted_again : ¬ ∀ (keyring : Dict Text TsigKey) (limit : Int) (h : History),
    Filed keyring → Run updateHmac keyring limit (fun _ _ => True) h → AcceptedOnce h := by
  intro claim
  have run : Run updateHmac updateKeyring 300 (fun _ _ => True) (updateHistory [32, 16]) :=
    ((Run.start 4096 1000).call (updateCall 32) le_rfl le_rfl trivial).call (updateCall 16) (by decide +kernel)
      le_rfl trivial
  have once := claim updateKeyring 300 _ updateKeyring_filed run
  have contents : ((updateHistory [32, 16]).accepted.map Accepted.content).Pairwise (· ≠ ·) :=
    List.pairwise_map.mpr once
  exact absurd contents (by decide +kernel)

end Trench.AuthZone
