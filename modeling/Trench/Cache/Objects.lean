import Mathlib
import Trench.Lib.Heap
import Trench.Cache.Cache

set_option autoImplicit false

/- Messages as objects that can be edited: the section lists, the OPT and its list of
options are cells of their own, which two messages could share. Records are never edited in
place, so that they are plain values. -/
namespace Trench.Cache

open Wire

inductive Kind where
  | questions
  | records
  | options
  | edns
  | message
  deriving DecidableEq

structure EdnsObject where
  udpSize : UInt16
  extRcode : UInt8
  version : UInt8
  flags : UInt16
  options : Nat

structure MessageObject where
  id : UInt16
  flags : UInt16
  questions : Nat
  answers : Nat
  authority : Nat
  additional : Nat
  edns : Option Nat

@[reducible] def Kind.Value : Kind → Type
  | .questions => List Question
  | .records => List RR
  | .options => List (UInt16 × Octets)
  | .edns => EdnsObject
  | .message => MessageObject

abbrev Memory := Heap Kind Kind.Value

/-- Before anything is made. -/
def Memory.blank : Memory where
  next := 0
  cell
    | .questions, _ => []
    | .records, _ => []
    | .options, _ => []
    | .edns, _ => ⟨0, 0, 0, 0, 0⟩
    | .message, _ => ⟨0, 0, 0, 0, 0, 0, none⟩

/-! ### What a message reads as -/

def viewEdns (h : Memory) (e : Nat) : Edns :=
  let o := h.cell .edns e
  ⟨o.udpSize, o.extRcode, o.version, o.flags, h.cell .options o.options⟩

def view (h : Memory) (r : Nat) : Message :=
  let o := h.cell .message r
  { id := o.id
    flags := o.flags
    questions := h.cell .questions o.questions
    answers := h.cell .records o.answers
    authority := h.cell .records o.authority
    additional := h.cell .records o.additional
    edns := o.edns.map (viewEdns h) }

def reachEdns (h : Memory) (e : Nat) : List Nat := [e, (h.cell .edns e).options]

/-- The cells of a message. -/
def reach (h : Memory) (r : Nat) : List Nat :=
  let o := h.cell .message r
  [r, o.questions, o.answers, o.authority, o.additional] ++ o.edns.elim [] (reachEdns h)

/-- A message reads the same as long as its own cells do. -/
theorem view_congr {h h' : Memory} {r : Nat} (same : ∀ c ∈ reach h r, ∀ k, h'.cell k c = h.cell k c) :
    view h' r = view h r ∧ reach h' r = reach h r := by
  have own := same r (by simp [reach]) .message
  have questions := same (h.cell .message r).questions (by simp [reach]) .questions
  have answers := same (h.cell .message r).answers (by simp [reach]) .records
  have authority := same (h.cell .message r).authority (by simp [reach]) .records
  have additional := same (h.cell .message r).additional (by simp [reach]) .records
  cases opt : (h.cell .message r).edns with
  | none =>
      constructor
      · simp only [view, own, questions, answers, authority, additional, opt, Option.map_none]
      · simp only [reach, own, opt, Option.elim_none]
  | some e =>
      have edns := same e (by simp [reach, reachEdns, opt]) .edns
      have options := same (h.cell .edns e).options (by simp [reach, reachEdns, opt]) .options
      constructor
      · simp only [view, viewEdns, own, questions, answers, authority, additional, opt,
          Option.map_some, edns, options]
      · simp only [reach, reachEdns, own, opt, Option.elim_some, edns]

/-! ### New messages -/

/-- `_copy_edns`: a new OPT with a list of its own. -/
def buildEdns (h : Memory) : Option Edns → Memory × Option Nat
  | none => (h, none)
  | some e =>
      let (h, options) := h.alloc .options e.options
      let (h, dup) := h.alloc .edns ⟨e.udpSize, e.extRcode, e.version, e.flags, options⟩
      (h, some dup)

/-- A message with new lists for its sections and a new OPT. -/
def build (h : Memory) (m : Message) : Memory × Nat :=
  let (h, questions) := h.alloc .questions m.questions
  let (h, answers) := h.alloc .records m.answers
  let (h, authority) := h.alloc .records m.authority
  let (h, additional) := h.alloc .records m.additional
  let (h, edns) := buildEdns h m.edns
  h.alloc .message ⟨m.id, m.flags, questions, answers, authority, additional, edns⟩

/-- A copy with lists of its own, of what the message holds now. -/
def detach (h : Memory) (r : Nat) : Memory × Nat := build h (view h r)

/-- `_with_ttl` on an object. -/
def retime (h : Memory) (r : Nat) (ttl : Int) : Memory × Nat := build h (withTtl (view h r) ttl)

theorem grows_buildEdns (h : Memory) (e : Option Edns) : h.Grows (buildEdns h e).1 := by
  cases e with
  | none => exact .refl h
  | some e => exact (h.grows_alloc ..).trans (Heap.grows_alloc ..)

theorem grows_build (h : Memory) (m : Message) : h.Grows (build h m).1 :=
  (h.grows_alloc ..).trans <| (Heap.grows_alloc ..).trans <| (Heap.grows_alloc ..).trans <|
    (Heap.grows_alloc ..).trans <| (grows_buildEdns ..).trans (Heap.grows_alloc ..)

/-- What was built reads as it should, and all its cells are new. -/
theorem build_spec (h : Memory) (m : Message) :
    view (build h m).1 (build h m).2 = m ∧
      ∀ c ∈ reach (build h m).1 (build h m).2, h.next ≤ c ∧ c < (build h m).1.next := by
  obtain ⟨id, flags, questions, answers, authority, additional, edns⟩ := m
  cases edns with
  | none =>
      constructor
      · simp [view, build, buildEdns, Heap.alloc, Heap.set]
      · simp [reach, build, buildEdns, Heap.alloc, Heap.set]
        omega
  | some e =>
      constructor
      · simp [view, viewEdns, build, buildEdns, Heap.alloc, Heap.set]
      · simp [reach, reachEdns, build, buildEdns, Heap.alloc, Heap.set]
        omega

theorem view_build (h : Memory) (m : Message) : view (build h m).1 (build h m).2 = m := (build_spec h m).1

/-- A message of before reads as before. -/
theorem view_of_grows {h h' : Memory} (grows : h.Grows h') {r : Nat} (old : ∀ c ∈ reach h r, c < h.next) :
    view h' r = view h r ∧ reach h' r = reach h r :=
  view_congr fun c held k => grows.same k c (old c held)

end Trench.Cache
