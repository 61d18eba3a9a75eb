import Mathlib
import Trench.Wire.Size
import Trench.AuthZone.Secondary
import Trench.AuthZone.TransferAgree

set_option autoImplicit false

/- Where the messages of a transfer end, and when its receiver takes it to be complete. -/
namespace Trench.AuthZone

open Wire

/-! ### What framing asks for -/

/-- What the loop of `transfer_records` has after some messages. -/
def received (messages : List Message) : List RR := messages.flatMap carried

/-- The messages carry the stream, are complete only together, and fit their limit. -/
structure Framed (stream : List RR) (messages : List Message) : Prop where
  whole : messages.flatMap Message.answers = stream
  timely : ∀ front, front <+: messages → front ≠ [] →
    ixfrComplete (received front) = .ok (decide (front = messages))
  sized : ∀ m ∈ messages, ∃ wire, m.toWire = .ok wire ∧ wire.length ≤ maxMsgBytes

/-- A batch fits in one envelope. -/
def Fits (query : Message) (batch : List RR) : Prop :=
  ∃ wire, (envelope query batch).toWire = .ok wire ∧ wire.length ≤ maxMsgBytes

/-- Every record fits in an envelope of its own. -/
def EachFits (query : Message) (stream : List RR) : Prop := ∀ rr ∈ stream, Fits query [rr]

/-- The records that the receiver keeps. -/
def kept (rrs : List RR) : List RR := rrs.filter fun rr => rr.rtype ≠ RRType.tsig

/-- The records of the first batch that are left when it was halved some times. -/
def leading (stream : List RR) (halvings : Nat) : List RR :=
  stream.take (min rrsPerMsg stream.length / 2 ^ halvings)

/-- The first batch fits while it has a second record beside the SOA. -/
def Paired (query : Message) (stream : List RR) : Prop :=
  stream.length = 1 ∨ ∃ i, Fits query (leading stream i) ∧ 2 ≤ (kept (leading stream i)).length

/-! ### Batches -/

/-- What flushing makes of a list of records. -/
structure Flushed (query : Message) (batch : List RR) (messages : List Message) : Prop where
  whole : messages.flatMap Message.answers = batch
  each : ∀ m ∈ messages, ∃ part, part ≠ [] ∧ m = envelope query part ∧
    (part.length = 1 ∨ Fits query part)

theorem Flushed.single {query : Message} {batch : List RR} (some : batch ≠ [])
    (alone : batch.length = 1 ∨ Fits query batch) : Flushed query batch [envelope query batch] where
  whole := List.append_nil batch
  each := by
    intro m held
    rw [List.mem_singleton.mp held]
    exact ⟨batch, some, rfl, alone⟩

theorem Flushed.append {query : Message} {front back : List RR} {first second : List Message}
    (left : Flushed query front first) (right : Flushed query back second) :
    Flushed query (front ++ back) (first ++ second) where
  whole := by rw [List.flatMap_append, left.whole, right.whole]
  each := by
    intro m held
    rcases List.mem_append.mp held with held | held
    · exact left.each m held
    · exact right.each m held

/-- The first message carries the batch halved as often as it must be. -/
def Opens (query : Message) (batch : List RR) (messages : List Message) : Prop :=
  ∃ i rest, messages = envelope query (batch.take (batch.length / 2 ^ i)) :: rest ∧
    ∀ j, Fits query (batch.take (batch.length / 2 ^ j)) → i ≤ j

theorem Opens.self (query : Message) (batch : List RR) : Opens query batch [envelope query batch] := by
  refine ⟨0, [], ?_, fun j _ => Nat.zero_le j⟩
  rw [Nat.pow_zero, Nat.div_one, List.take_length]

theorem flush_flushed {query : Message} {batch : List RR} {messages : List Message}
    (some : batch ≠ []) (run : flush query batch = .ok messages) :
    Flushed query batch messages ∧ Opens query batch messages := by
  fun_induction flush query batch generalizing messages with
  | case1 batch short =>
      cases run
      have one : batch.length = 1 :=
        Nat.le_antisymm short (List.length_pos_iff.mpr some)
      exact ⟨.single some (.inl one), .self query batch⟩
  | case2 batch long ihFront ihBack =>
      obtain ⟨wire, written, run⟩ := bind_eq_ok.mp run
      split at run
      · next fits =>
          cases run
          exact ⟨.single some (.inr ⟨wire, written, fits⟩), .self query batch⟩
      · next big =>
          obtain ⟨front, first, run⟩ := bind_eq_ok.mp run
          obtain ⟨back, second, run⟩ := bind_eq_ok.mp run
          cases run
          have half : (batch.take (batch.length / 2)).length = batch.length / 2 := by
            rw [List.length_take]
            omega
          have someFront : batch.take (batch.length / 2) ≠ [] := by
            intro empty
            rw [empty, List.length_nil] at half
            omega
          have someBack : batch.drop (batch.length / 2) ≠ [] := by
            intro empty
            have length := congrArg List.length empty
            rw [List.length_drop, List.length_nil] at length
            omega
          obtain ⟨left, i, rest, opened, least⟩ := ihFront someFront first
          obtain ⟨right, _⟩ := ihBack someBack second
          have both := left.append right
          rw [List.take_append_drop] at both
          have halved (k : Nat) : (batch.take (batch.length / 2)).take (batch.length / 2 / 2 ^ k) =
              batch.take (batch.length / 2 ^ (k + 1)) := by
            rw [List.take_take, Nat.min_eq_left (Nat.div_le_self _ _), Nat.div_div_eq_div_mul,
              ← Nat.pow_succ']
          rw [half] at opened least
          refine ⟨both, i + 1, rest ++ back, ?_, ?_⟩
          · rw [opened, halved]
            rfl
          · intro j fits
            cases j with
            | zero =>
                obtain ⟨other, again, less⟩ := fits
                rw [Nat.pow_zero, Nat.div_one, List.take_length, written] at again
                cases again
                exact absurd less big
            | succ j =>
                rw [← halved] at fits
                exact Nat.succ_le_succ (least j fits)

theorem envelope_plain (query : Message) (batch : List RR) :
    (envelope query batch).authority = [] ∧ (envelope query batch).additional = [] := by
  obtain ⟨_, authority, additional⟩ := query.reply_plain 0
  exact ⟨authority, additional⟩

theorem toWire_envelope {query : Message} {batch : List RR}
    (emits : ∀ rr ∈ batch, ∀ w, rr.rdata.emit w = .ok (w.raw rr.rdata.octets)) :
    ∃ wire, (envelope query batch).toWire = .ok wire :=
  Message.toWire_emits (m := envelope query batch) (envelope_plain query batch).1
    (envelope_plain query batch).2 emits

/-- Records that can be written are flushed. -/
theorem flush_runs (query : Message) (batch : List RR)
    (emits : ∀ rr ∈ batch, ∀ w, rr.rdata.emit w = .ok (w.raw rr.rdata.octets)) :
    ∃ messages, flush query batch = .ok messages := by
  fun_induction flush query batch with
  | case1 batch short => exact ⟨_, rfl⟩
  | case2 batch long ihFront ihBack =>
      obtain ⟨wire, written⟩ := toWire_envelope emits
      rw [written]
      by_cases fits : wire.length ≤ maxMsgBytes
      · exact ⟨[envelope query batch], by
          change (if wire.length ≤ maxMsgBytes then _ else _) = _
          rw [if_pos fits]
          rfl⟩
      · obtain ⟨front, first⟩ := ihFront fun rr held => emits rr (List.mem_of_mem_take held)
        obtain ⟨back, second⟩ := ihBack fun rr held => emits rr (List.mem_of_mem_drop held)
        refine ⟨front ++ back, ?_⟩
        change (if wire.length ≤ maxMsgBytes then _ else _) = _
        rw [if_neg fits, first]
        change (flush query (batch.drop (batch.length / 2)) >>= _) = _
        rw [second]
        rfl

/-! ### The whole stream -/

theorem chunkFrom_flushed {query : Message} {batch rest : List RR} {messages : List Message}
    (short : batch.length < rrsPerMsg) (run : chunkFrom query batch rest = .ok messages) :
    Flushed query (batch ++ rest) messages ∧
      (batch ++ rest ≠ [] → ∃ i more, messages = envelope query (leading (batch ++ rest) i) :: more ∧
        ∀ j, Fits query (leading (batch ++ rest) j) → i ≤ j) := by
  have begun {full : List RR} {tail : List RR} {first more : List Message}
      (opens : Opens query full first) (width : min rrsPerMsg (full ++ tail).length = full.length) :
      ∃ i rest, first ++ more = envelope query (leading (full ++ tail) i) :: rest ∧
        ∀ j, Fits query (leading (full ++ tail) j) → i ≤ j := by
    have lead (k : Nat) : leading (full ++ tail) k = full.take (full.length / 2 ^ k) := by
      rw [leading, width, List.take_append_of_le_length (Nat.div_le_self _ _)]
    obtain ⟨i, rest, opened, least⟩ := opens
    refine ⟨i, rest ++ more, ?_, fun j fits => ?_⟩
    · rw [opened, lead]
      rfl
    · rw [lead] at fits
      exact least j fits
  induction rest generalizing batch messages with
  | nil =>
      rw [chunkFrom] at run
      split at run
      · next empty =>
          cases run
          rw [empty]
          exact ⟨⟨rfl, fun m held => by cases held⟩, fun some => absurd rfl some⟩
      · next some =>
          obtain ⟨flushed, opens⟩ := flush_flushed some run
          rw [List.append_nil]
          refine ⟨flushed, fun _ => ?_⟩
          have width : min rrsPerMsg (batch ++ []).length = batch.length := by
            rw [List.append_nil]
            omega
          have start := @begun batch [] messages [] opens width
          rwa [List.append_nil, List.append_nil] at start
  | cons rr rest ih =>
      rw [chunkFrom] at run
      have split' : batch ++ rr :: rest = (batch ++ [rr]) ++ rest := by
        rw [List.append_assoc, List.singleton_append]
      rw [split']
      split at run
      · next under => exact ih under run
      · next full =>
          obtain ⟨first, flushed, run⟩ := bind_eq_ok.mp run
          obtain ⟨more, later, run⟩ := bind_eq_ok.mp run
          cases run
          have some : batch ++ [rr] ≠ [] := List.append_ne_nil_of_right_ne_nil _ (List.cons_ne_nil _ _)
          obtain ⟨left, opens⟩ := flush_flushed some flushed
          obtain ⟨right, _⟩ := @ih [] _ (by decide) later
          refine ⟨left.append right, fun _ => begun opens ?_⟩
          rw [List.length_append, List.length_append, List.length_singleton] at *
          omega

theorem chunkFrom_runs (query : Message) (batch rest : List RR)
    (emits : ∀ rr ∈ batch ++ rest, ∀ w, rr.rdata.emit w = .ok (w.raw rr.rdata.octets)) :
    ∃ messages, chunkFrom query batch rest = .ok messages := by
  induction rest generalizing batch with
  | nil =>
      rw [chunkFrom]
      split
      · exact ⟨[], rfl⟩
      · rw [List.append_nil] at emits
        exact flush_runs query batch emits
  | cons rr rest ih =>
      have split' : batch ++ rr :: rest = (batch ++ [rr]) ++ rest := by
        rw [List.append_assoc, List.singleton_append]
      rw [split'] at emits
      rw [chunkFrom]
      split
      · exact ih (batch ++ [rr]) emits
      · obtain ⟨full, flushed⟩ :=
          flush_runs query (batch ++ [rr]) fun other held => emits other (List.mem_append_left _ held)
        obtain ⟨more, later⟩ := ih [] fun other held => emits other (List.mem_append_right _ held)
        refine ⟨full ++ more, ?_⟩
        rw [flushed]
        change (chunkFrom query [] rest >>= _) = _
        rw [later]
        rfl

/-! ### Completion -/

/-- An SOA record with the serial. -/
def Marks (rr : RR) (serial : Int) : Prop := rr.rtype = RRType.soa ∧ serialOf rr = .ok serial

/-- SOA records have SOA data. -/
def Legible (rrs : List RR) : Prop :=
  ∀ rr ∈ rrs, rr.rtype = RRType.soa → ∃ serial, serialOf rr = .ok serial

/-- The serials of the SOA records. -/
def soaSerials (rrs : List RR) : List Int :=
  rrs.filterMap fun rr => if rr.rtype = RRType.soa then (serialOf rr).toOption else none

theorem soaSerials_append (xs ys : List RR) :
    soaSerials (xs ++ ys) = soaSerials xs ++ soaSerials ys := List.filterMap_append

theorem soaSerials_marks {rr : RR} {serial : Int} (marks : Marks rr serial) (rest : List RR) :
    soaSerials (rr :: rest) = serial :: soaSerials rest := by
  rw [soaSerials, List.filterMap_cons, if_pos marks.1, marks.2]
  rfl

theorem soaSerials_plain {rrs : List RR} (plain : ∀ rr ∈ rrs, rr.rtype ≠ RRType.soa) :
    soaSerials rrs = [] := by
  rw [soaSerials, List.filterMap_eq_nil_iff]
  intro rr held
  rw [if_neg (plain rr held)]

theorem soaSerials_kept (rrs : List RR) : soaSerials (kept rrs) = soaSerials rrs := by
  induction rrs with
  | nil => rfl
  | cons rr rest ih =>
      by_cases signature : rr.rtype = RRType.tsig
      · have other : rr.rtype ≠ RRType.soa := by
          rw [signature]
          decide
        rw [kept, List.filter_cons_of_neg (by simp [signature]), soaSerials, soaSerials,
          List.filterMap_cons, if_neg other]
        exact ih
      · rw [kept, List.filter_cons_of_pos (by simp [signature]), soaSerials, soaSerials,
          List.filterMap_cons, List.filterMap_cons]
        split
        · exact ih
        · exact congrArg _ ih

theorem Legible.cons {rr : RR} {rest : List RR} {serial : Int} (marks : Marks rr serial)
    (legible : Legible rest) : Legible (rr :: rest) := by
  intro other held isSoa
  rcases List.mem_cons.mp held with rfl | held
  · exact ⟨serial, marks.2⟩
  · exact legible other held isSoa

theorem countSerial_eq {rrs : List RR} (legible : Legible rrs) (serial : Int) :
    countSerial serial rrs = .ok ((soaSerials rrs).count serial) := by
  induction rrs with
  | nil => rfl
  | cons rr rest ih =>
      have later := ih fun other held => legible other (List.mem_cons_of_mem _ held)
      rw [countSerial]
      by_cases isSoa : rr.rtype = RRType.soa
      · obtain ⟨here, known⟩ := legible rr List.mem_cons_self isSoa
        rw [if_pos isSoa, known, later, soaSerials_marks ⟨isSoa, known⟩, List.count_cons]
        change Except.ok (if here = serial then _ else _) = _
        by_cases same : here = serial
        · rw [if_pos same, if_pos (beq_iff_eq.mpr same)]
        · rw [if_neg same, if_neg (mt beq_iff_eq.mp same)]
          rfl
      · rw [if_neg isSoa, later, soaSerials, soaSerials, List.filterMap_cons, if_neg isSoa]

/-- How many SOA records of the new serial end a response with this second record. -/
def needed (serial : Int) (second : RR) : Nat :=
  if second.rtype = RRType.soa ∧ serialOf second ≠ .ok serial then 3 else 2

theorem ixfrComplete_eq {head second : RR} {rest : List RR} {serial : Int} (opens : Marks head serial)
    (legible : Legible (second :: rest)) : ixfrComplete (head :: second :: rest) =
      .ok (!((second :: rest).getLast?.any fun rr => rr.rtype ≠ RRType.soa) &&
        decide (needed serial second ≤ (soaSerials (second :: rest)).count serial + 1)) := by
  have count := countSerial_eq (Legible.cons opens legible) serial
  rw [soaSerials_marks opens, List.count_cons_self] at count
  unfold ixfrComplete
  change (if head.rtype ≠ RRType.soa then _ else _) = _
  rw [if_neg (not_not.mpr opens.1), opens.2]
  change (countSerial serial (head :: second :: rest) >>= _) = _
  rw [count]
  change (if ((head :: second :: rest).getLast?.any fun rr => rr.rtype ≠ RRType.soa) = true then _ else _) = _
  rw [List.getLast?_cons_cons]
  cases (second :: rest).getLast?.any fun rr => rr.rtype ≠ RRType.soa with
  | true => rfl
  | false =>
      rw [if_neg Bool.false_ne_true, Bool.not_false, Bool.true_and, needed]
      by_cases isSoa : second.rtype = RRType.soa
      · obtain ⟨here, known⟩ := legible second List.mem_cons_self isSoa
        rw [if_pos isSoa, known]
        change Except.ok (decide ((if here ≠ serial then 3 else 2) ≤ _)) = _
        by_cases same : here = serial
        · rw [if_neg (not_not.mpr same), if_neg fun both => both.2 (congrArg _ same)]
        · rw [if_pos same, if_pos ⟨isSoa, fun equal => same (Except.ok.inj equal)⟩]
      · rw [if_neg isSoa, if_neg fun both => isSoa both.1]
        rfl

/-! ### Streams -/

/-- The streams whose SOA records are their markers: one SOA, a whole zone between two,
or a delta, in which just one step leads to the new serial. -/
inductive Marked (serial : Int) : List RR → Prop where
  | current {head : RR} (opens : Marks head serial) : Marked serial [head]
  | whole {head last : RR} {inner : List RR} (opens : Marks head serial) (closes : Marks last serial)
      (plain : ∀ rr ∈ inner, rr.rtype ≠ RRType.soa) : Marked serial (head :: (inner ++ [last]))
  | delta {head second last : RR} {inner : List RR} {old : Int} (opens : Marks head serial)
      (closes : Marks last serial) (starts : Marks second old) (differ : old ≠ serial)
      (legible : Legible inner) (once : (soaSerials inner).count serial = 1) :
      Marked serial (head :: second :: (inner ++ [last]))

theorem kept_cons_of_marks {rr : RR} {serial : Int} (marks : Marks rr serial) (rest : List RR) :
    kept (rr :: rest) = rr :: kept rest := by
  have other : rr.rtype ≠ RRType.tsig := by
    rw [marks.1]
    decide
  exact List.filter_cons_of_pos (p := fun rr : RR => decide (rr.rtype ≠ RRType.tsig))
    (decide_eq_true other)

theorem kept_append (xs ys : List RR) : kept (xs ++ ys) = kept xs ++ kept ys := List.filter_append ..

theorem mem_of_mem_kept {rrs : List RR} {rr : RR} (held : rr ∈ kept rrs) : rr ∈ rrs :=
  (List.mem_filter.mp held).1

theorem Legible.kept {rrs : List RR} (legible : Legible rrs) : Legible (kept rrs) :=
  fun rr held => legible rr (mem_of_mem_kept held)

theorem legible_of_plain {rrs : List RR} (plain : ∀ rr ∈ rrs, rr.rtype ≠ RRType.soa) : Legible rrs :=
  fun rr held isSoa => absurd isSoa (plain rr held)

theorem Legible.append {xs ys : List RR} (left : Legible xs) (right : Legible ys) : Legible (xs ++ ys) := by
  intro rr held
  rcases List.mem_append.mp held with held | held
  · exact left rr held
  · exact right rr held

theorem needed_of_ne {serial old : Int} {second : RR} (starts : Marks second old) (differ : old ≠ serial) :
    needed serial second = 3 := by
  rw [needed, if_pos]
  refine ⟨starts.1, ?_⟩
  rw [starts.2]
  exact fun same => differ (Except.ok.inj same)

/-- The whole of a marked stream is complete. -/
theorem Marked.complete {serial : Int} {stream : List RR} (marked : Marked serial stream) :
    ixfrComplete (kept stream) = .ok true := by
  have ends (rest : List RR) {last : RR} (closes : Marks last serial) :
      ((rest ++ [last]).getLast?.any fun rr => rr.rtype ≠ RRType.soa) = false := by
    rw [List.getLast?_concat, Option.any_some, closes.1]
    rfl
  have closing {last : RR} (closes : Marks last serial) : Legible [last] :=
    Legible.cons closes fun rr held => by cases held
  cases marked with
  | current opens =>
      rw [kept_cons_of_marks opens]
      change ixfrComplete [_] = _
      unfold ixfrComplete
      change (if _ ≠ RRType.soa then _ else _) = _
      rw [if_neg (not_not.mpr opens.1), opens.2]
      change (countSerial serial [_] >>= _) = _
      rw [countSerial_eq (Legible.cons opens fun rr held => by cases held)]
      rfl
  | @whole head last inner opens closes plain =>
      have last' : kept [last] = [last] := kept_cons_of_marks closes []
      rw [kept_cons_of_marks opens, kept_append, last']
      have legible := (legible_of_plain plain).kept.append (closing closes)
      have count : (soaSerials (kept inner ++ [last])).count serial = 1 := by
        rw [soaSerials_append, soaSerials_kept, soaSerials_plain plain, List.nil_append,
          soaSerials_marks closes]
        exact List.count_cons_self
      obtain ⟨second, rest, shape⟩ : ∃ second rest, kept inner ++ [last] = second :: rest :=
        List.exists_cons_of_ne_nil (List.append_ne_nil_of_right_ne_nil _ (List.cons_ne_nil _ _))
      have two : needed serial second = 2 := by
        rw [needed, if_neg]
        intro ⟨isSoa, differ⟩
        have held : second ∈ kept inner ++ [last] := by
          rw [shape]
          exact List.mem_cons_self
        rcases List.mem_append.mp held with held | held
        · exact plain second (mem_of_mem_kept held) isSoa
        · rw [List.mem_singleton.mp held] at differ
          exact differ closes.2
      have tail := ends (kept inner) closes
      rw [shape] at legible count tail ⊢
      rw [ixfrComplete_eq opens legible, tail, two, count]
      rfl
  | @delta head second last inner old opens closes starts differ legible once =>
      have last' : kept [last] = [last] := kept_cons_of_marks closes []
      rw [kept_cons_of_marks opens, kept_cons_of_marks starts, kept_append, last']
      have count : (soaSerials (second :: (kept inner ++ [last]))).count serial = 2 := by
        rw [soaSerials_marks starts, List.count_cons_of_ne differ, soaSerials_append, soaSerials_kept,
          List.count_append, once, soaSerials_marks closes, List.count_cons_self]
        rfl
      have tail := ends (second :: kept inner) closes
      rw [List.cons_append] at tail
      rw [ixfrComplete_eq opens (Legible.cons starts (legible.kept.append (closing closes))), tail,
        needed_of_ne starts differ, count]
      rfl

theorem eq_or_prefix_of_concat {α : Type} {part inner : List α} {last : α}
    (front : part <+: inner ++ [last]) : part = inner ++ [last] ∨ part <+: inner :=
  List.prefix_concat_iff.mp front

/-- A part of a marked stream is not, once it holds a second record. -/
theorem Marked.incomplete {serial : Int} {stream part : List RR} (marked : Marked serial stream)
    (front : part <+: stream) (proper : part ≠ stream) (two : 2 ≤ (kept part).length) :
    ixfrComplete (kept part) = .ok false := by
  cases part with
  | nil => exact absurd two (by decide)
  | cons first part =>
      cases marked with
      | current opens =>
          obtain ⟨rfl, short⟩ := List.cons_prefix_cons.mp front
          rw [List.prefix_nil.mp short] at proper
          exact absurd rfl proper
      | @whole head last inner opens closes plain =>
          obtain ⟨rfl, short⟩ := List.cons_prefix_cons.mp front
          have inside := (eq_or_prefix_of_concat short).resolve_left fun same => proper (by rw [same])
          rw [kept_cons_of_marks opens] at two ⊢
          have plainPart : ∀ rr ∈ kept part, rr.rtype ≠ RRType.soa :=
            fun rr held => plain rr (inside.subset (mem_of_mem_kept held))
          obtain ⟨second, rest, shape⟩ : ∃ second rest, kept part = second :: rest := by
            apply List.exists_cons_of_ne_nil
            intro empty
            rw [empty, List.length_singleton] at two
            omega
          rw [shape] at plainPart ⊢
          rw [ixfrComplete_eq opens (legible_of_plain plainPart)]
          have some : (second :: rest).getLast? ≠ none := by
            rw [ne_eq, List.getLast?_eq_none_iff]
            exact List.cons_ne_nil _ _
          obtain ⟨last', found⟩ := Option.ne_none_iff_exists'.mp some
          have differ := plainPart last' (List.mem_of_getLast? found)
          rw [found, Option.any_some, decide_eq_true differ]
          rfl
      | @delta head second last inner old opens closes starts differ legible once =>
          obtain ⟨rfl, short⟩ := List.cons_prefix_cons.mp front
          rw [kept_cons_of_marks opens] at two ⊢
          cases part with
          | nil =>
              change 2 ≤ [first].length at two
              rw [List.length_singleton] at two
              omega
          | cons other part =>
              obtain ⟨rfl, shorter⟩ := List.cons_prefix_cons.mp short
              have inside := (eq_or_prefix_of_concat shorter).resolve_left fun same => proper (by rw [same])
              have legiblePart : Legible part := fun rr held => legible rr (inside.subset held)
              rw [kept_cons_of_marks starts,
                ixfrComplete_eq opens (Legible.cons starts legiblePart.kept), needed_of_ne starts differ,
                soaSerials_marks starts, List.count_cons_of_ne differ, soaSerials_kept]
              have few : (soaSerials part).count serial ≤ 1 := by
                obtain ⟨more, whole⟩ := inside
                rw [← whole, soaSerials_append, List.count_append] at once
                omega
              have short : ¬ 3 ≤ (soaSerials part).count serial + 1 := by omega
              rw [decide_eq_false short, Bool.and_false]

/-! ### Framing -/

theorem received_eq (messages : List Message) :
    received messages = kept (messages.flatMap Message.answers) := by
  rw [kept, List.filter_flatMap]
  rfl

theorem kept_length_le {part whole : List RR} (front : part <+: whole) :
    (kept part).length ≤ (kept whole).length := (front.filter _).length_le

theorem leading_mono {stream : List RR} {i j : Nat} (fewer : i ≤ j) :
    leading stream j <+: leading stream i := by
  rw [leading, leading]
  apply List.take_prefix_take_left
  exact Nat.div_le_div_left (Nat.pow_le_pow_right (by decide) fewer) (Nat.pow_pos (by decide))

/-- Marked streams are framed where the limit leaves room. -/
theorem framed_of_paired {query : Message} {stream : List RR} {serial : Int}
    (marked : Marked serial stream) (each : EachFits query stream) (paired : Paired query stream) :
    ∃ messages, chunkIntoMessages query stream = .ok messages ∧ Framed stream messages := by
  have some : stream ≠ [] := by
    intro empty
    rw [empty] at marked
    cases marked
  have emits : ∀ rr ∈ [] ++ stream, ∀ w, rr.rdata.emit w = .ok (w.raw rr.rdata.octets) := by
    intro rr held
    obtain ⟨wire, written, _⟩ := each rr held
    exact Message.emits_of_toWire (envelope_plain query [rr]).1 (envelope_plain query [rr]).2 written
      (List.mem_singleton.mpr rfl)
  obtain ⟨messages, run⟩ := chunkFrom_runs query [] stream emits
  obtain ⟨flushed, start⟩ := chunkFrom_flushed (by decide) run
  obtain ⟨i, more, opened, least⟩ := start some
  rw [List.nil_append] at flushed opened least
  refine ⟨messages, ?_, flushed.whole, ?_, ?_⟩
  · rw [chunkIntoMessages, if_neg some, run]
  · intro front short present
    rw [received_eq]
    by_cases all : front = messages
    · rw [all, flushed.whole, marked.complete, decide_eq_true rfl]
    · rw [decide_eq_false all]
      obtain ⟨rest, split⟩ := short
      have filled {m : Message} (held : m ∈ messages) : m.answers ≠ [] := by
        obtain ⟨part, nonempty, same, _⟩ := flushed.each m held
        rw [same]
        exact nonempty
      have parts : front.flatMap Message.answers ++ rest.flatMap Message.answers = stream := by
        rw [← List.flatMap_append, split, flushed.whole]
      have behind : rest.flatMap Message.answers ≠ [] := by
        cases rest with
        | nil =>
            rw [List.append_nil] at split
            exact absurd split all
        | cons m rest =>
            rw [List.flatMap_cons]
            apply List.append_ne_nil_of_left_ne_nil
            apply filled
            rw [← split]
            exact List.mem_append_right _ List.mem_cons_self
      have proper : front.flatMap Message.answers ≠ stream := by
        intro same
        rw [← parts] at same
        exact behind (List.append_right_eq_self.mp same.symm)
      obtain ⟨later, headed⟩ : ∃ later, front = envelope query (leading stream i) :: later := by
        cases front with
        | nil => exact absurd rfl present
        | cons m later =>
            rw [opened, List.cons_append, List.cons.injEq] at split
            exact ⟨later, by rw [split.1]⟩
      apply marked.incomplete ⟨_, parts⟩ proper
      have opening : leading stream i <+: front.flatMap Message.answers := by
        rw [headed, List.flatMap_cons]
        exact List.prefix_append _ _
      rcases paired with one | ⟨j, fits, two⟩
      · have length := congrArg List.length parts
        rw [List.length_append, one] at length
        have last := List.length_pos_iff.mpr behind
        have first : 0 < (front.flatMap Message.answers).length := by
          rw [headed, List.flatMap_cons, List.length_append]
          have nonempty : (envelope query (leading stream i)).answers ≠ [] := by
            apply filled
            rw [opened]
            exact List.mem_cons_self
          have positive := List.length_pos_iff.mpr nonempty
          omega
        omega
      · have less := kept_length_le ((leading_mono (least j fits)).trans opening)
        omega
  · intro m held
    obtain ⟨part, _, rfl, alone | fits⟩ := flushed.each m held
    · obtain ⟨rr, rfl⟩ := List.length_eq_one_iff.mp alone
      apply each
      rw [← flushed.whole, List.mem_flatMap]
      exact ⟨_, held, List.mem_singleton.mpr rfl⟩
    · exact fits

/-- And only there. -/
theorem paired_of_framed {query : Message} {stream : List RR} {messages : List Message} {head : RR}
    {serial : Int} {rest : List RR} (shape : stream = head :: rest) (opens : Marks head serial)
    (two : stream.length = 1 ∨ 2 ≤ (kept stream).length)
    (run : chunkIntoMessages query stream = .ok messages) (framed : Framed stream messages) :
    EachFits query stream ∧ Paired query stream := by
  have some : stream ≠ [] := by
    rw [shape]
    exact List.cons_ne_nil _ _
  rw [chunkIntoMessages, if_neg some] at run
  obtain ⟨flushed, start⟩ := chunkFrom_flushed (by decide) run
  obtain ⟨i, more, opened, _⟩ := start some
  rw [List.nil_append] at flushed opened
  constructor
  · intro rr held
    rw [← framed.whole, List.mem_flatMap] at held
    obtain ⟨m, listed, inside⟩ := held
    obtain ⟨wire, written, short⟩ := framed.sized m listed
    obtain ⟨part, _, rfl, _⟩ := flushed.each m listed
    obtain ⟨less, alone, smaller⟩ := Message.toWire_single_le (envelope_plain query part).1
      (envelope_plain query part).2 written inside
    exact ⟨less, alone, smaller.trans short⟩
  · rcases two with one | two
    · exact .inl one
    · have listed : envelope query (leading stream i) ∈ messages := by
        rw [opened]
        exact List.mem_cons_self
      refine .inr ⟨i, framed.sized _ listed, ?_⟩
      cases more with
      | nil =>
          have all : leading stream i = stream := by
            have whole := framed.whole
            rw [opened, List.flatMap_cons, List.flatMap_nil, List.append_nil] at whole
            exact whole
          rw [all]
          exact two
      | cons second more =>
          have early := framed.timely [envelope query (leading stream i)]
            (by rw [opened]; exact ⟨second :: more, rfl⟩) (List.cons_ne_nil _ _)
          rw [decide_eq_false (by rw [opened]; exact fun same => by cases same)] at early
          have nonempty : leading stream i ≠ [] := by
            obtain ⟨part, some, same, _⟩ := flushed.each _ listed
            have equal := congrArg Message.answers same
            change leading stream i = part at equal
            rw [equal]
            exact some
          have headed : ∃ later, leading stream i = head :: later := by
            obtain ⟨first, later, split⟩ := List.exists_cons_of_ne_nil nonempty
            have front : leading stream i <+: stream := List.take_prefix _ _
            rw [split, shape] at front
            obtain ⟨rfl, _⟩ := List.cons_prefix_cons.mp front
            exact ⟨later, split⟩
          obtain ⟨later, split⟩ := headed
          rw [received_eq, List.flatMap_cons, List.flatMap_nil, List.append_nil] at early
          change ixfrComplete (kept (leading stream i)) = _ at early
          rw [split, kept_cons_of_marks opens] at early ⊢
          cases lone : kept later with
          | nil =>
              rw [lone] at early
              have done := (Marked.current opens).complete
              rw [kept_cons_of_marks opens] at done
              change ixfrComplete [head] = _ at done
              rw [done] at early
              cases early
          | cons other rest =>
              rw [List.length_cons, List.length_cons]
              omega

/-! ### Transfers of a zone -/

namespace Zone

/-- The record stream of a transfer: of a full one, or of one from a client's serial on. -/
def transferStream (z : Zone) : Option Int → Option (List RR)
  | none => z.axfrRecords
  | some clientSerial => do
      let soa ← z.soa
      if !serialGt soa.serial clientSerial then return [z.soaSerialRecord soa soa.serial]
      else
        match if z.signed then none else z.journalDelta clientSerial with
        | none => z.axfrRecords
        | some delta => return z.ixfrRecords soa delta

def transferMessages (z : Zone) (query : Message) : Option Int → Option (Except EmitError (List Message))
  | none => z.axfrMessages query
  | some clientSerial => z.ixfrMessages query clientSerial

/-- The messages are made, and framed. -/
def FramesTransfer (z : Zone) (query : Message) (client : Option Int) : Prop :=
  ∃ stream messages, z.transferStream client = some stream ∧
    z.transferMessages query client = some (.ok messages) ∧ Framed stream messages

/-- The limit leaves room for every record, and for two in the first message. -/
def LeavesRoom (z : Zone) (query : Message) (client : Option Int) : Prop :=
  ∀ stream, z.transferStream client = some stream → EachFits query stream ∧ Paired query stream

/-- No SOA but the apex's, and a journal whose steps hold none and lead to the zone's serial
just once. -/
structure Unmixed (z : Zone) (soa : SoaData) (client : Option Int) : Prop where
  apart : ∀ name, z.slot name RRType.soa ≠ [] → (name == z.origin) = true
  plain : ∀ serial delta, client = some serial → z.journalDelta serial = some delta →
    ∀ step ∈ delta, ∀ rr ∈ step.delete ++ step.add, rr.rtype ≠ RRType.soa
  once : ∀ serial delta, client = some serial → z.journalDelta serial = some delta →
    (delta.flatMap fun step => [step.fromSerial, step.toSerial]).count soa.serial = 1

variable {z : Zone} {soa : SoaData}

theorem marks_soaSerialRecord (serial : Int) : Marks (z.soaSerialRecord soa serial) serial := ⟨rfl, rfl⟩

theorem axfrRecords_eq (there : z.soa = some soa) : z.axfrRecords =
    some (z.soaSerialRecord soa soa.serial :: ((z.names.flatMap z.nodeRecords ++
      z.sigRecord z.origin RRType.soa (z.ttlOf z.origin RRType.soa)) ++
        [z.soaSerialRecord soa soa.serial])) := by
  rw [axfrRecords, soaRecord, there]
  rfl

theorem transferStream_some (there : z.soa = some soa) (client : Option Int) :
    ∃ stream, z.transferStream client = some stream := by
  cases client with
  | none => exact ⟨_, axfrRecords_eq there⟩
  | some clientSerial =>
      rw [transferStream, there]
      change ∃ stream, (if (!serialGt soa.serial clientSerial) = true then _ else _) = some stream
      split
      · exact ⟨_, rfl⟩
      · split
        · exact ⟨_, axfrRecords_eq there⟩
        · exact ⟨_, rfl⟩

theorem chunkIntoMessages_single (query : Message) (rr : RR) :
    chunkIntoMessages query [rr] = .ok [envelope query [rr]] := by
  have one : 1 < rrsPerMsg := by decide
  rw [chunkIntoMessages, if_neg (List.cons_ne_nil _ _), chunkFrom]
  change (if 1 < rrsPerMsg then chunkFrom query [rr] [] else _) = _
  rw [if_pos one, chunkFrom, if_neg (List.cons_ne_nil _ _), flush]
  rfl

/-- Every transfer is its stream cut into messages. -/
theorem transferMessages_eq (there : z.soa = some soa) (query : Message) {client : Option Int}
    {stream : List RR} (made : z.transferStream client = some stream) :
    z.transferMessages query client = some (chunkIntoMessages query stream) := by
  have full (made : z.axfrRecords = some stream) :
      z.axfrMessages query = some (chunkIntoMessages query stream) := by rw [axfrMessages, made]; rfl
  cases client with
  | none => exact full made
  | some clientSerial =>
      rw [transferStream, there] at made
      rw [transferMessages, ixfrMessages, there]
      change (if (!serialGt soa.serial clientSerial) = true then _ else _) = some stream at made
      change (if (!serialGt soa.serial clientSerial) = true then _ else _) = some _
      split at made
      · next current =>
          cases made
          rw [if_pos current, chunkIntoMessages_single]
          rfl
      · next older =>
          rw [if_neg older]
          cases found : (if z.signed = true then none else z.journalDelta clientSerial) with
          | none =>
              rw [found] at made
              exact full made
          | some delta =>
              rw [found] at made
              cases made
              rfl

theorem plain_sigRecord (name : Name) (rtype : RRType) (ttl : Int) :
    ∀ rr ∈ z.sigRecord name rtype ttl, rr.rtype ≠ RRType.soa := by
  intro rr held
  rw [sigRecord] at held
  split at held
  · rw [List.mem_singleton.mp held]
    exact show RRType.rrsig ≠ RRType.soa by decide
  · cases held

theorem plain_nodeRecords (apart : ∀ name, z.slot name RRType.soa ≠ [] → (name == z.origin) = true)
    (name : Name) : ∀ rr ∈ z.nodeRecords name, rr.rtype ≠ RRType.soa := by
  intro rr held
  obtain ⟨rtype, _, held⟩ := List.mem_flatMap.mp held
  rw [setRecords] at held
  split at held
  · cases held
  · next other =>
      rcases List.mem_append.mp held with held | held
      · obtain ⟨rd, filled, rfl⟩ := List.mem_map.mp held
        intro isSoa
        change rtype = RRType.soa at isSoa
        rw [isSoa] at filled other
        exact other ⟨apart name (List.ne_nil_of_mem filled), rfl⟩
      · exact plain_sigRecord name rtype _ rr held

theorem legible_stepRecords (z : Zone) (soa : SoaData) {step : JournalStep}
    (plain : ∀ rr ∈ step.delete ++ step.add, rr.rtype ≠ RRType.soa) :
    Legible (z.stepRecords soa step) ∧
      soaSerials (z.stepRecords soa step) = [step.fromSerial, step.toSerial] := by
  have less : ∀ rr ∈ step.delete, rr.rtype ≠ RRType.soa := fun rr held => plain rr (List.mem_append_left _ held)
  have more : ∀ rr ∈ step.add, rr.rtype ≠ RRType.soa := fun rr held => plain rr (List.mem_append_right _ held)
  have from_ : Marks (z.soaSerialRecord soa step.fromSerial) step.fromSerial := marks_soaSerialRecord _
  have to_ : Marks (z.soaSerialRecord soa step.toSerial) step.toSerial := marks_soaSerialRecord _
  rw [stepRecords, List.cons_append]
  constructor
  · exact Legible.cons from_ ((legible_of_plain less).append (Legible.cons to_ (legible_of_plain more)))
  · rw [soaSerials_marks from_, soaSerials_append, soaSerials_plain less, List.nil_append,
      soaSerials_marks to_, soaSerials_plain more]

theorem legible_delta (z : Zone) (soa : SoaData) {delta : List JournalStep}
    (plain : ∀ step ∈ delta, ∀ rr ∈ step.delete ++ step.add, rr.rtype ≠ RRType.soa) :
    Legible (delta.flatMap (z.stepRecords soa)) ∧ soaSerials (delta.flatMap (z.stepRecords soa)) =
      delta.flatMap fun step => [step.fromSerial, step.toSerial] := by
  induction delta with
  | nil => exact ⟨fun rr held => (by cases held), rfl⟩
  | cons step rest ih =>
      obtain ⟨legible, serials⟩ := legible_stepRecords z soa (plain step List.mem_cons_self)
      obtain ⟨later, more⟩ := ih fun other held => plain other (List.mem_cons_of_mem _ held)
      rw [List.flatMap_cons, List.flatMap_cons]
      exact ⟨legible.append later, by rw [soaSerials_append, serials, more]⟩

/-- A stream begins with the zone's serial, and ends with it where it is longer. -/
theorem bracketed (there : z.soa = some soa) {client : Option Int} {stream : List RR}
    (made : z.transferStream client = some stream) :
    ∃ head rest, stream = head :: rest ∧ Marks head soa.serial ∧
      (stream.length = 1 ∨ 2 ≤ (kept stream).length) := by
  let marker := z.soaSerialRecord soa soa.serial
  have marks : Marks marker soa.serial := marks_soaSerialRecord _
  have closed (inner : List RR) : 2 ≤ (kept (marker :: (inner ++ [marker]))).length := by
    have last : kept [marker] = [marker] := kept_cons_of_marks marks []
    rw [kept_cons_of_marks marks, kept_append, last, List.length_cons, List.length_append,
      List.length_singleton]
    omega
  have full (made : z.axfrRecords = some stream) : ∃ head rest, stream = head :: rest ∧
      Marks head soa.serial ∧ (stream.length = 1 ∨ 2 ≤ (kept stream).length) := by
    rw [axfrRecords_eq there] at made
    cases made
    exact ⟨marker, _, rfl, marks, .inr (closed _)⟩
  cases client with
  | none => exact full made
  | some clientSerial =>
      rw [transferStream, there] at made
      change (if (!serialGt soa.serial clientSerial) = true then _ else _) = some stream at made
      split at made
      · cases made
        exact ⟨marker, [], rfl, marks, .inl rfl⟩
      · split at made
        · exact full made
        · cases made
          exact ⟨marker, _, rfl, marks, .inr (closed _)⟩

theorem journalDelta_head {serial : Int} {delta : List JournalStep}
    (found : z.journalDelta serial = some delta) :
    ∃ step rest, delta = step :: rest ∧ step.fromSerial = serial := by
  rw [journalDelta] at found
  split at found
  · cases found
  · next some =>
      cases found
      cases steps : z.journal.dropWhile fun step => decide (step.fromSerial ≠ serial) with
      | nil => exact absurd steps some
      | cons step rest =>
          refine ⟨step, rest, rfl, ?_⟩
          have stopped := List.head?_dropWhile_not (fun step => decide (step.fromSerial ≠ serial)) z.journal
          rw [steps] at stopped
          simpa using stopped

theorem Unmixed.marked {client : Option Int} {stream : List RR} (unmixed : z.Unmixed soa client)
    (there : z.soa = some soa) (made : z.transferStream client = some stream) :
    Marked soa.serial stream := by
  have marks : Marks (z.soaSerialRecord soa soa.serial) soa.serial := marks_soaSerialRecord _
  have full (made : z.axfrRecords = some stream) : Marked soa.serial stream := by
    rw [axfrRecords_eq there] at made
    cases made
    apply Marked.whole marks marks
    intro rr held
    rcases List.mem_append.mp held with held | held
    · obtain ⟨name, _, held⟩ := List.mem_flatMap.mp held
      exact plain_nodeRecords unmixed.apart name rr held
    · exact plain_sigRecord _ _ _ rr held
  cases client with
  | none => exact full made
  | some clientSerial =>
      rw [transferStream, there] at made
      change (if (!serialGt soa.serial clientSerial) = true then _ else _) = some stream at made
      split at made
      · cases made
        exact .current marks
      · next newer =>
          split at made
          · exact full made
          · next delta found =>
              cases made
              split at found
              · cases found
              · obtain ⟨step, rest, rfl, starts⟩ := journalDelta_head found
                have once := unmixed.once clientSerial _ rfl found
                have plain := unmixed.plain clientSerial _ rfl found
                obtain ⟨legible, serials⟩ := legible_delta z soa plain
                have old : Marks (z.soaSerialRecord soa step.fromSerial) step.fromSerial :=
                  marks_soaSerialRecord _
                have differ : step.fromSerial ≠ soa.serial := by
                  intro same
                  rw [← starts, same, serialGt, if_pos rfl] at newer
                  exact newer rfl
                rw [List.flatMap_cons, stepRecords, List.cons_append, List.cons_append] at legible serials
                rw [ixfrRecords, List.flatMap_cons, stepRecords, List.cons_append, List.cons_append,
                  List.cons_append, List.cons_append]
                apply Marked.delta marks marks old differ
                · exact fun rr held => legible rr (List.mem_cons_of_mem _ held)
                · rw [← serials, soaSerials_marks old, List.count_cons_of_ne differ] at once
                  exact once

/-- The query for a full transfer of the zones below. -/
def axfrQuery : Message := buildXfrQuery apexName RRType.axfr none 0

theorem fits_axfrQuery {batch : List RR}
    (small : ((envelope axfrQuery batch).toWire.toOption.any fun wire => wire.length ≤ maxMsgBytes) = true) :
    Fits axfrQuery batch := by
  obtain ⟨wire, written, short⟩ := (Option.any_eq_true _ _).mp small
  refine ⟨wire, ?_, of_decide_eq_true short⟩
  cases run : (envelope axfrQuery batch).toWire with
  | error e =>
      rw [run] at written
      cases written
  | ok other =>
      rw [run] at written
      cases written
      rfl

/-- A zone with one record beside its SOA. -/
def loneZone (data : Octets) : Zone := soaZone.add apexName 65280 (.unknown 65280 data)

theorem loneZone_stream (data : Octets) : (loneZone data).transferStream none =
    some [soaZone.soaSerialRecord apexSoa 1, ⟨apexName, 65280, RRClass.in, 3600, .unknown 65280 data⟩,
      soaZone.soaSerialRecord apexSoa 1] := by
  rfl

def largeZone : Zone := loneZone (List.replicate 59900 0)

theorem bodySize_unknown (name : Name) (rtype : RRType) (rclass : RRClass) (ttl : Int) (data : Octets) :
    (⟨name, rtype, rclass, ttl, .unknown rtype data⟩ : RR).bodySize = 10 + data.length := by
  rw [RR.bodySize, octets_unknown]

theorem bodySize_apex : (soaZone.soaSerialRecord apexSoa 1).bodySize = 48 := by decide +kernel

end Zone

end Trench.AuthZone
