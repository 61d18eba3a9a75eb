import Mathlib
import Trench.Lib.TwoBuffers
import Trench.Wire.MessageRoundTrip

set_option autoImplicit false

/- The key under which a reply is recorded for replay, and what queries with one key
have in common. -/

namespace Trench.Engine

open Wire

/-- The loop of `query_key` over the question's name: the place behind its root octet. -/
def questionEnd (data : Octets) : Nat → Nat → Option Nat
  | 0, _ => none
  | fuel + 1, p =>
    match data.drop p with
    | [] => none
    | ln :: _ =>
      if ln = 0 then some (p + 1)
      else if ln &&& 0xC0 ≠ 0 then none
      else questionEnd data fuel (p + ln.toNat + 1)

def flagQr : UInt16 := 0x8000

def opcodeMask : UInt16 := 0x7800

/-- The octets at these places are zero. -/
def blankAt (data : Octets) (places : List Nat) : Bool := places.all fun i => data.getD i 0 == 0

/-- `(key, question_end)` for a replayable query. -/
def queryKey (data : Octets) : Option (Octets × Nat) :=
  if data.length < 17 then none
  else
    let flags := join16 (data.getD 2 0) (data.getD 3 0)
    if flags &&& flagQr ≠ 0 ∨ flags &&& opcodeMask ≠ 0 then none
    else if data.getD 4 0 ≠ 0 ∨ data.getD 5 0 ≠ 1 then none
    else if blankAt data [6, 7, 8, 9] = false then none
    else
      match questionEnd data data.length 12 with
      | none => none
      | some p =>
        if data.length < p + 4 then none
        else some (((data.drop 12).take (p - 12)).map lowerOctet ++ (data.drop p ++
          ((data.drop 2).take 2 ++ (data.drop 10).take 2)), p)

/-! ### What one key says of two queries -/

/-- Two messages that differ in the id and in the letter case of the question's name only;
`stop` is where that name ends. -/
structure Alike (d d' : Octets) (stop : Nat) : Prop where
  shares : Cursor.Shares d d' stop
  header : ∀ i, 2 ≤ i → i < 12 → d[i]? = d'[i]?
  name : ∀ i, 12 ≤ i → i < stop → d[i]?.map lowerOctet = d'[i]?.map lowerOctet

def isLetter (c : UInt8) : Bool := (0x41 ≤ c && c ≤ 0x5A) || (0x61 ≤ c && c ≤ 0x7A)

theorem lowerOctet_cases {a b : UInt8} (same : lowerOctet a = lowerOctet b) :
    a = b ∨ isLetter a = true ∧ isLetter b = true := by
  unfold lowerOctet at same
  unfold isLetter
  simp only [Bool.or_eq_true, Bool.and_eq_true, decide_eq_true_eq, UInt8.le_iff_toNat_le] at same ⊢
  have bound := a.toNat_lt
  have bound' := b.toNat_lt
  rw [← UInt8.toNat_inj] at same ⊢
  split at same <;> split at same <;>
    simp only [UInt8.toNat_add, UInt8.reduceToNat] at * <;> omega

set_option maxRecDepth 4000 in
/-- A letter is no length octet and no pointer. -/
theorem letter_reserved (c : UInt8) (letter : isLetter c = true) :
    c ≠ 0 ∧ c &&& 0xC0 ≠ 0 ∧ c &&& 0xC0 ≠ 0xC0 := by
  revert c
  decide

theorem drop_cons_of_getElem? {d : Octets} {i : Nat} {c : UInt8} (here : d[i]? = some c) :
    d.drop i = c :: d.drop (i + 1) := by
  obtain ⟨inside, same⟩ := List.getElem?_eq_some_iff.mp here
  rw [List.drop_eq_getElem_cons inside, same]

theorem drop_nil_of_getElem? {d : Octets} {i : Nat} (here : d[i]? = none) : d.drop i = [] :=
  List.drop_eq_nil_of_le (List.getElem?_eq_none_iff.mp here)

/-- What stands at one place of both: nothing, one octet, or a letter in two cases. -/
theorem Alike.at {d d' : Octets} {stop : Nat} (alike : Alike d d' stop) {i : Nat} (behind : 2 ≤ i) :
    (d.drop i = [] ∧ d'.drop i = []) ∨
      ∃ c c', d.drop i = c :: d.drop (i + 1) ∧ d'.drop i = c' :: d'.drop (i + 1) ∧
        lowerOctet c = lowerOctet c' ∧
        (c = c' ∨ 12 ≤ i ∧ i < stop ∧ isLetter c = true ∧ isLetter c' = true) := by
  have length := alike.shares.length
  have folded : d[i]?.map lowerOctet = d'[i]?.map lowerOctet := by
    by_cases low : i < 12
    · rw [alike.header i behind low]
    · by_cases early : i < stop
      · exact alike.name i (by omega) early
      · have same := congrArg List.head? (alike.shares.drop_eq (show stop ≤ i by omega))
        rw [List.head?_drop, List.head?_drop] at same
        rw [same]
  cases here : d[i]? with
  | none =>
    left
    rw [here, Option.map_none] at folded
    exact ⟨drop_nil_of_getElem? here, drop_nil_of_getElem? (Option.map_eq_none_iff.mp folded.symm)⟩
  | some c =>
    right
    rw [here, Option.map_some] at folded
    obtain ⟨c', here', lower⟩ := Option.map_eq_some_iff.mp folded.symm
    refine ⟨c, c', drop_cons_of_getElem? here, drop_cons_of_getElem? here', lower.symm, ?_⟩
    rcases lowerOctet_cases lower.symm with same | ⟨letter, letter'⟩
    · exact .inl same
    · by_cases same : c = c'
      · exact .inl same
      · right
        refine ⟨?_, ?_, letter, letter'⟩
        · by_contra low
          have exact := alike.header i behind (by omega)
          rw [here, here'] at exact
          cases exact
          exact same rfl
        · by_contra late
          have tails := congrArg List.head? (alike.shares.drop_eq (show stop ≤ i by omega))
          rw [List.head?_drop, List.head?_drop, here, here'] at tails
          cases tails
          exact same rfl

theorem Alike.folded {d d' : Octets} {stop : Nat} (alike : Alike d d' stop) {i : Nat} (behind : 2 ≤ i)
    (n : Nat) : ((d.drop i).take n).map lowerOctet = ((d'.drop i).take n).map lowerOctet := by
  induction n generalizing i with
  | zero => rfl
  | succ n ih =>
    rcases alike.at behind with ⟨none, none'⟩ | ⟨c, c', some, some', lower, -⟩
    · rw [none, none']
    · rw [some, some', List.take_succ_cons, List.take_succ_cons, List.map_cons, List.map_cons, lower,
        ih (by omega)]

/-! ### Following a name -/

/-- The rounds of `read_name` from a place, without their result: none starts in the id, and
none takes a letter of the question's name for the low octet of a pointer. -/
def steady (data : Octets) (stop : Nat) : Nat → Nat → Nat → Nat → Bool
  | 0, _, _, _ => true
  | fuel + 1, hops, total, pos =>
    match data.drop pos with
    | [] => true
    | length :: rest =>
      if pos < 2 then false
      else if length = 0 then true
      else if length &&& 0xC0 = 0 then
        if maxName < total + length.toNat + 1 then true
        else steady data stop fuel hops (total + length.toNat + 1) (pos + 1 + length.toNat)
      else if length &&& 0xC0 = 0xC0 then
        match rest with
        | [] => true
        | low :: _ =>
          let ptr := (length &&& 0x3F).toNat * 256 + low.toNat
          if maxPointerHops < hops + 1 then true
          else if 12 ≤ pos + 1 ∧ pos + 1 < stop ∧ isLetter low = true then false
          else if pos ≤ ptr then true
          else steady data stop fuel (hops + 1) total ptr
      else true

/-- The name that starts at a place is read alike whatever the id and the letter case are. -/
def Steady (data : Octets) (stop pos : Nat) : Prop := steady data stop Reader.nameFuel 0 1 pos = true

open Reader

/-- Names that differ in letter case. -/
def SameName (a b : Name) : Prop := a.canonicalize = b.canonicalize

theorem u8_here {d : Octets} {pos : Nat} {c : UInt8} {rest : Octets} (here : d.drop pos = c :: rest) :
    u8 ⟨d, pos⟩ = .ok (c, ⟨d, pos + 1⟩) := by
  have read : (⟨d, pos⟩ : Reader).rest = c :: rest := here
  rw [u8_of_drop read]
  rfl

theorem u8_end {d : Octets} {pos : Nat} (here : d.drop pos = []) : u8 ⟨d, pos⟩ = .error .u8PastEnd := by
  have read : (⟨d, pos⟩ : Reader).rest = [] := here
  simp only [u8, read]

/-- A label at one place of both has the same octets but for letter case. -/
theorem readLabel_agree {d d' : Octets} {stop : Nat} (alike : Alike d d' stop) (n : Nat)
    (positive : 1 ≤ n) (bound : n ≤ maxLabel) {pos : Nat} (behind : 2 ≤ pos) {β : Type}
    {S : β → β → Prop} {f f' : Label → Read β}
    (later : ∀ label label', label.lower = label'.lower → Cursor.Agree d d' stop S (f label) (f' label')
      (pos + n)) :
    Cursor.Agree d d' stop S (readLabel n positive bound >>= f) (readLabel n positive bound >>= f') pos := by
  have widths : (⟨d, pos⟩ : Reader).rest.length = (⟨d', pos⟩ : Reader).rest.length := by
    rw [Cursor.length_rest, Cursor.length_rest]
    show d.length - pos = d'.length - pos
    rw [alike.shares.length]
  by_cases fits : n ≤ (⟨d, pos⟩ : Reader).rest.length
  · have fits' : n ≤ (⟨d', pos⟩ : Reader).rest.length := by omega
    have first (d : Octets) (fits : n ≤ (⟨d, pos⟩ : Reader).rest.length) :
        ∃ label, readLabel n positive bound ⟨d, pos⟩ = .ok (label, ⟨d, pos + n⟩) ∧
          label.octets = (d.drop pos).take n := by
      rw [readLabel, dif_pos fits]
      exact ⟨_, rfl, rfl⟩
    obtain ⟨label, read, octets⟩ := first d fits
    obtain ⟨label', read', octets'⟩ := first d' fits'
    apply Cursor.Agree.step read read'
    apply later
    apply Label.ext
    show label.octets.map lowerOctet = label'.octets.map lowerOctet
    rw [octets, octets']
    exact alike.folded behind n
  · have fits' : ¬ n ≤ (⟨d', pos⟩ : Reader).rest.length := by omega
    apply Cursor.Agree.stop
    · rw [readLabel, dif_neg fits]
    · rw [readLabel, dif_neg fits']

theorem questionEnd_cons {d : Octets} {k pos stop : Nat} {c : UInt8} {rest : Octets}
    (ends : questionEnd d k pos = some stop) (here : d.drop pos = c :: rest) :
    ∃ k', k = k' + 1 ∧ (if c = 0 then some (pos + 1)
      else if c &&& 0xC0 ≠ 0 then none else questionEnd d k' (pos + c.toNat + 1)) = some stop := by
  cases k with
  | zero => cases ends
  | succ k =>
    unfold questionEnd at ends
    rw [here] at ends
    exact ⟨k, rfl, ends⟩

/-- The name of a replayable question takes no pointer. -/
theorem steady_of_questionEnd {d : Octets} {stop : Nat} (fuel : Nat) :
    ∀ {k hops total pos : Nat}, questionEnd d k pos = some stop → 2 ≤ pos →
      steady d stop fuel hops total pos = true := by
  induction fuel with
  | zero =>
    intro k hops total pos _ _
    rfl
  | succ fuel ih =>
    intro k hops total pos ends behind
    unfold steady
    cases here : d.drop pos with
    | nil => rfl
    | cons c rest =>
      obtain ⟨k, -, ends⟩ := questionEnd_cons ends here
      dsimp only
      rw [if_neg (by omega)]
      by_cases zero : c = 0
      · rw [if_pos zero]
      rw [if_neg zero] at ends ⊢
      by_cases plain : c &&& 0xC0 = 0
      · rw [if_neg (not_not.mpr plain)] at ends
        rw [if_pos plain]
        split
        · rfl
        · apply ih _ (by omega)
          · exact k
          · rw [show pos + 1 + c.toNat = pos + c.toNat + 1 by omega]
            exact ends
      · rw [if_pos plain] at ends
        cases ends

theorem readLabels_agree {d d' : Octets} {stop : Nat} (alike : Alike d d' stop) (fuel : Nat) :
    ∀ (pos : Nat) (labels labels' : List Label) (hops total : Nat) (resume : Option Nat),
      steady d stop fuel hops total pos = true →
      labels.map Label.lower = labels'.map Label.lower →
      (resume = none → stop ≤ pos ∨ ∃ k, questionEnd d k pos = some stop) →
      (∀ x, resume = some x → stop ≤ x ∧ x ≤ d.length) →
      Cursor.Agree d d' stop SameName (readLabels fuel labels hops total resume)
        (readLabels fuel labels' hops total resume) pos := by
  have length := alike.shares.length
  induction fuel with
  | zero =>
    intro pos labels labels' hops total resume _ _ _ _
    exact .throw _ _
  | succ fuel ih =>
    intro pos labels labels' hops total resume still folded forward back
    unfold steady at still
    rw [readLabels, readLabels]
    by_cases low : pos < 2
    · have none : d.drop pos = [] := by
        by_contra some
        obtain ⟨c, rest, here⟩ := List.exists_cons_of_ne_nil some
        rw [here] at still
        simp only [if_pos low] at still
        cases still
      have none' : d'.drop pos = [] := by
        rw [List.drop_eq_nil_iff] at none ⊢
        omega
      exact .stop (u8_end none) (u8_end none')
    have behind : 2 ≤ pos := by omega
    rcases alike.at behind with ⟨none, none'⟩ | ⟨c, c', some, some', -, same⟩
    · exact .stop (u8_end none) (u8_end none')
    apply Cursor.Agree.step (u8_here some) (u8_here some')
    rw [some] at still
    simp only [if_neg low] at still
    rcases same with same | ⟨-, -, letter, letter'⟩
    · cases same
      by_cases zero : c = 0
      · rw [dif_pos zero, dif_pos zero]
        have canonical : SameName ⟨labels⟩ ⟨labels'⟩ := by
          unfold SameName Name.canonicalize Name.lower
          rw [folded]
        cases resumes : resume with
        | none =>
          apply Cursor.Agree.pure canonical
          rcases forward resumes with late | ⟨k, ends⟩
          · omega
          · obtain ⟨k, -, ends⟩ := questionEnd_cons ends some
            rw [if_pos zero] at ends
            cases ends
            exact le_rfl
        | some x =>
          obtain ⟨inside, short⟩ := back x resumes
          have seeks (buf : Octets) (short : x ≤ buf.length) :
              seek x ⟨buf, pos + 1⟩ = .ok ((), ⟨buf, x⟩) := seek_inside short
          exact .step (seeks d short) (seeks d' (by omega)) (.pure canonical inside)
      rw [dif_neg zero, dif_neg zero]
      simp only [if_neg zero] at still
      by_cases plain : c &&& 0xC0 = 0
      · rw [dif_pos plain, dif_pos plain]
        simp only [if_pos plain] at still
        apply readLabel_agree alike c.toNat _ _ (by omega)
        intro label label' same
        apply Cursor.Agree.test
        intro bounded
        rw [if_neg (by omega)] at still
        apply ih _ _ _ _ _ _ still
        · rw [List.map_append, List.map_append, folded, List.map_singleton, List.map_singleton, same]
        · intro none
          rcases forward none with late | ⟨k, ends⟩
          · left
            omega
          · obtain ⟨k, -, ends⟩ := questionEnd_cons ends some
            rw [if_neg zero, if_neg (not_not.mpr plain)] at ends
            right
            refine ⟨k, ?_⟩
            rw [show pos + 1 + c.toNat = pos + c.toNat + 1 by omega]
            exact ends
        · exact back
      rw [dif_neg plain, dif_neg plain]
      simp only [if_neg plain] at still
      by_cases pointer : c &&& 0xC0 = 0xC0
      · rw [if_pos pointer, if_pos pointer]
        simp only [if_pos pointer] at still
        apply Cursor.Agree.test
        intro few
        rcases alike.at (show 2 ≤ pos + 1 by omega) with ⟨none, none'⟩ | ⟨low, low', next, next', -, same⟩
        · exact .stop (u8_end none) (u8_end none')
        · apply Cursor.Agree.step (u8_here next) (u8_here next')
          rw [next] at still
          simp only [if_neg few] at still
          rcases same with same | ⟨late, early, letter, -⟩
          · cases same
            split at still
            · cases still
            · apply Cursor.Agree.step rfl rfl
              apply Cursor.Agree.test
              intro earlier
              change ¬ (c &&& 0x3F).toNat * 256 + low.toNat ≥ pos + 1 + 1 - 2 at earlier
              rw [if_neg (by omega)] at still
              have bound : pos + 1 < d.length := Cursor.pos_lt_of_rest_cons
                (show (⟨d, pos + 1⟩ : Reader).rest = low :: d.drop (pos + 1 + 1) from next)
              have inside : (c &&& 0x3F).toNat * 256 + low.toNat ≤ d.length := by omega
              have seeks (buf : Octets) (short : (c &&& 0x3F).toNat * 256 + low.toNat ≤ buf.length) :
                  seek ((c &&& 0x3F).toNat * 256 + low.toNat) ⟨buf, pos + 1 + 1⟩ =
                    .ok ((), ⟨buf, (c &&& 0x3F).toNat * 256 + low.toNat⟩) := seek_inside short
              apply Cursor.Agree.step (seeks d inside) (seeks d' (by omega))
              apply ih _ _ _ _ _ _ still folded
              · intro none
                cases none
              · intro x same
                cases same
                cases resumes : resume with
                | none =>
                  show stop ≤ pos + 1 + 1 ∧ pos + 1 + 1 ≤ d.length
                  rcases forward resumes with late | ⟨k, ends⟩
                  · omega
                  · obtain ⟨k, -, ends⟩ := questionEnd_cons ends some
                    rw [if_neg zero, if_pos plain] at ends
                    cases ends
                | some x => exact back x resumes
          · rw [if_pos ⟨late, early, letter⟩] at still
            cases still
      · rw [if_neg pointer, if_neg pointer]
        exact .throw _ _
    · obtain ⟨zero, plain, pointer⟩ := letter_reserved c letter
      obtain ⟨zero', plain', pointer'⟩ := letter_reserved c' letter'
      rw [dif_neg zero, dif_neg plain, if_neg pointer, dif_neg zero', dif_neg plain', if_neg pointer']
      exact .throw _ _

/-- A name behind the question is read alike when its pointers are steady. -/
theorem readName_agree {d d' : Octets} {stop pos : Nat} (alike : Alike d d' stop)
    (still : Steady d stop pos) (behind : stop ≤ pos) :
    Cursor.Agree d d' stop SameName readName readName pos :=
  readLabels_agree alike nameFuel pos [] [] 0 1 none still rfl (fun _ => .inl behind)
    (fun _ some => by cases some)

/-! ### Octets behind the question -/

section

variable {d d' : Octets} {stop pos : Nat} (shares : Cursor.Shares d d' stop) (behind : stop ≤ pos)

include shares behind

theorem agree_u8 : Cursor.Agree d d' stop Eq u8 u8 pos := by
  have same := shares.drop_eq behind
  cases here : d'.drop pos with
  | nil => exact .of_error (u8_end (same.trans here)) (u8_end here)
  | cons c rest => exact .of_ok (u8_here (same.trans here)) (u8_here here) rfl (by omega)

theorem agree_u16 : Cursor.Agree d d' stop Eq u16 u16 pos := by
  have same := shares.drop_eq behind
  have rest (buf : Octets) : (⟨buf, pos⟩ : Reader).rest = buf.drop pos := rfl
  unfold Cursor.Agree
  rw [u16, u16, rest, rest, same]
  rcases d'.drop pos with _ | ⟨a, _ | ⟨b, rest⟩⟩
  · trivial
  · trivial
  · exact ⟨rfl, pos + 2, by omega, rfl, rfl⟩

theorem agree_u32 : Cursor.Agree d d' stop Eq u32 u32 pos := by
  have same := shares.drop_eq behind
  have rest (buf : Octets) : (⟨buf, pos⟩ : Reader).rest = buf.drop pos := rfl
  unfold Cursor.Agree
  rw [u32, u32, rest, rest, same]
  rcases d'.drop pos with _ | ⟨a, _ | ⟨b, _ | ⟨c, _ | ⟨e, rest⟩⟩⟩⟩
  · trivial
  · trivial
  · trivial
  · trivial
  · exact ⟨rfl, pos + 4, by omega, rfl, rfl⟩

theorem agree_read (n : Int) : Cursor.Agree d d' stop Eq (Reader.read n) (Reader.read n) pos := by
  have reads (buf : Octets) : Reader.read n ⟨buf, pos⟩ =
      if n < 0 ∨ buf.length < pos + n.toNat then .error (.readPastEnd n pos buf.length)
      else .ok ((buf.drop pos).take n.toNat, ⟨buf, pos + n.toNat⟩) := rfl
  unfold Cursor.Agree
  rw [reads, reads, shares.length, shares.drop_eq behind]
  split_ifs
  · trivial
  · exact ⟨rfl, pos + n.toNat, by omega, rfl, rfl⟩

omit shares in
theorem agree_tell : Cursor.Agree d d' stop Eq tell tell pos := ⟨rfl, pos, behind, rfl, rfl⟩

theorem agree_readTo (last : Nat) : Cursor.Agree d d' stop Eq (Rdata.readTo last) (Rdata.readTo last) pos :=
  (agree_tell behind).then fun _ _ inside _ => agree_read shares inside _

theorem agree_readCounted : Cursor.Agree d d' stop Eq Rdata.readCounted Rdata.readCounted pos :=
  (agree_u8 shares behind).then fun _ _ inside _ => agree_read shares inside _

theorem agree_readCounted16 :
    Cursor.Agree d d' stop Eq Rdata.readCounted16 Rdata.readCounted16 pos :=
  (agree_u16 shares behind).then fun _ _ inside _ => agree_read shares inside _

end

/-- The cursor of a read of fixed width is known. -/
theorem u16_next {d : Octets} {pos next : Nat} {v : UInt16}
    (read : u16 ⟨d, pos⟩ = .ok (v, ⟨d, next⟩)) : next = pos + 2 := by
  simp only [u16] at read
  split at read
  · cases read
    rfl
  · cases read

theorem u8_next {d : Octets} {pos next : Nat} {v : UInt8}
    (read : u8 ⟨d, pos⟩ = .ok (v, ⟨d, next⟩)) : next = pos + 1 := by
  simp only [u8] at read
  split at read
  · cases read
    rfl
  · cases read

theorem u32_next {d : Octets} {pos next : Nat} {v : UInt32}
    (read : u32 ⟨d, pos⟩ = .ok (v, ⟨d, next⟩)) : next = pos + 4 := by
  simp only [u32] at read
  split at read
  · cases read
    rfl
  · cases read

/-! ### Equal keys -/

/-- What `query_key` has checked of a query. -/
structure Keyed (d key : Octets) (stop : Nat) : Prop where
  long : 17 ≤ d.length
  question : d.getD 4 0 = 0 ∧ d.getD 5 0 = 1
  blank : blankAt d [6, 7, 8, 9] = true
  ends : questionEnd d d.length 12 = some stop
  fits : stop + 4 ≤ d.length
  same : key = (((d.drop 12).take (stop - 12)).map lowerOctet ++ d.drop stop) ++
    ((d.drop 2).take 2 ++ (d.drop 10).take 2)

theorem keyed_of_queryKey {d key : Octets} {stop : Nat} (keyed : queryKey d = some (key, stop)) :
    Keyed d key stop := by
  unfold queryKey at keyed
  dsimp only at keyed
  split_ifs at keyed with short flags question blank
  split at keyed
  · cases keyed
  · next p ends =>
    split_ifs at keyed with cut
    cases keyed
    push Not at question
    refine ⟨by omega, question, ?_, ends, by omega, ?_⟩
    · exact Bool.not_eq_false _ ▸ blank
    · rw [List.append_assoc]

theorem questionEnd_bounds {d : Octets} (k : Nat) : ∀ {pos stop : Nat},
    questionEnd d k pos = some stop → pos < stop ∧ stop ≤ d.length := by
  induction k with
  | zero =>
    intro pos stop ends
    cases ends
  | succ k ih =>
    intro pos stop ends
    cases here : d.drop pos with
    | nil =>
      unfold questionEnd at ends
      rw [here] at ends
      cases ends
    | cons c rest =>
      have inside : pos < d.length :=
        Cursor.pos_lt_of_rest_cons (show (⟨d, pos⟩ : Reader).rest = c :: rest from here)
      obtain ⟨k', same, ends⟩ := questionEnd_cons ends here
      cases same
      split_ifs at ends
      · cases ends
        omega
      · have later := ih ends
        omega

/-- The walk over the question reads no letter, so letter case does not lead it elsewhere. -/
theorem questionEnd_congr {d d' : Octets} (k : Nat) : ∀ {pos stop : Nat},
    (∀ i, pos ≤ i → i < stop → d[i]?.map lowerOctet = d'[i]?.map lowerOctet) →
      questionEnd d k pos = some stop → questionEnd d' k pos = some stop := by
  induction k with
  | zero =>
    intro pos stop _ ends
    cases ends
  | succ k ih =>
    intro pos stop folded ends
    have bounds := questionEnd_bounds (k + 1) ends
    have inside : pos < d.length := by omega
    have here : d[pos]? = some d[pos] := List.getElem?_eq_getElem inside
    have lower := folded pos le_rfl bounds.1
    rw [here, Option.map_some] at lower
    obtain ⟨c', here', lower⟩ := Option.map_eq_some_iff.mp lower.symm
    obtain ⟨k', equal, ends⟩ := questionEnd_cons ends (drop_cons_of_getElem? here)
    cases equal
    have same : d[pos] = c' := by
      rcases lowerOctet_cases lower.symm with same | ⟨letter, -⟩
      · exact same
      · obtain ⟨zero, plain, -⟩ := letter_reserved _ letter
        rw [if_neg zero, if_pos plain] at ends
        cases ends
    unfold questionEnd
    rw [drop_cons_of_getElem? here', ← same]
    dsimp only
    split_ifs at ends ⊢
    · exact ends
    · exact ih (fun i late early => folded i (by omega) early) ends

/-- Queries with one key are alike. -/
theorem alike_of_keyed {d d' key : Octets} {stop stop' : Nat} (keyed : Keyed d key stop)
    (keyed' : Keyed d' key stop') : stop' = stop ∧ Alike d d' stop := by
  have bounds := questionEnd_bounds _ keyed.ends
  have bounds' := questionEnd_bounds _ keyed'.ends
  have long := keyed.long
  have long' := keyed'.long
  have fits := keyed.fits
  have fits' := keyed'.fits
  have keys := keyed.same.symm.trans keyed'.same
  have length : d.length = d'.length := by
    have widths := congrArg List.length keys
    simp only [List.length_append, List.length_map, List.length_take, List.length_drop] at widths
    omega
  obtain ⟨bodies, heads⟩ := List.append_inj keys (by
    simp only [List.length_append, List.length_map, List.length_take, List.length_drop]
    omega)
  have folded {d : Octets} {stop : Nat} (long : 12 < stop ∧ stop ≤ d.length) {i : Nat} (late : 12 ≤ i)
      (early : i < stop) :
      (((d.drop 12).take (stop - 12)).map lowerOctet ++ d.drop stop)[i - 12]? =
        d[i]?.map lowerOctet := by
    rw [List.getElem?_append_left (by
        simp only [List.length_map, List.length_take, List.length_drop]
        omega),
      List.getElem?_map, List.getElem?_take_of_lt (by omega), List.getElem?_drop,
      Nat.add_sub_cancel' late]
  have names {i : Nat} (late : 12 ≤ i) (early : i < stop) (early' : i < stop') :
      d[i]?.map lowerOctet = d'[i]?.map lowerOctet := by
    rw [← folded bounds late early, ← folded bounds' late early', bodies]
  have stops : stop' = stop := by
    rcases Nat.le_total stop stop' with earlier | earlier
    · have ends := questionEnd_congr _ (fun i late early => names late early (by omega)) keyed.ends
      rw [length, keyed'.ends] at ends
      cases ends
      rfl
    · have ends := questionEnd_congr _ (fun i late early => (names late (by omega) early).symm)
        keyed'.ends
      rw [← length, keyed.ends] at ends
      cases ends
      rfl
  cases stops
  obtain ⟨-, tails⟩ := List.append_inj bodies (by
    simp only [List.length_map, List.length_take, List.length_drop]
    omega)
  obtain ⟨flags, counts⟩ := List.append_inj heads (by
    simp only [List.length_take, List.length_drop]
    omega)
  refine ⟨rfl, ⟨length, tails⟩, ?_, fun i late early => names late early early⟩
  have octet {d : Octets} (long : 17 ≤ d.length) {i : Nat} (low : i < 12) : d[i]? = some (d.getD i 0) := by
    rw [List.getElem?_eq_getElem (by omega), List.getD_eq_getElem _ _ (by omega)]
  have zeros := keyed.blank
  have zeros' := keyed'.blank
  unfold blankAt at zeros zeros'
  simp only [List.all_cons, List.all_nil, Bool.and_true, Bool.and_eq_true, beq_iff_eq] at zeros zeros'
  have pair {from' : Nat} (i : Nat) (same : (d.drop from').take 2 = (d'.drop from').take 2) (low : i < 2) :
      d[from' + i]? = d'[from' + i]? := by
    have entries := congrArg (fun l => l[i]?) same
    rwa [List.getElem?_take_of_lt low, List.getElem?_take_of_lt low, List.getElem?_drop,
      List.getElem?_drop] at entries
  intro i late early
  interval_cases i
  · exact pair 0 flags (by omega)
  · exact pair 1 flags (by omega)
  · rw [octet long (by omega), octet long' (by omega), keyed.question.1, keyed'.question.1]
  · rw [octet long (by omega), octet long' (by omega), keyed.question.2, keyed'.question.2]
  · rw [octet long (by omega), octet long' (by omega), zeros.1, zeros'.1]
  · rw [octet long (by omega), octet long' (by omega), zeros.2.1, zeros'.2.1]
  · rw [octet long (by omega), octet long' (by omega), zeros.2.2.1, zeros'.2.2.1]
  · rw [octet long (by omega), octet long' (by omega), zeros.2.2.2, zeros'.2.2.2]
  · exact pair 0 counts (by omega)
  · exact pair 1 counts (by omega)

end Trench.Engine
