import Trench.Engine.FastPath
import Trench.Wire.ReadClosed

set_option autoImplicit false

/- The walkers over a message that is not parsed land where the parser does. -/
namespace Trench.Engine.FastPath

open Wire
open Wire.Reader

/-! ### Names -/

theorem u8_ok {c next : Reader} {v : UInt8} (taken : u8 c = .ok (v, next)) :
    ∃ tail, c.rest = v :: tail ∧ next = c.advance 1 := by
  rw [u8] at taken
  split at taken
  · next tail here =>
      cases taken
      exact ⟨tail, here, rfl⟩
  · cases taken

theorem u16_ok {c next : Reader} {v : UInt16} (taken : u16 c = .ok (v, next)) :
    ∃ a b tail, c.rest = a :: b :: tail ∧ v = join16 a b ∧ next = c.advance 2 := by
  rw [u16] at taken
  split at taken
  · next a b tail here =>
      cases taken
      exact ⟨a, b, tail, here, rfl, rfl⟩
  · cases taken

theorem seek_ok {pos : Nat} {c next : Reader} {v : Unit} (done : seek pos c = .ok (v, next)) :
    pos ≤ c.buf.length ∧ next = { c with pos := pos } := by
  rw [seek] at done
  split at done
  · cases done
  · next inside =>
      cases done
      exact ⟨Nat.le_of_not_lt inside, rfl⟩

theorem raiseIf_ok {condition : Prop} [Decidable condition] {e : WireError} {c next : Reader} {v : Unit}
    (passed : Cursor.raiseIf condition e c = .ok (v, next)) : ¬condition ∧ next = c := by
  by_cases bad : condition
  · rw [Cursor.raiseIf, if_pos bad] at passed
    cases passed
  · rw [Cursor.raiseIf, if_neg bad] at passed
    cases passed
    exact ⟨bad, rfl⟩

set_option maxRecDepth 4000 in
/-- The octets with the pointer bits. -/
theorem pointer_high (c : UInt8) (kind : c &&& 0xC0 = 0xC0) :
    c.toNat = 0xC0 + (c &&& 0x3F).toNat ∧ (c &&& 0x3F).toNat ≤ 0x3F := by
  revert c
  decide

/-- A pointer of two octets, as the writer puts it. -/
theorem octets_pointer {first second : UInt8} (kind : first &&& 0xC0 = 0xC0) :
    [first, second] = octets16 (UInt16.ofNat (0xC000 ||| ((first &&& 0x3F).toNat * 256 + second.toNat))) := by
  obtain ⟨value, small⟩ := pointer_high first kind
  have low := second.toNat_lt
  have number := pointer_octet ((first &&& 0x3F).toNat * 256 + second.toNat) (by omega)
  rw [octets16, number]
  have high : (0xC000 + ((first &&& 0x3F).toNat * 256 + second.toNat)) / 256 = first.toNat := by omega
  have rest : (0xC000 + ((first &&& 0x3F).toNat * 256 + second.toNat)) % 256 = second.toNat := by omega
  rw [high, rest, UInt8.ofNat_toNat, UInt8.ofNat_toNat]

/-- What is read stands there, over no more pointers than are allowed. -/
theorem nameAt_of_readLabels (fuel : Nat) : ∀ {acc : List Label} {hops total : Nat} {resume : Option Nat}
    {c next : Reader} {name : Name}, hops ≤ maxPointerHops →
    readLabels fuel acc hops total resume c = .ok (name, next) →
      ∃ labels more stop, name.labels = acc ++ labels ∧ hops + more ≤ maxPointerHops ∧
        NameAt c.buf c.pos labels more stop ∧ next = ⟨c.buf, resume.getD stop⟩ := by
  induction fuel with
  | zero => exact fun _ read => nomatch read
  | succ fuel ih =>
      intro acc hops total resume c next name few read
      rw [readLabels] at read
      obtain ⟨length, first, taken, read⟩ := Cursor.bind_eq_ok.mp read
      obtain ⟨tail, here, rfl⟩ := u8_ok taken
      split at read
      · next zero =>
          subst zero
          refine ⟨[], 0, c.pos + 1, ?_⟩
          cases resume with
          | none =>
              cases read
              exact ⟨(List.append_nil acc).symm, few, .root here, rfl⟩
          | some pos =>
              obtain ⟨_, last, sought, read⟩ := Cursor.bind_eq_ok.mp read
              obtain ⟨-, rfl⟩ := seek_ok sought
              cases read
              exact ⟨(List.append_nil acc).symm, few, .root here, rfl⟩
      · split at read
        · next nonzero plain =>
            obtain ⟨label, second, got, read⟩ := Cursor.bind_eq_ok.mp read
            have body : label.octets = (c.advance 1).rest.take length.toNat ∧
                length.toNat ≤ (c.advance 1).rest.length ∧ second = (c.advance 1).advance length.toNat := by
              rw [readLabel] at got
              split at got
              · next fits =>
                  cases got
                  exact ⟨rfl, fits, rfl⟩
              · cases got
            obtain ⟨octets, fits, rfl⟩ := body
            obtain ⟨_, third, passed, read⟩ := Cursor.bind_eq_ok.mp read
            obtain ⟨-, rfl⟩ := raiseIf_ok passed
            have rest : (c.advance 1).rest = tail := by
              rw [Cursor.rest_advance, here]
              rfl
            rw [rest] at octets fits
            have width : label.octets.length = length.toNat := by
              rw [octets, List.length_take, Nat.min_eq_left fits]
            obtain ⟨labels, more, stop, same, bound, found, ends⟩ := ih few read
            refine ⟨label :: labels, more, stop, by rw [same, List.append_assoc]; rfl, bound, ?_, ends⟩
            have stands : c.buf.drop c.pos =
                UInt8.ofNat label.octets.length :: (label.octets ++ tail.drop length.toNat) := by
              rw [width, UInt8.ofNat_toNat, octets, List.take_append_drop]
              exact here
            refine .label stands ?_
            have place : c.pos + (label.octets.length + 1) = ((c.advance 1).advance length.toNat).pos := by
              rw [Cursor.advance_pos, Cursor.advance_pos, width]
              omega
            rw [place]
            exact found
        · split at read
          · next kind =>
              obtain ⟨_, second, passed, read⟩ := Cursor.bind_eq_ok.mp read
              obtain ⟨fewer, rfl⟩ := raiseIf_ok passed
              obtain ⟨low, third, behind, read⟩ := Cursor.bind_eq_ok.mp read
              obtain ⟨tail', next', rfl⟩ := u8_ok behind
              obtain ⟨place, fourth, told, read⟩ := Cursor.bind_eq_ok.mp read
              cases told
              obtain ⟨_, fifth, earlier, read⟩ := Cursor.bind_eq_ok.mp read
              obtain ⟨before, rfl⟩ := raiseIf_ok earlier
              obtain ⟨_, sixth, sought, read⟩ := Cursor.bind_eq_ok.mp read
              obtain ⟨-, rfl⟩ := seek_ok sought
              obtain ⟨labels, more, stop, same, bound, found, ends⟩ := ih (Nat.le_of_not_lt fewer) read
              refine ⟨labels, more + 1, c.pos + 2, same, by omega, ?_, ?_⟩
              · obtain ⟨-, small⟩ := pointer_high length kind
                have narrow := low.toNat_lt
                have behind : tail = low :: tail' := by
                  rw [Cursor.rest_advance, here] at next'
                  exact next'
                have stands : c.buf.drop c.pos =
                    octets16 (UInt16.ofNat (0xC000 ||| ((length &&& 0x3F).toNat * 256 + low.toNat))) ++ tail' := by
                  rw [← octets_pointer kind]
                  exact here.trans (by rw [behind]; rfl)
                refine .pointer stands (by omega) ?_ found
                rw [Cursor.advance_pos, Cursor.advance_pos] at before
                omega
              · rw [ends]
                cases resume <;> rfl
          · cases read

/-- `_skip_name` ends where the name that stands there ends. -/
theorem skipName_of_nameAt {buf : Octets} {pos : Nat} {labels : List Label} {hops stop : Nat}
    (found : NameAt buf pos labels hops stop) : ∀ fuel, buf.length - pos ≤ fuel → skipName buf fuel pos = some stop := by
  have some {pos : Nat} {first : UInt8} {tail : Octets} (here : buf.drop pos = first :: tail) : pos < buf.length := by
    have count := congrArg List.length here
    rw [List.length_drop, List.length_cons] at count
    omega
  induction found with
  | root here =>
      intro fuel enough
      obtain ⟨fuel, rfl⟩ : ∃ less, fuel = less + 1 := ⟨fuel - 1, by have := some here; omega⟩
      rw [skipName, here]
      rfl
  | @label pos label tail rest hops stop here next ih =>
      intro fuel enough
      obtain ⟨fuel, rfl⟩ : ∃ less, fuel = less + 1 := ⟨fuel - 1, by have := some here; omega⟩
      have octet := Name.lengthOctet_toNat label
      have plain := lengthOctet_plain (UInt8.ofNat label.octets.length) (by rw [octet]; exact label.bounded)
      rw [skipName, here]
      dsimp only
      rw [if_neg (Name.lengthOctet_ne_zero label), plain, if_neg (by decide), if_neg (by decide), octet]
      exact ih fuel (by omega)
  | @pointer pos ptr tail labels hops stop here small earlier target ih =>
      intro fuel enough
      obtain ⟨fuel, rfl⟩ : ∃ less, fuel = less + 1 := ⟨fuel - 1, by have := some here; omega⟩
      have value := pointer_octet ptr small
      have high : (UInt8.ofNat ((UInt16.ofNat (0xC000 ||| ptr)).toNat / 256)).toNat = 0xC0 + ptr / 256 := by
        rw [value, UInt8.toNat_ofNat', Nat.mod_eq_of_lt (by omega)]
        omega
      obtain ⟨nonzero, -, kind, -⟩ := pointer_kind _ (by rw [high]; omega)
      have count := congrArg List.length here
      rw [List.length_drop, List.length_append, length_octets16] at count
      rw [skipName, here, octets16]
      dsimp only [List.cons_append]
      rw [if_neg nonzero, if_pos kind, if_pos (by omega)]

theorem readName_ok {c next : Reader} {name : Name} (read : readName c = .ok (name, next)) :
    ∃ hops ≤ maxPointerHops, ∃ stop, NameAt c.buf c.pos name.labels hops stop ∧ next = ⟨c.buf, stop⟩ := by
  obtain ⟨labels, more, stop, same, few, found, ends⟩ := nameAt_of_readLabels nameFuel (Nat.zero_le _) read
  rw [List.nil_append] at same
  exact ⟨more, by omega, stop, same ▸ found, ends⟩

theorem skipName_of_readName {c next : Reader} {name : Name} (read : readName c = .ok (name, next)) :
    skipName c.buf c.buf.length c.pos = some next.pos ∧ next.buf = c.buf := by
  obtain ⟨hops, -, stop, found, rfl⟩ := readName_ok read
  exact ⟨skipName_of_nameAt found _ (Nat.sub_le _ _), rfl⟩

/-! ### Options -/

theorem u16At_of_drop {blob : Octets} {p : Nat} {a b : UInt8} {tail : Octets} (here : blob.drop p = a :: b :: tail) :
    u16At blob p = (join16 a b).toNat := by
  have first : blob[p]? = some a := by rw [← List.head?_drop, here, List.head?_cons]
  have second : blob[p + 1]? = some b := by
    rw [← List.head?_drop, ← List.drop_drop, here]
    rfl
  rw [u16At, List.getD_eq_getElem?_getD, List.getD_eq_getElem?_getD, first, second, Option.getD_some, Option.getD_some]

/-- The octets at a place of a message. -/
def slice (blob : Octets) (place : Nat × Nat) : Octets := (blob.drop place.1).take place.2

theorem optionAt_past {blob : Octets} {code stop q : Nat} (past : stop < q + 4) (fuel : Nat) :
    optionAt blob code stop fuel q = none := by
  cases fuel with
  | zero => rfl
  | succ fuel => rw [optionAt, if_pos past]

theorem optionsLoop_short {data : Octets} (short : data.length < 4) (fuel : Nat) : optionsLoop fuel data = [] := by
  match data, short with
  | [], _ => cases fuel <;> rfl
  | [_], _ => cases fuel <;> rfl
  | [_, _], _ => cases fuel <;> rfl
  | [_, _, _], _ => cases fuel <;> rfl

/-- The walk over the options of an OPT finds the first of the options that are parsed from it. -/
theorem optionAt_find (blob : Octets) (code : UInt16) (stop : Nat) (inside : stop ≤ blob.length) (fuel : Nat) :
    ∀ q fuel', stop - q ≤ fuel → stop - q ≤ fuel' →
      (optionAt blob code.toNat stop fuel q).map (slice blob) =
        ((optionsLoop fuel' ((blob.drop q).take (stop - q))).find? fun option => option.1 == code).map Prod.snd := by
  induction fuel with
  | zero =>
      intro q fuel' enough enough'
      have none : stop - q = 0 := by omega
      rw [none, List.take_zero, optionsLoop_short (by simp)]
      rfl
  | succ fuel ih =>
      intro q fuel' enough enough'
      by_cases past : stop < q + 4
      · rw [optionAt_past past, optionsLoop_short]
        · rfl
        · rw [List.length_take]
          omega
      · obtain ⟨fuel', rfl⟩ : ∃ less, fuel' = less + 1 := ⟨fuel' - 1, by omega⟩
        have front : blob.drop q = blob[q] :: blob[q + 1] :: blob[q + 2] :: blob[q + 3] :: blob.drop (q + 4) := by
          rw [List.drop_eq_getElem_cons (by omega), List.drop_eq_getElem_cons (by omega),
            List.drop_eq_getElem_cons (by omega), List.drop_eq_getElem_cons (by omega)]
        have behind : blob.drop (q + 2) = blob[q + 2] :: blob[q + 3] :: blob.drop (q + 4) := by
          rw [List.drop_eq_getElem_cons (by omega), List.drop_eq_getElem_cons (by omega)]
        have count : stop - q = stop - (q + 4) + 4 := by omega
        have room : ((blob.drop (q + 4)).take (stop - (q + 4))).length = stop - (q + 4) := by
          rw [List.length_take, List.length_drop]
          omega
        rw [optionAt, if_neg past, u16At_of_drop front, u16At_of_drop behind, front, count]
        simp only [List.take_succ_cons, optionsLoop, room]
        by_cases fits : stop - (q + 4) < (join16 blob[q + 2] blob[q + 3]).toNat
        · rw [if_pos fits, optionAt_past (by omega)]
          split
          · rw [if_neg (by omega)]
            rfl
          · rfl
        · rw [if_neg fits, List.find?_cons]
          by_cases same : join16 blob[q] blob[q + 1] = code
          · rw [same, if_pos rfl, if_pos (by omega), BEq.rfl]
            simp only [Option.map_some, slice, List.take_take, Option.some.injEq]
            rw [Nat.min_eq_left (by omega)]
          · have differ : (join16 blob[q] blob[q + 1] == code) = false := beq_eq_false_iff_ne.mpr same
            rw [if_neg fun equal => same (UInt16.toNat_inj.mp equal), differ, ih _ fuel' (by omega) (by omega),
              List.drop_take, List.drop_drop, Nat.sub_add_eq]

/-! ### Sections -/

/-- A field of two octets is where the walkers look for it. -/
theorem u16_at {c next : Reader} {v : UInt16} (taken : u16 c = .ok (v, next)) :
    u16At c.buf c.pos = v.toNat ∧ c.pos + 2 ≤ c.buf.length ∧ next = ⟨c.buf, c.pos + 2⟩ := by
  obtain ⟨a, b, tail, here, rfl, rfl⟩ := u16_ok taken
  have count := congrArg List.length here
  rw [Cursor.length_rest, List.length_cons, List.length_cons] at count
  exact ⟨u16At_of_drop here, by omega, rfl⟩

theorem u32_ok {c next : Reader} {v : UInt32} (taken : u32 c = .ok (v, next)) :
    c.pos + 4 ≤ c.buf.length ∧ next = ⟨c.buf, c.pos + 4⟩ := by
  rw [u32] at taken
  split at taken
  · next here =>
      cases taken
      have count := congrArg List.length here
      simp only [Cursor.length_rest, List.length_cons] at count
      exact ⟨by omega, rfl⟩
  · cases taken

/-- The fields of a record stand behind its name. -/
theorem readHead_ok {c next : Reader} {head : RRHead} (read : readHead c = .ok (head, next)) :
    ∃ p, skipName c.buf c.buf.length c.pos = some p ∧ p + 10 ≤ c.buf.length ∧ u16At c.buf p = head.rtype.toNat ∧
      u16At c.buf (p + 8) = head.rdlen.toNat ∧ next = ⟨c.buf, p + 10⟩ := by
  rw [readHead] at read
  obtain ⟨name, first, named, read⟩ := Cursor.bind_eq_ok.mp read
  obtain ⟨skipped, same⟩ := skipName_of_readName named
  obtain ⟨rtype, second, typed, read⟩ := Cursor.bind_eq_ok.mp read
  obtain ⟨typeAt, -, rfl⟩ := u16_at typed
  obtain ⟨rclass, third, classed, read⟩ := Cursor.bind_eq_ok.mp read
  obtain ⟨-, -, rfl⟩ := u16_at classed
  obtain ⟨ttl, fourth, timed, read⟩ := Cursor.bind_eq_ok.mp read
  obtain ⟨-, rfl⟩ := u32_ok timed
  obtain ⟨rdlen, fifth, counted, read⟩ := Cursor.bind_eq_ok.mp read
  obtain ⟨lengthAt, inside, rfl⟩ := u16_at counted
  cases read
  rw [same] at typeAt lengthAt inside
  exact ⟨first.pos, skipped, inside, typeAt, lengthAt, by rw [same]⟩

theorem skip_readQuestions (code n : Nat) : ∀ {qd : Nat} {c next : Reader} {questions : List Question},
    readQuestions qd c = .ok (questions, next) →
      optionIn c.buf code qd n c.pos = optionIn c.buf code 0 n next.pos ∧ next.buf = c.buf := by
  intro qd
  induction qd with
  | zero =>
      intro c next questions read
      cases read
      exact ⟨rfl, rfl⟩
  | succ qd ih =>
      intro c next questions read
      rw [readQuestions] at read
      obtain ⟨question, first, asked, read⟩ := Cursor.bind_eq_ok.mp read
      obtain ⟨more, last, others, read⟩ := Cursor.bind_eq_ok.mp read
      cases read
      rw [readQuestion] at asked
      obtain ⟨name, named, isNamed, asked⟩ := Cursor.bind_eq_ok.mp asked
      obtain ⟨skipped, same⟩ := skipName_of_readName isNamed
      obtain ⟨rtype, second, typed, asked⟩ := Cursor.bind_eq_ok.mp asked
      obtain ⟨-, -, rfl⟩ := u16_at typed
      obtain ⟨rclass, third, classed, asked⟩ := Cursor.bind_eq_ok.mp asked
      obtain ⟨-, -, rfl⟩ := u16_at classed
      cases asked
      obtain ⟨walked, kept⟩ := ih others
      rw [optionIn, skipped]
      exact ⟨by rw [← same]; exact walked, kept.trans same⟩

/-- Where OPT is a record like the others, every record counts. -/
theorem readRRs_plain : ∀ {n : Nat} {edns edns' : Option Edns} {c next : Reader} {rrs : List RR},
    readRRs false n edns c = .ok ((rrs, edns'), next) → rrs.length = n := by
  intro n
  induction n with
  | zero =>
      intro edns edns' c next rrs read
      cases read
      rfl
  | succ n ih =>
      intro edns edns' c next rrs read
      rw [readRRs] at read
      obtain ⟨head, first, headed, read⟩ := Cursor.bind_eq_ok.mp read
      rw [if_neg fun both => Bool.false_ne_true both.2] at read
      obtain ⟨rr, second, bodied, read⟩ := Cursor.bind_eq_ok.mp read
      obtain ⟨⟨more, after⟩, last, others, read⟩ := Cursor.bind_eq_ok.mp read
      cases read
      rw [List.length_cons, ih others]

/-- An empty section leaves the cursor where it is. -/
theorem readRRs_empty {n : Nat} {edns edns' : Option Edns} {c next : Reader}
    (read : readRRs false n edns c = .ok (([], edns'), next)) : n = 0 ∧ next = c := by
  have none := readRRs_plain read
  rw [List.length_nil] at none
  subst none
  cases read
  exact ⟨rfl, rfl⟩

/-- The walk over the additional section comes to the options of the OPT that the parser keeps. -/
theorem optionIn_readRRs (code : UInt16) : ∀ {n : Nat} {start edns : Option Edns} {c next : Reader} {rrs : List RR},
    readRRs true n start c = .ok ((rrs, edns), next) →
      (start.isSome = true → edns = start) ∧ (start = none →
        (optionIn c.buf code.toNat 0 n c.pos).map (slice c.buf) = edns.bind fun e => e.getOption code) := by
  intro n
  induction n with
  | zero =>
      intro start edns c next rrs read
      cases read
      exact ⟨fun _ => rfl, fun none => by rw [none, optionIn]; rfl⟩
  | succ n ih =>
      intro start edns c next rrs read
      rw [readRRs] at read
      obtain ⟨head, first, headed, read⟩ := Cursor.bind_eq_ok.mp read
      obtain ⟨p, skipped, inside, typeAt, lengthAt, rfl⟩ := readHead_ok headed
      have there : optionIn c.buf code.toNat 0 (n + 1) c.pos =
          if head.rtype.toNat = RRType.opt.toNat then
            optionAt c.buf code.toNat (min c.buf.length (p + 10 + head.rdlen.toNat)) c.buf.length (p + 10)
          else optionIn c.buf code.toNat 0 n (p + 10 + head.rdlen.toNat) := by
        rw [optionIn, skipped, Option.bind_eq_bind, Option.bind_some, if_neg (Nat.not_lt.mpr inside), typeAt, lengthAt]
      split at read
      · next isOpt =>
          obtain ⟨opt, second, opted, read⟩ := Cursor.bind_eq_ok.mp read
          rw [readOpt] at opted
          obtain ⟨place, third, told, opted⟩ := Cursor.bind_eq_ok.mp opted
          cases told
          obtain ⟨_, fourth, passed, opted⟩ := Cursor.bind_eq_ok.mp opted
          obtain ⟨alone, rfl⟩ := raiseIf_ok passed
          obtain ⟨data, fifth, taken, opted⟩ := Cursor.bind_eq_ok.mp opted
          have fits : p + 10 + head.rdlen.toNat ≤ c.buf.length ∧
              data = (c.buf.drop (p + 10)).take head.rdlen.toNat := by
            rw [Reader.read] at taken
            split at taken
            · cases taken
            · next fits =>
                cases taken
                rw [not_or, not_lt, not_lt, Int.toNat_natCast] at fits
                exact ⟨fits.2, rfl⟩
          obtain ⟨_, sixth, sought, opted⟩ := Cursor.bind_eq_ok.mp opted
          cases opted
          have none : start = none := by
            cases start with
            | none => rfl
            | some e => exact absurd (.inl rfl) alone
          have kept := (ih read).1 rfl
          subst none
          refine ⟨fun some => (by cases some), fun _ => ?_⟩
          rw [kept, there, if_pos (by rw [isOpt.1]), Nat.min_eq_right fits.1, Option.bind_some, Edns.getOption,
            optionAt_find c.buf code _ fits.1 _ _ data.length (by omega)]
          · rw [Nat.add_sub_cancel_left, ← fits.2]
            rfl
          · rw [fits.2, List.length_take, List.length_drop]
            omega
      · next other =>
          obtain ⟨rr, second, bodied, read⟩ := Cursor.bind_eq_ok.mp read
          obtain ⟨⟨more, after⟩, last, others, read⟩ := Cursor.bind_eq_ok.mp read
          cases read
          rw [readBody] at bodied
          obtain ⟨place, third, told, bodied⟩ := Cursor.bind_eq_ok.mp bodied
          cases told
          obtain ⟨rdata, fourth, parsed, bodied⟩ := Cursor.bind_eq_ok.mp bodied
          have same := keeps_parseRdata _ _ _ _ _ parsed
          obtain ⟨_, fifth, sought, bodied⟩ := Cursor.bind_eq_ok.mp bodied
          obtain ⟨-, rfl⟩ := seek_ok sought
          cases bodied
          obtain ⟨keeps, walks⟩ := ih others
          refine ⟨keeps, fun none => ?_⟩
          have differ : ¬head.rtype.toNat = RRType.opt.toNat := fun equal => other ⟨UInt16.toNat_inj.mp equal, rfl⟩
          rw [there, if_neg differ, ← walks none]
          rw [same]

/-! ### What the walkers find -/

theorem readLabels_enough (c : Reader) (more : Nat) :
    readLabels (nameFuel + more) [] 0 1 none c = readName c := by
  induction more with
  | zero => rfl
  | succ more ih =>
      rw [← Nat.add_assoc, readLabels_fuel _ _ _ _ _ (by decide) (by decide) (by rw [nameFuel]; omega)]
      exact ih

/-- The walk finds the octets of the option that the parser has, in a message of questions and additional records. -/
theorem ednsOption_eq {data : Octets} {m : Message} (parsed : Message.parse data = .ok m) (answers : m.answers = [])
    (authority : m.authority = []) (code : UInt16) :
    (ednsOption data code.toNat).map (slice data) = m.edns.bind fun e => e.getOption code := by
  rw [Message.parse] at parsed
  split at parsed
  · cases parsed
  · next long =>
      split at parsed
      · next message last read =>
          cases parsed
          rw [readMessage] at read
          obtain ⟨header, first, headed, read⟩ := Cursor.bind_eq_ok.mp read
          rw [readHeader] at headed
          obtain ⟨id, at2, gotId, headed⟩ := Cursor.bind_eq_ok.mp headed
          obtain ⟨-, -, rfl⟩ := u16_at gotId
          obtain ⟨flags, at4, gotFlags, headed⟩ := Cursor.bind_eq_ok.mp headed
          obtain ⟨-, -, rfl⟩ := u16_at gotFlags
          obtain ⟨qd, at6, gotQd, headed⟩ := Cursor.bind_eq_ok.mp headed
          obtain ⟨qdAt, -, rfl⟩ := u16_at gotQd
          obtain ⟨an, at8, gotAn, headed⟩ := Cursor.bind_eq_ok.mp headed
          obtain ⟨anAt, -, rfl⟩ := u16_at gotAn
          obtain ⟨ns, at10, gotNs, headed⟩ := Cursor.bind_eq_ok.mp headed
          obtain ⟨nsAt, -, rfl⟩ := u16_at gotNs
          obtain ⟨ar, at12, gotAr, headed⟩ := Cursor.bind_eq_ok.mp headed
          obtain ⟨arAt, -, rfl⟩ := u16_at gotAr
          cases headed
          obtain ⟨questions, second, asked, read⟩ := Cursor.bind_eq_ok.mp read
          obtain ⟨⟨rrs, _⟩, third, answered, read⟩ := Cursor.bind_eq_ok.mp read
          obtain ⟨⟨auth, _⟩, fourth, authorized, read⟩ := Cursor.bind_eq_ok.mp read
          obtain ⟨⟨additional, edns⟩, fifth, added, read⟩ := Cursor.bind_eq_ok.mp read
          cases read
          obtain rfl : rrs = [] := answers
          obtain rfl : auth = [] := authority
          obtain ⟨noAnswers, rfl⟩ := readRRs_empty answered
          obtain ⟨noAuthority, rfl⟩ := readRRs_empty authorized
          obtain ⟨skipped, kept⟩ := skip_readQuestions code.toNat ar.toNat asked
          have found := (optionIn_readRRs code added).2 rfl
          rw [kept, ← skipped] at found
          have qdAt : u16At data 4 = qd.toNat := qdAt
          have anAt : u16At data 6 = 0 := anAt.trans noAnswers
          have nsAt : u16At data 8 = 0 := nsAt.trans noAuthority
          have arAt : u16At data 10 = ar.toNat := arAt
          have long : ¬data.length < 12 := long
          rw [ednsOption, if_neg long, qdAt, anAt, nsAt, arAt, Nat.zero_add]
          exact found
      · cases parsed

/-- The reader of names ends, within the pointers that are allowed, with a name of legal length or an error, and the
walker over names lands where the reader does; so the walk for an option finds the octets that the parser has. -/
theorem walkers_land :
    (∀ c : Reader, (∀ more, readLabels (nameFuel + more) [] 0 1 none c = readName c) ∧
      ∀ (name : Name) (next : Reader), readName c = .ok (name, next) → name.wireLen ≤ maxName ∧
        (∃ hops ≤ maxPointerHops, ∃ stop, NameAt c.buf c.pos name.labels hops stop) ∧
        skipName c.buf c.buf.length c.pos = some next.pos) ∧
    ∀ (data : Octets) (m : Message), Message.parse data = .ok m → m.answers = [] → m.authority = [] →
      ∀ code : UInt16, (ednsOption data code.toNat).map (slice data) = m.edns.bind fun e => e.getOption code := by
  refine ⟨fun c => ⟨readLabels_enough c, fun name next read => ?_⟩, fun data m parsed answers authority code =>
    ednsOption_eq parsed answers authority code⟩
  obtain ⟨hops, few, stop, found, -⟩ := readName_ok read
  exact ⟨ensures_readName c name next read, ⟨hops, few, stop, found⟩, (skipName_of_readName read).1⟩

/-- A query for the root with a cookie of one octet. -/
def cookieQuery : Octets :=
  [0, 0, 0, 0, 0, 1, 0, 0, 0, 0, 0, 1, 0, 0, 1, 0, 1, 0, 0, 41, 4, 208, 0, 0, 0, 0, 0, 5, 0, 10, 0, 1, 7]

theorem walkers_land_cookieQuery : (ednsOption cookieQuery EdnsOption.cookie.toNat).map (slice cookieQuery) = some [7] :=
  walkers_land.2 cookieQuery ⟨0, 0, [⟨Name.root, 1, 1⟩], [], [], [], some ⟨1232, 0, 0, 0, [(10, [7])]⟩⟩ rfl rfl rfl
    EdnsOption.cookie

end Trench.Engine.FastPath
