import Trench.Lib.Lengthen
import Trench.Wire.ReadClosed
import Trench.Wire.UpdateWire

set_option autoImplicit false

/- Record data, and the octets behind it. -/
namespace Trench.Wire.Rdata

open Cursor (Stands Within Completes EndsAt raiseIf)
open Reader

/-- The reader asked for octets that are not there. -/
def Lacks : WireError → Prop
  | .u8PastEnd | .u16PastEnd | .u32PastEnd | .seekOutOfRange => True
  | .readPastEnd n _ _ => 0 ≤ n
  | _ => False

/-! ### Readers -/

theorem stands_tell : Stands Lacks tell where
  ok c v next tail same := by
    cases same
    rfl
  error c e tail failed := by cases failed

theorem stands_u8 : Stands Lacks u8 where
  ok c v next tail taken := by
    rw [u8] at taken
    split at taken
    · next here =>
        cases taken
        rw [u8, Cursor.rest_append tail (Cursor.pos_lt_of_rest_cons here).le, here]
        rfl
    · cases taken
  error c e tail failed fatal := by
    rw [u8] at failed
    split at failed
    · cases failed
    · cases failed
      exact absurd trivial fatal

theorem stands_u16 : Stands Lacks u16 where
  ok c v next tail taken := by
    rw [u16] at taken
    split at taken
    · next here =>
        cases taken
        rw [u16, Cursor.rest_append tail (Cursor.pos_lt_of_rest_cons here).le, here]
        rfl
    · cases taken
  error c e tail failed fatal := by
    rw [u16] at failed
    split at failed
    · cases failed
    · cases failed
      exact absurd trivial fatal

theorem stands_u32 : Stands Lacks u32 where
  ok c v next tail taken := by
    rw [u32] at taken
    split at taken
    · next here =>
        cases taken
        rw [u32, Cursor.rest_append tail (Cursor.pos_lt_of_rest_cons here).le, here]
        rfl
    · cases taken
  error c e tail failed fatal := by
    rw [u32] at failed
    split at failed
    · cases failed
    · cases failed
      exact absurd trivial fatal

theorem stands_read (n : Int) : Stands Lacks (read n) where
  ok c v next tail taken := by
    rw [Reader.read] at taken
    split at taken
    · cases taken
    · next fits =>
        cases taken
        obtain ⟨count, room⟩ := not_or.mp fits
        have inside : c.pos ≤ c.buf.length := by omega
        rw [Reader.read, if_neg, Cursor.rest_append tail inside, List.take_append_of_le_length]
        · rfl
        · rw [Cursor.length_rest]
          omega
        · rw [Cursor.append_buf, Cursor.append_pos, List.length_append]
          omega
  error c e tail failed fatal := by
    rw [Reader.read] at failed
    split at failed
    · next bad =>
        cases failed
        have negative : n < 0 := not_le.mp fatal
        exact ⟨_, if_pos (.inl negative)⟩
    · cases failed

theorem stands_seek (pos : Nat) : Stands Lacks (seek pos) where
  ok c v next tail done := by
    rw [seek] at done
    split at done
    · cases done
    · next inside =>
        cases done
        rw [seek, if_neg]
        · rfl
        · rw [Cursor.append_buf, List.length_append]
          omega
  error c e tail failed fatal := by
    rw [seek] at failed
    split at failed
    · cases failed
      exact absurd trivial fatal
    · cases failed

theorem stands_readLabel (n : Nat) (positive : 1 ≤ n) (bound : n ≤ maxLabel) :
    Stands Lacks (readLabel n positive bound) where
  ok c v next tail taken := by
    rw [readLabel] at taken
    split at taken
    · next fits =>
        cases taken
        have room : n ≤ c.buf.length - c.pos := Cursor.length_rest c ▸ fits
        have inside : c.pos ≤ c.buf.length := by omega
        have rest := Cursor.rest_append tail inside
        have longer : n ≤ (c.append tail).rest.length := by
          rw [rest, List.length_append]
          omega
        rw [readLabel, dif_pos longer]
        simp only [rest, List.take_append_of_le_length fits]
        rfl
    · cases taken
  error c e tail failed fatal := by
    rw [readLabel] at failed
    split at failed
    · cases failed
    · cases failed
      exact absurd (Int.natCast_nonneg n) fatal

theorem closed_stands : Closed fun {α : Type} (p : Read α) => Stands Lacks p where
  pure v := .pure v
  throw e := .throw e
  bind head next := head.bind next
  tell := stands_tell
  u8 := stands_u8
  u16 := stands_u16
  u32 := stands_u32
  read := stands_read
  seek := stands_seek
  label := stands_readLabel

/-! ### Data that ends where the record says -/

theorem within_tell : Within tell := by
  intro c v next same
  cases same
  exact ⟨rfl, Nat.le_refl _, fun n _ => rfl⟩

theorem within_u8 : Within u8 := by
  intro c v next taken
  rw [u8] at taken
  split at taken
  · next tail here =>
      cases taken
      refine ⟨rfl, Nat.le_succ _, fun n behind => ?_⟩
      obtain ⟨k, more⟩ : ∃ k, n - c.pos = k + 1 := ⟨n - c.pos - 1, by rw [Cursor.advance_pos] at behind; omega⟩
      rw [u8, Cursor.rest_cut, here, more]
      rfl
  · cases taken

theorem within_u16 : Within u16 := by
  intro c v next taken
  rw [u16] at taken
  split at taken
  · next a b tail here =>
      cases taken
      refine ⟨rfl, Nat.le_add_right _ 2, fun n behind => ?_⟩
      obtain ⟨k, more⟩ : ∃ k, n - c.pos = k + 2 := ⟨n - c.pos - 2, by rw [Cursor.advance_pos] at behind; omega⟩
      rw [u16, Cursor.rest_cut, here, more]
      rfl
  · cases taken

theorem within_read (count : Int) : Within (read count) := by
  intro c v next taken
  rw [Reader.read] at taken
  split at taken
  · cases taken
  · next fits =>
      cases taken
      refine ⟨rfl, Nat.le_add_right _ _, fun n behind => ?_⟩
      rw [Cursor.advance_pos] at behind
      rw [Reader.read, if_neg, Cursor.rest_cut, List.take_take, Nat.min_eq_left (by omega)]
      · rfl
      · rw [Cursor.cut_buf, Cursor.cut_pos, List.length_take]
        omega

theorem within_readTo (stop : Nat) : Within (readTo stop) := within_tell.bind fun _ => within_read _

theorem within_readCounted : Within readCounted := within_u8.bind fun _ => within_read _

theorem within_raiseIf {condition : Prop} [Decidable condition] (e : WireError) :
    Within (raiseIf condition e : Read Unit) := by
  intro c v next done
  by_cases bad : condition
  · rw [raiseIf, if_pos bad] at done
    cases done
  · rw [raiseIf, if_neg bad] at done ⊢
    exact Within.pure () c v next done

/-- What is read behind a place that was told. -/
theorem ends_told {α : Type} {f : Nat → Read α} {pos stop : Nat} (next : EndsAt (f pos) pos stop) :
    EndsAt (tell >>= f) pos stop := by
  intro c w last here done
  obtain ⟨place, middle, told, rest⟩ := Cursor.bind_eq_ok.mp done
  cases told
  exact next c w last here (here ▸ rest)

theorem ends_u8 (pos : Nat) : EndsAt u8 pos (pos + 1) := by
  intro c v next here taken
  rw [u8_pos taken, here]

theorem ends_u16 (pos : Nat) : EndsAt u16 pos (pos + 2) := by
  intro c v next here taken
  rw [u16_pos taken, here]

theorem read_pos {n : Int} {c next : Reader} {v : Octets} (taken : read n c = .ok (v, next)) :
    0 ≤ n ∧ next.pos = c.pos + n.toNat := by
  rw [Reader.read] at taken
  split at taken
  · cases taken
  · next fits =>
      cases taken
      exact ⟨not_lt.mp (not_or.mp fits).1, rfl⟩

/-- What is left of the length behind so many octets. -/
theorem ends_read_left (rdlen k pos : Nat) : EndsAt (read ((rdlen : Int) - k)) (pos + k) (pos + rdlen) := by
  intro c v next here taken
  obtain ⟨left, ends⟩ := read_pos taken
  omega

theorem ends_readTo (pos stop : Nat) : EndsAt (readTo stop) pos stop := by
  intro c v next here done
  obtain ⟨place, middle, told, taken⟩ := Cursor.bind_eq_ok.mp done
  cases told
  obtain ⟨left, ends⟩ := read_pos taken
  omega

/-- The types whose data goes on to the end of the record, whatever is in it. -/
def ownEnd : List RRType :=
  [RRType.a, RRType.aaaa, RRType.caa, RRType.sshfp, RRType.tlsa, RRType.ds, RRType.cds, RRType.dnskey,
    RRType.cdnskey, RRType.nsec3, RRType.uri]

/-- The codec reads on to the end of its record. -/
def ReadsOwn (codec : Nat → Read Rdata) : Prop :=
  ∀ rdlen, Within (codec rdlen) ∧ ∀ pos, EndsAt (codec rdlen) pos (pos + rdlen)

theorem readsOwn_address {codec : Nat → Read Rdata} {make : Octets → Rdata} {width : Nat} {e : WireError}
    (reads : ∀ n, codec n = (do
      raiseIf (n ≠ width) e
      let octets ← read width
      return make octets)) : ReadsOwn codec := by
  intro rdlen
  rw [reads]
  refine ⟨(within_raiseIf e).bind fun _ => (within_read _).bind fun _ => .pure _, fun pos c v next here done => ?_⟩
  by_cases same : rdlen = width
  · subst same
    rw [Cursor.bind_ok (Cursor.raiseIf_apply e c (not_not.mpr rfl))] at done
    obtain ⟨octets, middle, taken, rest⟩ := Cursor.bind_eq_ok.mp done
    cases rest
    obtain ⟨-, ends⟩ := read_pos taken
    rw [ends, here, Int.toNat_natCast]
  · rw [raiseIf, if_pos same] at done
    cases done

theorem readsOwn_dispatch : ∀ entry ∈ registry, entry.1 ∈ ownEnd → ReadsOwn entry.2 := by
  have ds (make : DsData → Rdata) : ReadsOwn (parseDs make) := fun rdlen =>
    ⟨within_u16.bind fun _ => within_u8.bind fun _ => within_u8.bind fun _ => (within_read _).bind fun _ => .pure _,
      fun pos => (ends_u16 pos).bind fun _ => (ends_u8 _).bind fun _ => (ends_u8 _).bind fun _ =>
        (ends_read_left rdlen 4 pos).bind fun _ => .pure _ _⟩
  have dnskey (make : DnskeyData → Rdata) : ReadsOwn (parseDnskey make) := fun rdlen =>
    ⟨within_u16.bind fun _ => within_u8.bind fun _ => within_u8.bind fun _ => (within_read _).bind fun _ => .pure _,
      fun pos => (ends_u16 pos).bind fun _ => (ends_u8 _).bind fun _ => (ends_u8 _).bind fun _ =>
        (ends_read_left rdlen 4 pos).bind fun _ => .pure _ _⟩
  have none (codec : Nat → Read Rdata) {t : RRType} (other : t ∉ ownEnd) : t ∈ ownEnd → ReadsOwn codec :=
    fun held => absurd held other
  simp only [registry, List.forall_mem_cons]
  refine ⟨fun _ => readsOwn_address fun _ => rfl, fun _ => readsOwn_address fun _ => rfl, none _ (by decide),
    none _ (by decide), none _ (by decide), none _ (by decide), none _ (by decide), none _ (by decide),
    none _ (by decide), none _ (by decide), none _ (by decide), none _ (by decide), fun _ rdlen => ?caa,
    fun _ rdlen => ?sshfp, fun _ rdlen => ?tlsa, fun _ => ds _, fun _ => ds _, fun _ => dnskey _, fun _ => dnskey _,
    none _ (by decide), none _ (by decide), fun _ rdlen => ?nsec3, none _ (by decide), none _ (by decide),
    fun _ rdlen => ?uri, none _ (by decide), none _ (by decide), none _ (by decide),
    fun _ held => absurd held List.not_mem_nil⟩
  case caa =>
    refine ⟨within_tell.bind fun _ => within_u8.bind fun _ => within_readCounted.bind fun _ =>
      (within_readTo _).bind fun _ => .pure _, fun pos => ends_told ?_⟩
    exact .bind_any fun _ _ => .bind_any fun _ _ => (ends_readTo _ _).bind fun _ => .pure _ _
  case sshfp =>
    exact ⟨within_u8.bind fun _ => within_u8.bind fun _ => (within_read _).bind fun _ => .pure _,
      fun pos => (ends_u8 pos).bind fun _ => (ends_u8 _).bind fun _ =>
        (ends_read_left rdlen 2 pos).bind fun _ => .pure _ _⟩
  case tlsa =>
    exact ⟨within_u8.bind fun _ => within_u8.bind fun _ => within_u8.bind fun _ =>
      (within_read _).bind fun _ => .pure _, fun pos => (ends_u8 pos).bind fun _ => (ends_u8 _).bind fun _ =>
        (ends_u8 _).bind fun _ => (ends_read_left rdlen 3 pos).bind fun _ => .pure _ _⟩
  case nsec3 =>
    refine ⟨within_tell.bind fun _ => within_u8.bind fun _ => within_u8.bind fun _ => within_u16.bind fun _ =>
      within_readCounted.bind fun _ => within_readCounted.bind fun _ => (within_readTo _).bind fun _ => .pure _,
      fun pos => ends_told ?_⟩
    exact .bind_any fun _ _ => .bind_any fun _ _ => .bind_any fun _ _ => .bind_any fun _ _ => .bind_any fun _ _ =>
      (ends_readTo _ _).bind fun _ => .pure _ _
  case uri =>
    exact ⟨within_u16.bind fun _ => within_u16.bind fun _ => (within_read _).bind fun _ => .pure _,
      fun pos => (ends_u16 pos).bind fun _ => (ends_u16 _).bind fun _ =>
        (ends_read_left rdlen 4 pos).bind fun _ => .pure _ _⟩

/-! ### Data of counted strings -/

/-- The types whose data is counted strings alone. -/
def countedOnly : List RRType := [RRType.txt, RRType.spf, RRType.hinfo, RRType.nsec3param]

/-- So many octets, and more, are there once they are added. -/
theorem length_rest_filled (c : Reader) (n : Nat) :
    n ≤ (c.append (List.replicate (c.pos + n) 0)).rest.length := by
  rw [Cursor.length_rest, Cursor.append_buf, Cursor.append_pos, List.length_append, List.length_replicate]
  omega

theorem completes_u8 : Completes 0 u8 := by
  intro c
  refine ⟨c.pos + 1, ?_⟩
  have long := length_rest_filled c 1
  rw [u8]
  cases rest : (c.append (List.replicate (c.pos + 1) 0)).rest with
  | nil =>
      rw [rest] at long
      cases long
  | cons v tail => exact ⟨v, _, rfl⟩

theorem completes_u16 : Completes 0 u16 := by
  intro c
  refine ⟨c.pos + 2, ?_⟩
  have long := length_rest_filled c 2
  rw [u16]
  rcases rest : (c.append (List.replicate (c.pos + 2) 0)).rest with _ | ⟨high, _ | ⟨low, tail⟩⟩
  · rw [rest] at long
    cases long
  · rw [rest] at long
    exact absurd long (Nat.lt_irrefl 1)
  · exact ⟨join16 high low, _, rfl⟩

theorem completes_read (n : Nat) : Completes 0 (read n) := by
  intro c
  refine ⟨c.pos + n, _, _, if_neg ?_⟩
  rw [Cursor.append_buf, Cursor.append_pos, List.length_append, List.length_replicate]
  omega

theorem completes_readCounted : Completes 0 readCounted := completes_u8.bind stands_u8 fun _ => completes_read _

theorem completes_tell : Completes 0 tell := fun _ => ⟨0, _, _, rfl⟩

theorem completes_readStrings (fuel stop : Nat) (out : List Octets) : Completes 0 (readStrings fuel stop out) := by
  induction fuel generalizing out with
  | zero => exact .pure _
  | succ fuel ih =>
      rw [readStrings]
      refine completes_tell.bind stands_tell fun here => ?_
      split
      · exact completes_readCounted.bind closed_stands.counted fun s => ih _
      · exact .pure _

theorem completes_dispatch : ∀ entry ∈ registry, entry.1 ∈ countedOnly → ∀ rdlen, Completes 0 (entry.2 rdlen) := by
  have txt (make : List Octets → Rdata) (rdlen : Nat) : Completes 0 (parseTxt make rdlen) :=
    completes_tell.bind stands_tell fun _ =>
      (completes_readStrings _ _ _).bind (closed_stands.strings _ _ _) fun _ => .pure _
  have none (codec : Nat → Read Rdata) {t : RRType} (other : t ∉ countedOnly) :
      t ∈ countedOnly → ∀ rdlen, Completes 0 (codec rdlen) := fun held => absurd held other
  simp only [registry, List.forall_mem_cons]
  refine ⟨none _ (by decide), none _ (by decide), none _ (by decide), none _ (by decide), none _ (by decide),
    none _ (by decide), none _ (by decide), none _ (by decide), none _ (by decide), fun _ => txt _, fun _ => txt _,
    fun _ rdlen => ?hinfo, none _ (by decide), none _ (by decide), none _ (by decide), none _ (by decide),
    none _ (by decide), none _ (by decide), none _ (by decide), none _ (by decide), none _ (by decide),
    none _ (by decide), fun _ rdlen => ?nsec3param, none _ (by decide), none _ (by decide), none _ (by decide),
    none _ (by decide), none _ (by decide), fun _ held => absurd held List.not_mem_nil⟩
  case hinfo =>
    exact completes_readCounted.bind closed_stands.counted fun _ =>
      completes_readCounted.bind closed_stands.counted fun _ => .pure _
  case nsec3param =>
    exact completes_u8.bind stands_u8 fun _ => completes_u8.bind stands_u8 fun _ =>
      completes_u16.bind stands_u16 fun _ => completes_readCounted.bind closed_stands.counted fun _ => .pure _

/-! ### What the octets behind decide -/

/-- What a caller sees of a record's data: nothing where the message is refused for it. -/
def outcome (t : RRType) (rdlen : Nat) (c : Reader) : Option Rdata := (parseRdata t rdlen c).toOption.map Prod.fst

/-- The type's reader runs out of the octets up to the record's end, and octets behind let it come to an
end: always for counted strings alone; with a name in the data it depends on the octets, and a type that
is not kept raw has to end at the record's end. -/
def Borrows (t : RRType) (front : Octets) (start rdlen : Nat) : Prop :=
  ∃ codec, registry.lookup t = some codec ∧ (∃ e, codec rdlen ⟨front, start⟩ = .error e ∧ Lacks e) ∧
    (t ∈ countedOnly ∨ (t ∈ nameBearing ∨ t = RRType.tsig) ∧
      ∃ tail v next, codec rdlen ⟨front ++ tail, start⟩ = .ok (v, next) ∧
        (t ∈ nameBearing → next.pos = start + rdlen))

section

variable {t : RRType} {codec : Nat → Read Rdata} {front : Octets} {start rdlen : Nat}

/-- The four kinds of types that are registered. -/
theorem kinds_dispatch : ∀ entry ∈ registry, entry.1 ∈ nameBearing ∨ entry.1 = RRType.tsig ∨
    entry.1 ∈ countedOnly ∨ entry.1 ∈ ownEnd := by
  simp [registry, nameBearing, countedOnly, ownEnd]

theorem counted_not_nameBearing : ∀ t ∈ countedOnly, t ∉ nameBearing := by
  simp only [countedOnly, List.forall_mem_cons]
  exact ⟨by decide, by decide, by decide, by decide, fun t held => absurd held List.not_mem_nil⟩

theorem outcome_ok {c next : Reader} {v : Rdata} (found : registry.lookup t = some codec)
    (done : codec rdlen c = .ok (v, next)) :
    outcome t rdlen c = if next.pos = c.pos + rdlen then some v else none := by
  rw [outcome, parseRdata, found]
  dsimp only
  rw [done]
  dsimp only
  split
  · rfl
  · next same =>
      rw [if_pos (not_not.mp same)]
      rfl

theorem outcome_error {c : Reader} {e : WireError} (found : registry.lookup t = some codec)
    (failed : codec rdlen c = .error e) :
    outcome t rdlen c = if t ∈ nameBearing then none else
      ((readUnknown t rdlen c).toOption.map Prod.fst) := by
  rw [outcome, parseRdata, found]
  dsimp only
  rw [failed]
  dsimp only
  split
  · rfl
  · rfl

/-- The octets of the record are kept raw, whatever is behind them. -/
theorem readUnknown_front (ends : start + rdlen = front.length) (tail : Octets) :
    (readUnknown t rdlen ⟨front ++ tail, start⟩).toOption.map Prod.fst = some (.unknown t (front.drop start)) := by
  have front' : readUnknown t rdlen ⟨front, start⟩ =
      .ok (.unknown t (front.drop start), ⟨front, start + rdlen⟩) := by
    have taken : Reader.read rdlen ⟨front, start⟩ = .ok (front.drop start, ⟨front, start + rdlen⟩) := by
      rw [Reader.read, if_neg]
      · change Except.ok ((front.drop start).take rdlen, _) = _
        rw [List.take_of_length_le]
        · rfl
        · rw [List.length_drop]
          omega
      · dsimp only
        omega
    rw [readUnknown, Cursor.bind_ok taken]
    rfl
  have stands : Stands Lacks (readUnknown t rdlen) := (stands_read _).bind fun _ => .pure _
  have longer := stands.ok _ _ _ tail front'
  rw [Cursor.append] at longer
  rw [longer]
  rfl

theorem kind_of_lookup (found : registry.lookup t = some codec) :
    t ∈ nameBearing ∨ t = RRType.tsig ∨ t ∈ countedOnly ∨ t ∈ ownEnd :=
  kinds_dispatch (t, codec) (lookup_mem found)

/-- Some octets behind let a reader come to an end that borrows. -/
theorem Borrows.mends (borrows : Borrows t front start rdlen) : ∃ codec tail v next e,
    registry.lookup t = some codec ∧ codec rdlen ⟨front, start⟩ = .error e ∧
      codec rdlen ⟨front ++ tail, start⟩ = .ok (v, next) ∧ (t ∈ nameBearing → next.pos = start + rdlen) := by
  obtain ⟨codec, found, ⟨e, starved, -⟩, counted | ⟨-, tail, v, next, done, exact⟩⟩ := borrows
  · obtain ⟨n, v, next, done⟩ := completes_dispatch _ (lookup_mem found) counted rdlen ⟨front, start⟩
    exact ⟨codec, _, v, next, e, found, starved, done, fun names => absurd names (counted_not_nameBearing t counted)⟩
  · exact ⟨codec, tail, v, next, e, found, starved, done, exact⟩

/-- What a reader comes to an end with that had run out of octets is refused, unless it borrows. -/
theorem refused_of_not_borrows {e : WireError} {tail : Octets} {v : Rdata} {next : Reader}
    (ends : start + rdlen = front.length) (keeps : ¬Borrows t front start rdlen)
    (found : registry.lookup t = some codec) (starved : codec rdlen ⟨front, start⟩ = .error e) (lacks : Lacks e)
    (done : codec rdlen ⟨front ++ tail, start⟩ = .ok (v, next)) : t ∈ nameBearing ∧ next.pos ≠ start + rdlen := by
  rcases kind_of_lookup found with names | tsig | counted | own
  · exact ⟨names, fun same => keeps ⟨codec, found, ⟨e, starved, lacks⟩, .inr ⟨.inl names, tail, v, next, done,
      fun _ => same⟩⟩⟩
  · exact absurd ⟨codec, found, ⟨e, starved, lacks⟩, .inr ⟨.inr tsig, tail, v, next, done,
      fun names => absurd (tsig ▸ names) (by decide)⟩⟩ keeps
  · exact absurd ⟨codec, found, ⟨e, starved, lacks⟩, .inl counted⟩ keeps
  · -- the reader ends at the record's end, so it did not need what is behind
    obtain ⟨within, stops⟩ : Within (codec rdlen) ∧ ∀ pos, EndsAt (codec rdlen) pos (pos + rdlen) :=
      readsOwn_dispatch _ (lookup_mem found) own rdlen
    have stop := stops start _ v next rfl done
    have short := (within _ v next done).2.2 front.length (by rw [stop, ends])
    have cut : (Cursor.cut ⟨front ++ tail, start⟩ front.length : Reader) = ⟨front, start⟩ := by
      rw [Cursor.cut, List.take_left]
    rw [cut, starved] at short
    cases short

/-- The outcome is the same whatever is behind the record, just when its reader borrows nothing. -/
theorem outcome_steady_iff (t : RRType) (front : Octets) (start rdlen : Nat) (ends : start + rdlen = front.length) :
    (∀ tail other, outcome t rdlen ⟨front ++ tail, start⟩ = outcome t rdlen ⟨front ++ other, start⟩) ↔
      ¬Borrows t front start rdlen := by
  have bare : (⟨front ++ [], start⟩ : Reader) = ⟨front, start⟩ := by rw [List.append_nil]
  constructor
  · intro steady borrows
    obtain ⟨codec, tail, v, next, e, found, starved, done, exact⟩ := borrows.mends
    have same := steady [] tail
    rw [bare, outcome_error found starved, outcome_ok found done] at same
    split at same
    · next names =>
        rw [if_pos (exact names)] at same
        cases same
    · have raw := readUnknown_front (t := t) ends []
      rw [bare] at raw
      rw [raw] at same
      split at same
      · have typed := (sound_of_lookup found rdlen _ v next done).1
        rw [← Option.some.inj same] at typed
        exact typed
      · cases same
  · intro keeps
    have same (tail : Octets) : outcome t rdlen ⟨front ++ tail, start⟩ = outcome t rdlen ⟨front, start⟩ := by
      cases found : registry.lookup t with
      | none =>
          have raw := readUnknown_front (t := t) ends
          rw [outcome, outcome, parseRdata, parseRdata, found]
          exact (raw tail).trans (bare ▸ (raw []).symm)
      | some codec =>
          have stands : Stands Lacks (codec rdlen) := closed_stands.dispatch _ (lookup_mem found) rdlen
          have failing {e e' : WireError} (longer : codec rdlen ⟨front ++ tail, start⟩ = .error e')
              (failed : codec rdlen ⟨front, start⟩ = .error e) :
              outcome t rdlen ⟨front ++ tail, start⟩ = outcome t rdlen ⟨front, start⟩ := by
            have raw := readUnknown_front (t := t) ends
            rw [outcome_error found longer, outcome_error found failed, raw tail, ← raw [], bare]
          cases first : codec rdlen ⟨front, start⟩ with
          | ok both =>
              obtain ⟨v, next⟩ := both
              have longer : codec rdlen ⟨front ++ tail, start⟩ = .ok (v, next.append tail) :=
                stands.ok _ v next tail first
              rw [outcome_ok found first, outcome_ok found longer]
              rfl
          | error e =>
              cases longer : codec rdlen ⟨front ++ tail, start⟩ with
              | error e' => exact failing longer first
              | ok both =>
                  obtain ⟨v, next⟩ := both
                  by_cases lacks : Lacks e
                  · obtain ⟨names, past⟩ := refused_of_not_borrows ends keeps found first lacks longer
                    rw [outcome_ok found longer, outcome_error found first, if_neg past, if_pos names]
                  · obtain ⟨e', failed⟩ : ∃ e', codec rdlen ⟨front ++ tail, start⟩ = .error e' :=
                      stands.error _ e tail first lacks
                    rw [failed] at longer
                    cases longer
    exact fun tail other => (same tail).trans (same other).symm

end

/-- An alias for the root is read alike whatever is behind it. -/
theorem outcome_steady_rootTarget :
    outcome RRType.cname 1 ⟨[0] ++ [], 0⟩ = outcome RRType.cname 1 ⟨[0] ++ [0x3F, 0xC0], 0⟩ := by
  refine (outcome_steady_iff RRType.cname [0] 0 1 rfl).mpr ?_ [] [0x3F, 0xC0]
  rintro ⟨codec, found, ⟨e, starved, -⟩, -⟩
  cases found
  cases starved

/-- A string of one octet that says it has three is kept raw at the end of a message, and refused before two
more octets. -/
theorem outcome_borrowed : ¬∀ (t : RRType) (front : Octets) (start rdlen : Nat), start + rdlen = front.length →
    ∀ tail other, outcome t rdlen ⟨front ++ tail, start⟩ = outcome t rdlen ⟨front ++ other, start⟩ := by
  intro all
  have same := all RRType.txt [3, 0x61] 0 2 rfl [] [0x62, 0x63]
  exact absurd same (by decide +kernel)

-- a pointer to a label that runs on behind the record, to a name that ends there
example : outcome RRType.ns 2 ⟨[2, 0xC0, 0], 1⟩ = none ∧ (outcome RRType.ns 2 ⟨[2, 0xC0, 0, 0], 1⟩).isSome = true := by
  decide +kernel

end Trench.Wire.Rdata
