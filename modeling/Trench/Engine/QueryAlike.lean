import Mathlib
import Trench.Engine.QueryKey

set_option autoImplicit false

/- What the parser makes of two queries with one key. -/

namespace Trench.Engine

open Wire Reader
open Cursor (Agree)

/-! ### The names of a record -/

/-- What stands before the name in the data of a NAPTR record. -/
def naptrHead : Read Octets := do
  let _ ← u16
  let _ ← u16
  let _ ← Rdata.readCounted
  let _ ← Rdata.readCounted
  Rdata.readCounted

/-- Where the parser reads a name in the data of a record. -/
def namePlaces (rtype : RRType) (d : Octets) (pos : Nat) : List Nat :=
  if rtype ∈ [RRType.ns, RRType.cname, RRType.ptr, RRType.dname, RRType.nsec, RRType.tsig] then [pos]
  else if rtype = RRType.soa then
    match readName ⟨d, pos⟩ with
    | .ok (_, c) => [pos, c.pos]
    | .error _ => [pos]
  else if rtype ∈ [RRType.mx, RRType.svcb, RRType.https] then [pos + 2]
  else if rtype = RRType.srv then [pos + 6]
  else if rtype = RRType.rrsig then [pos + 18]
  else if rtype = RRType.naptr then
    match naptrHead ⟨d, pos⟩ with
    | .ok (_, c) => [c.pos]
    | .error _ => []
  else []

/-- Every name that the parser reads in the records from `r` on is steady. -/
def SteadyRecords (d : Octets) (stop : Nat) : Nat → Nat → Option Edns → Prop
  | 0, _, _ => True
  | n + 1, pos, edns =>
    Steady d stop pos ∧ ∀ head next, readHead ⟨d, pos⟩ = .ok (head, ⟨d, next⟩) →
      if head.rtype = RRType.opt then
        ∀ opt last, readOpt head edns ⟨d, next⟩ = .ok (opt, ⟨d, last⟩) →
          SteadyRecords d stop n last (some opt)
      else
        (∀ p ∈ namePlaces head.rtype d next, Steady d stop p) ∧
          ∀ rr last, readBody head ⟨d, next⟩ = .ok (rr, ⟨d, last⟩) → SteadyRecords d stop n last edns

/-! ### Data -/

/-- Data that differs in the letter case of names. -/
def SameData (a b : Rdata) : Prop := a.fold = b.fold

/-- The reader of a type gives the same data but for letter case. -/
def ReadsAlike (rtype : RRType) (codec : Nat → Read Rdata) : Prop :=
  ∀ (n : Nat) {d d' : Octets} {stop pos : Nat}, Alike d d' stop → stop ≤ pos →
    (∀ p ∈ namePlaces rtype d pos, Steady d stop p) → Agree d d' stop SameData (codec n) (codec n) pos

section

variable {d d' : Octets} {stop pos : Nat} {β : Type} {S : β → β → Prop}

theorem then_name (alike : Alike d d' stop) (behind : stop ≤ pos) (still : Steady d stop pos)
    {f f' : Name → Read β}
    (later : ∀ name name' next, SameName name name' → stop ≤ next →
      readName ⟨d, pos⟩ = .ok (name, ⟨d, next⟩) → Agree d d' stop S (f name) (f' name') next) :
    Agree d d' stop S (readName >>= f) (readName >>= f') pos :=
  (readName_agree alike still behind).bind later

end

theorem alike_a : ReadsAlike RRType.a Rdata.parseA := by
  intro n d d' stop pos alike behind _
  apply Agree.test
  intro _
  apply (agree_read alike.shares behind 4).then
  intro octets next inside _
  exact .pure rfl inside

theorem alike_aaaa : ReadsAlike RRType.aaaa Rdata.parseAaaa := by
  intro n d d' stop pos alike behind _
  apply Agree.test
  intro _
  apply (agree_read alike.shares behind 16).then
  intro octets next inside _
  exact .pure rfl inside

theorem alike_name {rtype : RRType} {make : Name → Rdata}
    (places : ∀ d pos, namePlaces rtype d pos = [pos])
    (folds : ∀ a b, SameName a b → (make a).fold = (make b).fold) :
    ReadsAlike rtype (Rdata.parseName make) := by
  intro n d d' stop pos alike behind still
  rw [places] at still
  apply then_name alike behind (still pos List.mem_cons_self)
  intro name name' next same inside _
  exact .pure (folds name name' same) inside

theorem alike_soa : ReadsAlike RRType.soa Rdata.parseSoa := by
  intro n d d' stop pos alike behind still
  have places : namePlaces RRType.soa d pos = (match readName ⟨d, pos⟩ with
    | .ok (_, c) => [pos, c.pos]
    | .error _ => [pos]) := rfl
  rw [places] at still
  have first : Steady d stop pos := by
    apply still
    split <;> exact List.mem_cons_self
  apply then_name alike behind first
  intro mname mname' next same inside read
  rw [read] at still
  apply then_name alike inside (still next (List.mem_cons_of_mem _ List.mem_cons_self))
  intro rname rname' next same' inside _
  apply (agree_u32 alike.shares inside).then
  intro serial next inside _
  apply (agree_u32 alike.shares inside).then
  intro refresh next inside _
  apply (agree_u32 alike.shares inside).then
  intro retry next inside _
  apply (agree_u32 alike.shares inside).then
  intro expire next inside _
  apply (agree_u32 alike.shares inside).then
  intro minimum next inside _
  apply Agree.pure _ inside
  show Rdata.fold _ = Rdata.fold _
  unfold SameName at same same'
  simp only [Rdata.fold, same, same']

theorem alike_mx : ReadsAlike RRType.mx Rdata.parseMx := by
  intro n d d' stop pos alike behind still
  apply (agree_u16 alike.shares behind).then
  intro preference next inside read
  cases u16_next read
  apply then_name alike inside (still (pos + 2) List.mem_cons_self)
  intro exchange exchange' next same inside _
  apply Agree.pure _ inside
  show Rdata.fold _ = Rdata.fold _
  unfold SameName at same
  simp only [Rdata.fold, same]

theorem alike_srv : ReadsAlike RRType.srv Rdata.parseSrv := by
  intro n d d' stop pos alike behind still
  apply (agree_u16 alike.shares behind).then
  intro priority next inside read
  cases u16_next read
  apply (agree_u16 alike.shares inside).then
  intro weight next inside read
  cases u16_next read
  apply (agree_u16 alike.shares inside).then
  intro port next inside read
  cases u16_next read
  apply then_name alike inside (still (pos + 6) List.mem_cons_self)
  intro target target' next same inside _
  apply Agree.pure _ inside
  show Rdata.fold _ = Rdata.fold _
  unfold SameName at same
  simp only [Rdata.fold, same]

theorem agree_readStrings {d d' : Octets} {stop : Nat} (shares : Cursor.Shares d d' stop) (fuel last : Nat) :
    ∀ (out : List Octets) {pos : Nat}, stop ≤ pos →
      Agree d d' stop Eq (Rdata.readStrings fuel last out) (Rdata.readStrings fuel last out) pos := by
  induction fuel with
  | zero =>
    intro out pos behind
    exact .pure rfl behind
  | succ fuel ih =>
    intro out pos behind
    unfold Rdata.readStrings
    apply (agree_tell behind).then
    intro here next inside _
    by_cases more : here < last
    · rw [if_pos more]
      apply (agree_readCounted shares inside).then
      intro s next inside _
      exact ih (out ++ [s]) inside
    · rw [if_neg more]
      exact .pure rfl inside

theorem alike_txt (rtype : RRType) (make : List Octets → Rdata) :
    ReadsAlike rtype (Rdata.parseTxt make) := by
  intro n d d' stop pos alike behind _
  apply (agree_tell behind).then
  intro here next inside _
  apply (agree_readStrings alike.shares (n + 1) (here + n) [] inside).then
  intro strings next inside _
  exact .pure rfl inside

theorem alike_hinfo : ReadsAlike RRType.hinfo Rdata.parseHinfo := by
  intro n d d' stop pos alike behind _
  apply (agree_readCounted alike.shares behind).then
  intro cpu next inside _
  apply (agree_readCounted alike.shares inside).then
  intro os next inside _
  exact .pure rfl inside

theorem alike_caa : ReadsAlike RRType.caa Rdata.parseCaa := by
  intro n d d' stop pos alike behind _
  apply (agree_tell behind).then
  intro here next inside _
  apply (agree_u8 alike.shares inside).then
  intro flags next inside _
  apply (agree_readCounted alike.shares inside).then
  intro tag next inside _
  apply (agree_readTo alike.shares inside _).then
  intro value next inside _
  exact .pure rfl inside

theorem alike_sshfp : ReadsAlike RRType.sshfp Rdata.parseSshfp := by
  intro n d d' stop pos alike behind _
  apply (agree_u8 alike.shares behind).then
  intro algorithm next inside _
  apply (agree_u8 alike.shares inside).then
  intro fpType next inside _
  apply (agree_read alike.shares inside _).then
  intro fingerprint next inside _
  exact .pure rfl inside

theorem alike_tlsa : ReadsAlike RRType.tlsa Rdata.parseTlsa := by
  intro n d d' stop pos alike behind _
  apply (agree_u8 alike.shares behind).then
  intro usage next inside _
  apply (agree_u8 alike.shares inside).then
  intro selector next inside _
  apply (agree_u8 alike.shares inside).then
  intro mtype next inside _
  apply (agree_read alike.shares inside _).then
  intro cert next inside _
  exact .pure rfl inside

theorem alike_ds (rtype : RRType) (make : DsData → Rdata) : ReadsAlike rtype (Rdata.parseDs make) := by
  intro n d d' stop pos alike behind _
  apply (agree_u16 alike.shares behind).then
  intro keyTag next inside _
  apply (agree_u8 alike.shares inside).then
  intro algorithm next inside _
  apply (agree_u8 alike.shares inside).then
  intro digestType next inside _
  apply (agree_read alike.shares inside _).then
  intro digest next inside _
  exact .pure rfl inside

theorem alike_dnskey (rtype : RRType) (make : DnskeyData → Rdata) :
    ReadsAlike rtype (Rdata.parseDnskey make) := by
  intro n d d' stop pos alike behind _
  apply (agree_u16 alike.shares behind).then
  intro flags next inside _
  apply (agree_u8 alike.shares inside).then
  intro protocol next inside _
  apply (agree_u8 alike.shares inside).then
  intro algorithm next inside _
  apply (agree_read alike.shares inside _).then
  intro publicKey next inside _
  exact .pure rfl inside

theorem alike_rrsig : ReadsAlike RRType.rrsig Rdata.parseRrsig := by
  intro n d d' stop pos alike behind still
  apply Agree.step rfl rfl
  apply (agree_u16 alike.shares behind).then
  intro typeCovered next inside read
  cases u16_next read
  apply (agree_u8 alike.shares inside).then
  intro algorithm next inside read
  cases u8_next read
  apply (agree_u8 alike.shares inside).then
  intro labels next inside read
  cases u8_next read
  apply (agree_u32 alike.shares inside).then
  intro originalTtl next inside read
  cases u32_next read
  apply (agree_u32 alike.shares inside).then
  intro expiration next inside read
  cases u32_next read
  apply (agree_u32 alike.shares inside).then
  intro inception next inside read
  cases u32_next read
  apply (agree_u16 alike.shares inside).then
  intro keyTag next inside read
  cases u16_next read
  apply then_name alike inside (still (pos + 18) List.mem_cons_self)
  intro signer signer' next same inside _
  apply (agree_readTo alike.shares inside _).then
  intro signature next inside _
  apply Agree.pure _ inside
  show Rdata.fold _ = Rdata.fold _
  unfold SameName at same
  simp only [Rdata.fold, same]

theorem alike_nsec : ReadsAlike RRType.nsec Rdata.parseNsec := by
  intro n d d' stop pos alike behind still
  apply Agree.step rfl rfl
  apply then_name alike behind (still pos List.mem_cons_self)
  intro nextName nextName' next same inside _
  apply (agree_readTo alike.shares inside _).then
  intro typeBitmap next inside _
  apply Agree.pure _ inside
  show Rdata.fold _ = Rdata.fold _
  unfold SameName at same
  simp only [Rdata.fold, same]

theorem alike_nsec3param : ReadsAlike RRType.nsec3param Rdata.parseNsec3param := by
  intro n d d' stop pos alike behind _
  apply (agree_u8 alike.shares behind).then
  intro hashAlgorithm next inside _
  apply (agree_u8 alike.shares inside).then
  intro flags next inside _
  apply (agree_u16 alike.shares inside).then
  intro iterations next inside _
  apply (agree_readCounted alike.shares inside).then
  intro salt next inside _
  exact .pure rfl inside

theorem alike_nsec3 : ReadsAlike RRType.nsec3 Rdata.parseNsec3 := by
  intro n d d' stop pos alike behind _
  apply Agree.step rfl rfl
  apply (agree_u8 alike.shares behind).then
  intro hashAlgorithm next inside _
  apply (agree_u8 alike.shares inside).then
  intro flags next inside _
  apply (agree_u16 alike.shares inside).then
  intro iterations next inside _
  apply (agree_readCounted alike.shares inside).then
  intro salt next inside _
  apply (agree_readCounted alike.shares inside).then
  intro nextHashed next inside _
  apply (agree_readTo alike.shares inside _).then
  intro typeBitmap next inside _
  exact .pure rfl inside

theorem alike_naptr : ReadsAlike RRType.naptr Rdata.parseNaptr := by
  intro n d d' stop pos alike behind still
  have places : namePlaces RRType.naptr d pos = (match naptrHead ⟨d, pos⟩ with
    | .ok (_, c) => [c.pos]
    | .error _ => []) := rfl
  rw [places] at still
  apply (agree_u16 alike.shares behind).then
  intro order next₁ inside read₁
  apply (agree_u16 alike.shares inside).then
  intro preference next₂ inside read₂
  apply (agree_readCounted alike.shares inside).then
  intro flags next₃ inside read₃
  apply (agree_readCounted alike.shares inside).then
  intro service next₄ inside read₄
  apply (agree_readCounted alike.shares inside).then
  intro regexp next₅ inside read₅
  have head : naptrHead ⟨d, pos⟩ = .ok (regexp, ⟨d, next₅⟩) := by
    unfold naptrHead
    rw [Cursor.bind_ok read₁, Cursor.bind_ok read₂, Cursor.bind_ok read₃, Cursor.bind_ok read₄, read₅]
  rw [head] at still
  apply then_name alike inside (still next₅ List.mem_cons_self)
  intro replacement replacement' next same inside _
  apply Agree.pure _ inside
  show Rdata.fold _ = Rdata.fold _
  unfold SameName at same
  simp only [Rdata.fold, same]

theorem alike_uri : ReadsAlike RRType.uri Rdata.parseUri := by
  intro n d d' stop pos alike behind _
  apply (agree_u16 alike.shares behind).then
  intro priority next inside _
  apply (agree_u16 alike.shares inside).then
  intro weight next inside _
  apply (agree_read alike.shares inside _).then
  intro target next inside _
  exact .pure rfl inside

theorem alike_svcb {rtype : RRType} {make : SvcbData → Rdata}
    (places : ∀ d pos, namePlaces rtype d pos = [pos + 2])
    (folds : ∀ priority params a b, SameName a b →
      (make ⟨priority, a, params⟩).fold = (make ⟨priority, b, params⟩).fold) :
    ReadsAlike rtype (Rdata.parseSvcb make) := by
  intro n d d' stop pos alike behind still
  rw [places] at still
  apply Agree.step rfl rfl
  apply (agree_u16 alike.shares behind).then
  intro priority next inside read
  cases u16_next read
  apply then_name alike inside (still (pos + 2) List.mem_cons_self)
  intro target target' next same inside _
  apply (agree_readTo alike.shares inside _).then
  intro params next inside _
  exact .pure (folds priority params target target' same) inside

theorem alike_tsig : ReadsAlike RRType.tsig Rdata.parseTsigRdata := by
  intro n d d' stop pos alike behind still
  have data : Agree d d' stop (fun a b : TsigData => (Rdata.tsig a).fold = (Rdata.tsig b).fold)
      (Rdata.parseTsig n) (Rdata.parseTsig n) pos := by
    apply then_name alike behind (still pos List.mem_cons_self)
    intro algorithm algorithm' next same inside _
    apply (agree_u16 alike.shares inside).then
    intro high next inside _
    apply (agree_u32 alike.shares inside).then
    intro low next inside _
    apply (agree_u16 alike.shares inside).then
    intro fudge next inside _
    apply (agree_readCounted16 alike.shares inside).then
    intro mac next inside _
    apply (agree_u16 alike.shares inside).then
    intro originalId next inside _
    apply (agree_u16 alike.shares inside).then
    intro error next inside _
    apply (agree_readCounted16 alike.shares inside).then
    intro other next inside _
    apply Agree.pure _ inside
    show Rdata.fold _ = Rdata.fold _
    unfold SameName at same
    simp only [Rdata.fold, same]
  apply data.bind
  intro data data' next same inside _
  exact .pure same inside

/-- Every registered reader. -/
theorem alike_of_registered : ∀ entry ∈ Rdata.registry, ReadsAlike entry.1 entry.2 := by
  have named : ∀ (make : Name → Rdata), (∀ n, (make n).fold = make n.canonicalize) →
      ∀ a b, SameName a b → (make a).fold = (make b).fold := by
    intro make fold a b same
    rw [fold, fold, same]
  simp only [Rdata.registry, List.forall_mem_cons]
  exact ⟨alike_a, alike_aaaa, alike_name (fun _ _ => rfl) (named .ns fun _ => rfl),
    alike_name (fun _ _ => rfl) (named .cname fun _ => rfl),
    alike_name (fun _ _ => rfl) (named .ptr fun _ => rfl),
    alike_name (fun _ _ => rfl) (named .dname fun _ => rfl), alike_soa, alike_mx, alike_srv,
    alike_txt _ _, alike_txt _ _, alike_hinfo, alike_caa, alike_sshfp, alike_tlsa, alike_ds _ _,
    alike_ds _ _, alike_dnskey _ _, alike_dnskey _ _, alike_rrsig, alike_nsec, alike_nsec3,
    alike_nsec3param, alike_naptr, alike_uri,
    alike_svcb (fun _ _ => rfl) (fun priority params => named (fun n => .svcb ⟨priority, n, params⟩) fun _ => rfl),
    alike_svcb (fun _ _ => rfl) (fun priority params => named (fun n => .https ⟨priority, n, params⟩) fun _ => rfl),
    alike_tsig, fun _ held => by cases held⟩

theorem parseRdata_agree {d d' : Octets} {stop pos : Nat} (alike : Alike d d' stop)
    (behind : stop ≤ pos) (rtype : RRType) (n : Nat)
    (still : ∀ p ∈ namePlaces rtype d pos, Steady d stop p) :
    Agree d d' stop SameData (Rdata.parseRdata rtype n) (Rdata.parseRdata rtype n) pos := by
  have raw : Agree d d' stop SameData (Rdata.readUnknown rtype n) (Rdata.readUnknown rtype n) pos := by
    apply (agree_read alike.shares behind n).then
    intro octets next inside _
    exact .pure rfl inside
  unfold Agree Rdata.parseRdata
  cases found : Rdata.registry.lookup rtype with
  | none => exact raw
  | some codec =>
    have reads := alike_of_registered _ (Rdata.lookup_mem found) n alike behind still
    rcases reads.cases with ⟨e, e', one, two⟩ | ⟨rd, rd', next, same, inside, one, two⟩
    · dsimp only at one two ⊢
      rw [one, two]
      by_cases bearing : rtype ∈ Rdata.nameBearing
      · simp only [if_pos bearing]
      · simp only [if_neg bearing]
        exact raw
    · dsimp only at one two ⊢
      rw [one, two]
      by_cases used : next ≠ pos + n
      · simp only [if_pos used]
      · simp only [if_neg used]
        exact ⟨same, next, inside, rfl, rfl⟩

/-! ### Records -/

/-- The fields of two records before their data, but for the letter case of the owner. -/
def SameHead (a b : RRHead) : Prop := SameName a.name b.name ∧ { a with name := b.name } = b

theorem readHead_agree {d d' : Octets} {stop pos : Nat} (alike : Alike d d' stop)
    (behind : stop ≤ pos) (still : Steady d stop pos) :
    Agree d d' stop SameHead readHead readHead pos := by
  apply then_name alike behind still
  intro name name' next same inside _
  apply (agree_u16 alike.shares inside).then
  intro rtype next inside _
  apply (agree_u16 alike.shares inside).then
  intro rclass next inside _
  apply (agree_u32 alike.shares inside).then
  intro ttl next inside _
  apply (agree_u16 alike.shares inside).then
  intro rdlen next inside _
  exact .pure ⟨same, rfl⟩ inside

theorem agree_seek {d d' : Octets} {stop pos : Nat} (alike : Alike d d' stop) {place : Nat}
    (inside : stop ≤ place) : Agree d d' stop Eq (seek place) (seek place) pos := by
  unfold Agree seek
  rw [alike.shares.length]
  split_ifs
  · trivial
  · exact ⟨rfl, place, inside, rfl, rfl⟩

theorem readOpt_agree {d d' : Octets} {stop pos : Nat} (alike : Alike d d' stop)
    (behind : stop ≤ pos) {head head' : RRHead} (same : SameHead head head') (edns : Option Edns) :
    Agree d d' stop Eq (readOpt head edns) (readOpt head' edns) pos := by
  obtain ⟨name, rest⟩ := same
  have labels : head.name.labels ≠ [] ↔ head'.name.labels ≠ [] := by
    unfold SameName Name.canonicalize Name.lower at name
    have maps := congrArg (fun n : Name => n.labels = []) name
    simp only [List.map_eq_nil_iff, eq_iff_iff] at maps
    rw [Ne, Ne, maps]
  have condition : (edns.isSome = true ∨ head.name.labels ≠ []) ↔
      (edns.isSome = true ∨ head'.name.labels ≠ []) := by
    rw [labels]
  have fields : head.rtype = head'.rtype ∧ head.rclass = head'.rclass ∧ head.ttl = head'.ttl ∧
      head.rdlen = head'.rdlen := by
    rw [← rest]
    exact ⟨rfl, rfl, rfl, rfl⟩
  obtain ⟨-, rclass, ttl, rdlen⟩ := fields
  unfold readOpt
  rw [← rclass, ← ttl, ← rdlen]
  apply Agree.step rfl rfl
  apply Agree.test_iff condition
  intro _
  apply (agree_read alike.shares behind _).then
  intro data next inside _
  apply (agree_seek alike (show stop ≤ pos + head.rdlen.toNat by omega)).then
  intro _ next inside _
  exact .pure rfl inside

/-- Records that differ in the letter case of names. -/
def SameRR (a b : RR) : Prop := a.fold = b.fold

theorem readBody_agree {d d' : Octets} {stop pos : Nat} (alike : Alike d d' stop)
    (behind : stop ≤ pos) {head head' : RRHead} (same : SameHead head head')
    (still : ∀ p ∈ namePlaces head.rtype d pos, Steady d stop p) :
    Agree d d' stop SameRR (readBody head) (readBody head') pos := by
  obtain ⟨name, rest⟩ := same
  have fields : head.rtype = head'.rtype ∧ head.rclass = head'.rclass ∧ head.ttl = head'.ttl ∧
      head.rdlen = head'.rdlen := by
    rw [← rest]
    exact ⟨rfl, rfl, rfl, rfl⟩
  obtain ⟨rtype, rclass, ttl, rdlen⟩ := fields
  unfold readBody
  rw [← rtype, ← rclass, ← ttl, ← rdlen]
  apply Agree.step rfl rfl
  apply (parseRdata_agree alike behind head.rtype head.rdlen.toNat still).bind
  intro rdata rdata' next data inside _
  apply (agree_seek alike (show stop ≤ pos + head.rdlen.toNat by omega)).then
  intro _ next inside _
  apply Agree.pure _ inside
  unfold SameRR RR.fold
  unfold SameData at data
  unfold SameName at name
  dsimp only
  rw [data, name]

/-- Sections that differ in the letter case of names, with the same EDNS fields. -/
def SameSection (a b : List RR × Option Edns) : Prop :=
  a.1.map RR.fold = b.1.map RR.fold ∧ a.2 = b.2

theorem readRRs_agree {d d' : Octets} {stop : Nat} (alike : Alike d d' stop) (n : Nat) :
    ∀ {pos : Nat} (edns : Option Edns), stop ≤ pos → SteadyRecords d stop n pos edns →
      Agree d d' stop SameSection (readRRs true n edns) (readRRs true n edns) pos := by
  induction n with
  | zero =>
    intro pos edns behind _
    exact .pure ⟨rfl, rfl⟩ behind
  | succ n ih =>
    intro pos edns behind still
    obtain ⟨owner, records⟩ := still
    unfold readRRs
    apply (readHead_agree alike behind owner).bind
    intro head head' next same inside read
    have rest := records head next read
    have rtype : head.rtype = head'.rtype := by
      rw [← same.2]
    rw [← rtype]
    by_cases opt : head.rtype = RRType.opt
    · have both : head.rtype = RRType.opt ∧ true = true := ⟨opt, rfl⟩
      rw [if_pos both, if_pos both]
      rw [if_pos opt] at rest
      apply (readOpt_agree alike inside same edns).bind
      intro found found' last equal inside read
      cases equal
      exact ih (some found) inside (rest found last read)
    · have neither : ¬ (head.rtype = RRType.opt ∧ true = true) := fun both => opt both.1
      rw [if_neg neither, if_neg neither]
      rw [if_neg opt] at rest
      apply (readBody_agree alike inside same rest.1).bind
      intro rr rr' last equal inside read
      apply (ih edns inside (rest.2 rr last read)).bind
      intro more more' last equal' inside _
      apply Agree.pure _ inside
      unfold SameRR at equal
      constructor
      · show List.map RR.fold (rr :: more.1) = List.map RR.fold (rr' :: more'.1)
        rw [List.map_cons, List.map_cons, equal, equal'.1]
      · exact equal'.2

/-! ### Whole queries -/

def field (d : Octets) (i : Nat) : UInt16 := join16 (d.getD i 0) (d.getD (i + 1) 0)

theorem u16_field {d : Octets} {i : Nat} (inside : i + 2 ≤ d.length) :
    u16 ⟨d, i⟩ = .ok (field d i, ⟨d, i + 2⟩) := by
  have rest : (⟨d, i⟩ : Reader).rest = d.getD i 0 :: d.getD (i + 1) 0 :: d.drop (i + 2) := by
    show d.drop i = _
    rw [List.drop_eq_getElem_cons (by omega), List.drop_eq_getElem_cons (by omega),
      List.getD_eq_getElem _ _ (by omega), List.getD_eq_getElem _ _ (by omega)]
  simp only [u16, rest]
  rfl

theorem readHeader_eq {d : Octets} (long : 17 ≤ d.length) :
    readHeader ⟨d, 0⟩ =
      .ok (⟨field d 0, field d 2, field d 4, field d 6, field d 8, field d 10⟩, ⟨d, 12⟩) := by
  unfold readHeader
  rw [Cursor.bind_ok (u16_field (by omega)), Cursor.bind_ok (u16_field (by omega)),
    Cursor.bind_ok (u16_field (by omega)), Cursor.bind_ok (u16_field (by omega)),
    Cursor.bind_ok (u16_field (by omega)), Cursor.bind_ok (u16_field (by omega))]
  rfl

/-- Every name that the parser reads behind the question is steady. -/
def SteadyQuery (d : Octets) (stop : Nat) : Prop :=
  ∀ question next, readQuestion ⟨d, 12⟩ = .ok (question, ⟨d, next⟩) →
    SteadyRecords d stop (field d 10).toNat next none

/-- Both are refused, or both are the same message but for the id and letter case. -/
def ParsesAlike (d d' : Octets) : Prop :=
  match Message.parse d, Message.parse d' with
  | .ok m, .ok m' => { m with id := 0 }.fold = { m' with id := 0 }.fold
  | .error _, .error _ => True
  | _, _ => False

theorem readQuestion_agree {d d' key : Octets} {stop : Nat} (alike : Alike d d' stop)
    (keyed : Keyed d key stop) :
    Agree d d' stop (fun a b => a.fold = b.fold) readQuestion readQuestion 12 := by
  have name : Agree d d' stop SameName readName readName 12 :=
    readLabels_agree alike nameFuel 12 [] [] 0 1 none (steady_of_questionEnd nameFuel keyed.ends (by omega))
      rfl (fun _ => .inr ⟨_, keyed.ends⟩) (fun _ some => by cases some)
  apply name.bind
  intro name name' next same inside _
  apply (agree_u16 alike.shares inside).then
  intro rtype next inside _
  apply (agree_u16 alike.shares inside).then
  intro rclass next inside _
  apply Agree.pure _ inside
  unfold SameName at same
  unfold Question.fold
  dsimp only
  rw [same]

/-- One question, and no answer or authority records, as the key requires. -/
theorem readMessage_eq {d key : Octets} {stop : Nat} (keyed : Keyed d key stop) :
    readMessage ⟨d, 0⟩ = (do
      let question ← readQuestion
      let (additional, edns) ← readRRs true (field d 10).toNat none
      return ⟨field d 0, field d 2, [question], [], [], additional, edns⟩ : Read Message) ⟨d, 12⟩ := by
  have zeros := keyed.blank
  unfold blankAt at zeros
  simp only [List.all_cons, List.all_nil, Bool.and_true, Bool.and_eq_true, beq_iff_eq] at zeros
  have qd : (field d 4).toNat = 1 := by
    unfold field
    rw [keyed.question.1, keyed.question.2]
    rfl
  have an : (field d 6).toNat = 0 := by
    unfold field
    rw [zeros.1, zeros.2.1]
    rfl
  have ns : (field d 8).toNat = 0 := by
    unfold field
    rw [zeros.2.2.1, zeros.2.2.2]
    rfl
  unfold readMessage
  rw [Cursor.bind_ok (readHeader_eq keyed.long)]
  dsimp only
  rw [qd, an, ns]
  cases read : readQuestion ⟨d, 12⟩ with
  | error e =>
    have all : readQuestions 1 ⟨d, 12⟩ = .error e := by
      unfold readQuestions
      rw [Cursor.bind_error read]
    rw [Cursor.bind_error read, Cursor.bind_error all]
  | ok found =>
    obtain ⟨question, next⟩ := found
    have all : readQuestions 1 ⟨d, 12⟩ = .ok ([question], next) := by
      unfold readQuestions
      rw [Cursor.bind_ok read]
      rfl
    rw [Cursor.bind_ok read, Cursor.bind_ok all]
    rfl

/-- Queries with one key are parsed alike when the names behind the question are steady. -/
theorem parsesAlike_of_queryKey {d d' key : Octets} {stop stop' : Nat}
    (keyed : queryKey d = some (key, stop)) (keyed' : queryKey d' = some (key, stop'))
    (still : SteadyQuery d stop) : ParsesAlike d d' := by
  have checked := keyed_of_queryKey keyed
  have checked' := keyed_of_queryKey keyed'
  obtain ⟨-, alike⟩ := alike_of_keyed checked checked'
  have same (i : Nat) (late : 2 ≤ i) (low : i < 11) : field d i = field d' i := by
    have octet (j : Nat) (late : 2 ≤ j) (low : j < 12) : d.getD j 0 = d'.getD j 0 := by
      rw [List.getD_eq_getElem?_getD, List.getD_eq_getElem?_getD, alike.header j late low]
    unfold field
    rw [octet i late (by omega), octet (i + 1) (by omega) (by omega)]
  have messages : Agree d d' stop (fun m m' : Message => { m with id := 0 }.fold = { m' with id := 0 }.fold)
      (do
        let question ← readQuestion
        let (additional, edns) ← readRRs true (field d 10).toNat none
        return ⟨field d 0, field d 2, [question], [], [], additional, edns⟩)
      (do
        let question ← readQuestion
        let (additional, edns) ← readRRs true (field d' 10).toNat none
        return ⟨field d' 0, field d' 2, [question], [], [], additional, edns⟩) 12 := by
    rw [← same 10 (by omega) (by omega), ← same 2 (by omega) (by omega)]
    apply (readQuestion_agree alike checked).bind
    intro question question' next equal inside read
    apply (readRRs_agree alike _ none inside (still question next read)).bind
    intro more more' last equal' inside _
    apply Agree.pure _ inside
    unfold Message.fold
    dsimp only
    rw [List.map_singleton, List.map_singleton, equal, equal'.1, equal'.2]
  unfold ParsesAlike Message.parse
  have long := checked.long
  have long' := checked'.long
  rw [if_neg (by unfold headerLen; omega), if_neg (by unfold headerLen; omega), readMessage_eq checked,
    readMessage_eq checked']
  rcases messages.cases with ⟨e, e', one, two⟩ | ⟨m, m', next, equal, -, one, two⟩
  · rw [one, two]
    trivial
  · rw [one, two]
    exact equal

/-- A query for the root with an OPT record whose owner is written in `owner`. -/
def optQuery (id : UInt8) (owner : Octets) : Octets :=
  [id, 0, 1, 0, 0, 1, 0, 0, 0, 0, 0, 1, 0, 0, 1, 0, 1] ++ owner ++ [0, 41, 4, 0xD0, 0, 0, 0, 0, 0, 0]

theorem parsesAlike_optQuery : ParsesAlike (optQuery 0 [0]) (optQuery 0x40 [0]) := by
  have key : queryKey (optQuery 0 [0]) = queryKey (optQuery 0x40 [0]) := by decide +kernel
  cases keyed : queryKey (optQuery 0 [0]) with
  | none =>
    have found : (queryKey (optQuery 0 [0])).isSome = true := by decide +kernel
    rw [keyed] at found
    cases found
  | some found =>
    obtain ⟨k, stop⟩ := found
    have ends : (queryKey (optQuery 0 [0])).map Prod.snd = some 13 := by decide +kernel
    rw [keyed] at ends
    cases ends
    apply parsesAlike_of_queryKey keyed (key.symm.trans keyed)
    intro question next read
    have here : readQuestion ⟨optQuery 0 [0], 12⟩ = .ok (⟨.root, 1, 1⟩, ⟨optQuery 0 [0], 17⟩) := by
      decide +kernel
    rw [here] at read
    cases read
    have count : (field (optQuery 0 [0]) 10).toNat = 1 := by decide +kernel
    rw [count]
    constructor
    · unfold Steady
      decide +kernel
    · intro head next read
      have here : readHead ⟨optQuery 0 [0], 17⟩ =
          .ok (⟨.root, 41, 0x04D0, 0, 0⟩, ⟨optQuery 0 [0], 28⟩) := by
        decide +kernel
      rw [here] at read
      cases read
      rw [if_pos (by decide)]
      intro opt last _
      trivial

/-- With the owner written as a pointer into the id, one id makes it the root and another
one no name at all. -/
theorem not_parsesAlike_optQuery : ∃ key stop,
    queryKey (optQuery 0 [0xC0, 0]) = some (key, stop) ∧
      queryKey (optQuery 0x40 [0xC0, 0]) = some (key, stop) ∧
      ¬ ParsesAlike (optQuery 0 [0xC0, 0]) (optQuery 0x40 [0xC0, 0]) := by
  have key : queryKey (optQuery 0 [0xC0, 0]) = queryKey (optQuery 0x40 [0xC0, 0]) := by decide +kernel
  cases keyed : queryKey (optQuery 0 [0xC0, 0]) with
  | none =>
    have found : (queryKey (optQuery 0 [0xC0, 0])).isSome = true := by decide +kernel
    rw [keyed] at found
    cases found
  | some found =>
    refine ⟨found.1, found.2, rfl, key.symm.trans keyed, ?_⟩
    intro same
    unfold ParsesAlike at same
    cases accepted : Message.parse (optQuery 0 [0xC0, 0]) with
    | error e =>
      have fine : (Message.parse (optQuery 0 [0xC0, 0])).isOk = true := by decide +kernel
      rw [accepted] at fine
      cases fine
    | ok m =>
      cases refused : Message.parse (optQuery 0x40 [0xC0, 0]) with
      | error e =>
        rw [accepted, refused] at same
        exact same
      | ok m' =>
        have fails : (Message.parse (optQuery 0x40 [0xC0, 0])).isOk = false := by decide +kernel
        rw [refused] at fails
        cases fails

end Trench.Engine
