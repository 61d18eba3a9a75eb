import Mathlib
import Trench.AuthZone.Signer
import Trench.Wire.RdataIdentity

set_option autoImplicit false

/- What a signature is made over, against RFC 4034 3.1.8.1. -/
namespace Trench.Dnssec

open Wire
open Wire.Name (labelOctets)
open Wire.Rdata (Parsed Typed Fits LegalName lowerNames legal_canonicalize)
open AuthZone (signedData canonRdata canonName SignError)

/-! ### Canonical records -/

/-- The types of RFC 4034 6.2 whose data stays octets here, with the octets before the first name and
the number of names: MD, MF, MB, MG, MR, MINFO, RP, AFSDB, RT, PX and KX. -/
def embedded (rtype : RRType) : Option (ℕ × ℕ) :=
  [(3, 0, 1), (4, 0, 1), (7, 0, 1), (8, 0, 1), (9, 0, 1), (14, 0, 2), (17, 0, 2), (18, 2, 1), (21, 2, 1), (26, 2, 2),
    (36, 2, 1)].lookup rtype

/-- The data with these names in lower case. -/
def lowerEmbedded (rtype : RRType) (data : Octets) : Octets :=
  match embedded rtype with
  | some (skip, count) => data.take skip ++ lowerNames data.length count (data.drop skip)
  | none => data

/-- What `_canon_rdata` writes. -/
def sentForm : Rdata → Rdata
  | .ns name => .ns name.canonicalize
  | .cname name => .cname name.canonicalize
  | .ptr name => .ptr name.canonicalize
  | .dname name => .dname name.canonicalize
  | .mx d => .mx { d with exchange := d.exchange.canonicalize }
  | .srv d => .srv { d with target := d.target.canonicalize }
  | .soa d => .soa { d with mname := d.mname.canonicalize, rname := d.rname.canonicalize }
  | .naptr d => .naptr { d with replacement := d.replacement.canonicalize }
  | other => other

/-- The canonical form of RFC 4034 6.2, as RFC 6840 5.1 corrects it. -/
def canonForm : Rdata → Rdata
  | .unknown rtype data => .unknown rtype (lowerEmbedded rtype data)
  | rd => sentForm rd

/-- The RRSIG's own fields, without the signature. -/
def rrsigFields (rrsig : RrsigData) : Octets :=
  octets16 rrsig.typeCovered ++ [rrsig.algorithm, rrsig.labels] ++ octets32 rrsig.originalTtl ++
    octets32 rrsig.expiration ++ octets32 rrsig.inception ++ octets16 rrsig.keyTag ++
    (labelOctets rrsig.signer.canonicalize.labels ++ [0])

/-- What stands before the data of each record: owner, type, class and the original TTL. -/
def recordFront (owner : Name) (rtype : RRType) (rclass : RRClass) (originalTtl : UInt32) : Octets :=
  labelOctets owner.canonicalize.labels ++ [0] ++ octets16 rtype ++ octets16 rclass ++ octets32 originalTtl

def recordOctets (front body : Octets) : Octets := front ++ octets16 (UInt16.ofNat body.length) ++ body

/-- The octets of RFC 4034 3.1.8.1: no record twice, in the order of their data. -/
def rfcSignedData (owner : Name) (rtype : RRType) (rclass : RRClass) (rrsig : RrsigData) (rdatas : List Rdata) :
    Octets :=
  let bodies := (rdatas.map fun rd => (canonForm rd).octets).dedup.insertionSort (· ≤ ·)
  rrsigFields rrsig ++ bodies.flatMap (recordOctets (recordFront owner rtype rclass rrsig.originalTtl))

/-! ### The forms -/

theorem sentForm_typed {rd : Rdata} (typed : rd.Typed) : (sentForm rd).Typed := by
  cases rd <;> exact typed

theorem sentForm_type (rd : Rdata) : (sentForm rd).rdataType = rd.rdataType := by
  cases rd <;> rfl

theorem sentForm_fits {rd : Rdata} (fits : rd.Fits) : (sentForm rd).Fits := by
  cases rd with
  | ns name => exact legal_canonicalize fits
  | cname name => exact legal_canonicalize fits
  | ptr name => exact legal_canonicalize fits
  | dname name => exact legal_canonicalize fits
  | soa d => exact ⟨legal_canonicalize fits.1, legal_canonicalize fits.2.1, fits.2.2⟩
  | mx d => exact ⟨fits.1, legal_canonicalize fits.2⟩
  | srv d => exact ⟨fits.1, fits.2.1, fits.2.2.1, legal_canonicalize fits.2.2.2⟩
  | naptr d => exact ⟨fits.1, fits.2.1, fits.2.2.1, legal_canonicalize fits.2.2.2⟩
  | _ => exact fits

theorem canonForm_typed {rd : Rdata} (typed : rd.Typed) : canonForm rd = sentForm rd := by
  cases rd <;> first | rfl | exact typed.elim

theorem embedded_registered {rd : Rdata} (typed : rd.Typed) : embedded rd.rdataType = none := by
  cases rd <;> first | rfl | exact typed.elim

theorem lowerEmbedded_registered {rd : Rdata} (typed : rd.Typed) (data : Octets) :
    lowerEmbedded rd.rdataType data = data := by
  rw [lowerEmbedded, embedded_registered typed]

section

variable {rtype : RRType} {rd other : Rdata}

/-- The canonical octets are the ones the code writes, with the names in them lowered. -/
theorem canonForm_octets (parsed : Parsed rtype rd) :
    (canonForm rd).octets = lowerEmbedded rtype (sentForm rd).octets := by
  rcases parsed.cases with ⟨typed, -, type⟩ | ⟨data, rfl, -⟩
  · rw [canonForm_typed typed, ← type, lowerEmbedded_registered typed]
  · rfl

/-- One canonical form for two values: they are the same but for the letter case of those names. -/
theorem canonForm_inj (parsed : Parsed rtype rd) (parsed' : Parsed rtype other)
    (same : (canonForm rd).octets = (canonForm other).octets) : canonForm rd = canonForm other := by
  have apart {rd : Rdata} {data : Octets} (typed : rd.Typed) (fits : rd.Fits) (type : rd.rdataType = rtype)
      (kept : Rdata.Kept rtype data) : (canonForm rd).octets ≠ (canonForm (.unknown rtype data)).octets := by
    have raw : (canonForm (.unknown rtype data)).octets = data := by
      change lowerEmbedded rtype data = data
      rw [← type, lowerEmbedded_registered typed]
    rw [raw, canonForm_typed typed]
    exact kept.ne_octets (sentForm_typed typed) (sentForm_fits fits) ((sentForm_type rd).trans type)
  rcases parsed.cases with ⟨typed, fits, type⟩ | ⟨data, rfl, kept⟩
  · rcases parsed'.cases with ⟨typed', fits', type'⟩ | ⟨data, rfl, kept⟩
    · rw [canonForm_typed typed, canonForm_typed typed'] at same ⊢
      exact Rdata.octets_inj (sentForm_typed typed) (sentForm_fits fits) (sentForm_typed typed') (sentForm_fits fits')
        (by rw [sentForm_type, sentForm_type, type, type']) same
    · exact absurd same (apart typed fits type kept)
  · rcases parsed'.cases with ⟨typed', fits', type'⟩ | ⟨data', rfl, kept'⟩
    · exact absurd same.symm (apart typed' fits' type' kept)
    · change lowerEmbedded rtype data = lowerEmbedded rtype data' at same
      rw [canonForm, canonForm, same]

/-- Data that was read is written again. -/
theorem canonRdata_eq (parsed : Parsed rtype rd) : canonRdata rd = .ok (sentForm rd).octets := by
  have emits : ∃ octets, ∀ w, (sentForm rd).emit w = .ok (w.raw octets) := by
    rcases parsed.cases with ⟨typed, fits, -⟩ | ⟨data, rfl, -⟩
    · exact emits_of_fits (sentForm_typed typed) (sentForm_fits fits)
    · exact ⟨data, fun _ => rfl⟩
  obtain ⟨octets, emits⟩ := emits
  have written {w : Writer} (sent : (sentForm rd).emit Writer.empty = .ok w) : canonRdata rd = .ok w.buf := by
    cases rd <;> (dsimp only [sentForm] at sent; simp only [canonRdata, sent])
  rw [written (emits Writer.empty), Rdata.octets, emits]

end

/-! ### Lowering twice -/

theorem lowerNames_length (fuel count : ℕ) (data : Octets) : (lowerNames fuel count data).length = data.length := by
  induction fuel generalizing count data with
  | zero => rfl
  | succ fuel ih =>
      cases count with
      | zero => rfl
      | succ count =>
          cases data with
          | nil => rfl
          | cons len rest =>
              rw [lowerNames]
              split
              · rw [List.length_cons, List.length_cons, ih]
              · split
                · simp only [List.length_cons, List.length_append, List.length_map, List.length_take, ih,
                    List.length_drop]
                  omega
                · rfl

theorem lowerNames_nil (fuel count : ℕ) : lowerNames fuel count [] = [] :=
  List.length_eq_zero_iff.mp (lowerNames_length fuel count [])

theorem lowerNames_idem (fuel count : ℕ) (data : Octets) :
    lowerNames fuel count (lowerNames fuel count data) = lowerNames fuel count data := by
  induction fuel generalizing count data with
  | zero => rfl
  | succ fuel ih =>
      cases count with
      | zero => rfl
      | succ count =>
          cases data with
          | nil => rfl
          | cons len rest =>
              rw [lowerNames]
              split
              · rw [lowerNames, if_pos rfl, ih]
              · next some =>
                  split
                  · next short =>
                      rw [lowerNames, if_neg some, if_pos short]
                      have lowered : ((rest.take len.toNat).map lowerOctet).map lowerOctet =
                          (rest.take len.toNat).map lowerOctet := by
                        rw [List.map_map]
                        exact List.map_congr_left fun c _ => lowerOctet_idem c
                      rcases Nat.lt_or_ge rest.length len.toNat with cut | whole
                      · -- The name is cut short: nothing is behind it.
                        rw [List.drop_of_length_le cut.le, lowerNames_nil, List.append_nil, List.take_of_length_le
                          (by rw [List.length_map, List.length_take]; omega), lowered, List.drop_of_length_le
                          (by rw [List.length_map, List.length_take]; omega), lowerNames_nil, List.append_nil]
                      · have width : ((rest.take len.toNat).map lowerOctet).length = len.toNat := by
                          rw [List.length_map, List.length_take, Nat.min_eq_left whole]
                        rw [List.take_left' width, List.drop_left' width, lowered, ih]
                  · next long => rw [lowerNames, if_neg some, if_neg long]

theorem lowerEmbedded_length (rtype : RRType) (data : Octets) : (lowerEmbedded rtype data).length = data.length := by
  rw [lowerEmbedded]
  split
  · rw [List.length_append, List.length_take, lowerNames_length, List.length_drop]
    omega
  · rfl

theorem lowerEmbedded_idem (rtype : RRType) (data : Octets) :
    lowerEmbedded rtype (lowerEmbedded rtype data) = lowerEmbedded rtype data := by
  cases types : embedded rtype with
  | none => simp only [lowerEmbedded, types]
  | some found =>
      obtain ⟨skip, count⟩ := found
      have spelled (data : Octets) :
          lowerEmbedded rtype data = data.take skip ++ lowerNames data.length count (data.drop skip) := by
        rw [lowerEmbedded, types]
      have width := lowerEmbedded_length rtype data
      rw [spelled (lowerEmbedded rtype data), width, spelled data]
      rcases Nat.lt_or_ge data.length skip with cut | whole
      · rw [List.drop_of_length_le cut.le, lowerNames_nil, List.append_nil, List.take_take, min_self,
          List.drop_of_length_le (by rw [List.length_take]; omega), lowerNames_nil, List.append_nil]
      · have front : (data.take skip).length = skip := by rw [List.length_take, Nat.min_eq_left whole]
        rw [List.take_left' front, List.drop_left' front, lowerNames_idem]

/-! ### Records behind one another -/

theorem octets16_inj {v w : UInt16} (same : octets16 v = octets16 w) : v = w := by
  obtain ⟨high, low⟩ := List.cons.inj same
  rw [← join16_octets16 v, ← join16_octets16 w, high, (List.cons.inj low).1]

theorem recordOctets_inj {front body other : Octets} {rest more : Octets} (short : body.length ≤ 65535)
    (short' : other.length ≤ 65535) (same : recordOctets front body ++ rest = recordOctets front other ++ more) :
    body = other ∧ rest = more := by
  simp only [recordOctets, List.append_assoc] at same
  have tails := List.append_cancel_left same
  obtain ⟨widths, tails⟩ := List.append_inj tails (by rw [length_octets16, length_octets16])
  have width : body.length = other.length := by
    have numbers := congrArg UInt16.toNat (octets16_inj widths)
    rwa [toNat_rdlen short, toNat_rdlen short'] at numbers
  exact List.append_inj tails width

theorem flatMap_recordOctets_inj {front : Octets} (some : front ≠ []) {bodies others : List Octets}
    (short : ∀ body ∈ bodies, body.length ≤ 65535) (short' : ∀ body ∈ others, body.length ≤ 65535)
    (same : bodies.flatMap (recordOctets front) = others.flatMap (recordOctets front)) : bodies = others := by
  have full (body : Octets) (rest : Octets) : recordOctets front body ++ rest ≠ [] := fun none => by
    simp only [recordOctets, List.append_eq_nil_iff] at none
    exact some none.1.1.1
  induction bodies generalizing others with
  | nil =>
      cases others with
      | nil => rfl
      | cons other others => exact absurd same.symm (full other _)
  | cons body bodies ih =>
      cases others with
      | nil => exact absurd same (full body _)
      | cons other others =>
          obtain ⟨first, later⟩ := List.forall_mem_cons.mp short
          obtain ⟨first', later'⟩ := List.forall_mem_cons.mp short'
          rw [List.flatMap_cons, List.flatMap_cons] at same
          obtain ⟨head, tail⟩ := recordOctets_inj first first' same
          rw [head, ih later later' tail]

/-! ### What is signed -/

section

variable {owner : Name} {rtype : RRType} {rclass : RRClass} {rrsig : RrsigData} {rdatas others : List Rdata}

/-- The data as the code writes it. -/
def sentBodies (rdatas : List Rdata) : List Octets := rdatas.map fun rd => (sentForm rd).octets

def canonBodies (rdatas : List Rdata) : List Octets := rdatas.map fun rd => (canonForm rd).octets

theorem canonBodies_eq (parsed : ∀ rd ∈ rdatas, Parsed rtype rd) :
    canonBodies rdatas = (sentBodies rdatas).map (lowerEmbedded rtype) := by
  rw [canonBodies, sentBodies, List.map_map]
  exact List.map_congr_left fun rd held => canonForm_octets (parsed rd held)

theorem mapM_canonRdata (parsed : ∀ rd ∈ rdatas, Parsed rtype rd) :
    rdatas.mapM canonRdata = .ok (sentBodies rdatas) := by
  induction rdatas with
  | nil => rfl
  | cons rd rest ih =>
      obtain ⟨first, later⟩ := List.forall_mem_cons.mp parsed
      rw [List.mapM_cons, canonRdata_eq first, ih later]
      rfl

theorem signedData_eq (parsed : ∀ rd ∈ rdatas, Parsed rtype rd) :
    signedData owner rtype rclass rrsig rdatas =
      if (sentBodies rdatas).any fun body => body.length > 65535 then .error .overflow
      else .ok (rrsigFields rrsig ++ ((sentBodies rdatas).insertionSort (· ≤ ·)).flatMap
        (recordOctets (recordFront owner rtype rclass rrsig.originalTtl))) := by
  have fields : ((((((((Writer.empty.u16 rrsig.typeCovered).u8 rrsig.algorithm).u8 rrsig.labels).u32
      rrsig.originalTtl).u32 rrsig.expiration).u32 rrsig.inception).u16 rrsig.keyTag).raw
      (canonName rrsig.signer)).buf = rrsigFields rrsig := by
    simp only [Writer.u8, Writer.u16, Writer.u32, Writer.raw_buf, Writer.empty, rrsigFields, canonName,
      List.nil_append, List.append_assoc, List.cons_append]
  rw [signedData, mapM_canonRdata parsed]
  split
  · next long =>
      simp only [bind, Except.bind, long, ↓reduceIte]
      rfl
  · next short =>
      simp only [bind, Except.bind, short, Bool.false_eq_true, ↓reduceIte]
      exact congrArg (fun front => Except.ok (front ++ _)) fields

/-- No record twice, the embedded names of the types that stay octets in lower case already, and no
data too long for its length field. -/
structure Signable (rtype : RRType) (rdatas : List Rdata) : Prop where
  once : (rdatas.map canonForm).Nodup
  spelled : ∀ data, .unknown rtype data ∈ rdatas → lowerEmbedded rtype data = data
  short : ∀ rd ∈ rdatas, (canonForm rd).octets.length ≤ 65535

theorem sort_perm {bodies others : List Octets} (perm : bodies.Perm others) :
    bodies.insertionSort (· ≤ ·) = others.insertionSort (· ≤ ·) :=
  List.Perm.eq_of_pairwise' (List.pairwise_insertionSort _ _) (List.pairwise_insertionSort _ _)
    (((List.perm_insertionSort _ bodies).trans perm).trans (List.perm_insertionSort _ others).symm)

theorem perm_of_sort {bodies others : List Octets}
    (same : bodies.insertionSort (· ≤ ·) = others.insertionSort (· ≤ ·)) : bodies.Perm others :=
  (List.perm_insertionSort _ bodies).symm.trans (same ▸ List.perm_insertionSort _ others)

theorem recordFront_ne : recordFront owner rtype rclass rrsig.originalTtl ≠ [] := by
  simp [recordFront]

/-- Distinct forms have distinct octets. -/
theorem nodup_canonBodies (parsed : ∀ rd ∈ rdatas, Parsed rtype rd) :
    (canonBodies rdatas).Nodup ↔ (rdatas.map canonForm).Nodup := by
  have octets : canonBodies rdatas = (rdatas.map canonForm).map Rdata.octets := by
    rw [canonBodies, List.map_map]
    rfl
  rw [octets]
  refine ⟨List.Nodup.of_map _, fun once => once.map_on fun form held form' held' same => ?_⟩
  obtain ⟨rd, there, rfl⟩ := List.mem_map.mp held
  obtain ⟨other, there', rfl⟩ := List.mem_map.mp held'
  exact canonForm_inj (parsed rd there) (parsed other there') same

theorem spelled_iff (parsed : ∀ rd ∈ rdatas, Parsed rtype rd) :
    (∀ body ∈ sentBodies rdatas, lowerEmbedded rtype body = body) ↔
      ∀ data, .unknown rtype data ∈ rdatas → lowerEmbedded rtype data = data := by
  constructor
  · exact fun lowered data held => lowered data (List.mem_map.mpr ⟨_, held, rfl⟩)
  · intro spelled body held
    obtain ⟨rd, there, rfl⟩ := List.mem_map.mp held
    rcases (parsed rd there).cases with ⟨typed, -, type⟩ | ⟨data, rfl, -⟩
    · rw [← type]
      exact lowerEmbedded_registered typed _
    · exact spelled data there

theorem canonBodies_of_spelled (parsed : ∀ rd ∈ rdatas, Parsed rtype rd)
    (spelled : ∀ body ∈ sentBodies rdatas, lowerEmbedded rtype body = body) : canonBodies rdatas = sentBodies rdatas := by
  rw [canonBodies_eq parsed]
  exact (List.map_congr_left spelled).trans (List.map_id' _)

theorem short_iff (parsed : ∀ rd ∈ rdatas, Parsed rtype rd) :
    ¬((sentBodies rdatas).any fun body => body.length > 65535) = true ↔
      ∀ rd ∈ rdatas, (canonForm rd).octets.length ≤ 65535 := by
  rw [List.any_eq_true]
  constructor
  · intro none rd held
    rw [canonForm_octets (parsed rd held), lowerEmbedded_length]
    exact not_lt.mp fun long => none ⟨_, List.mem_map.mpr ⟨rd, held, rfl⟩, decide_eq_true long⟩
  · rintro short ⟨body, held, long⟩
    obtain ⟨rd, there, rfl⟩ := List.mem_map.mp held
    have fits := short rd there
    rw [canonForm_octets (parsed rd there), lowerEmbedded_length] at fits
    exact absurd (of_decide_eq_true long) (not_lt.mpr fits)

/-- The code's octets are those of the RFC exactly when the set is signable. -/
theorem signedData_ok_iff (parsed : ∀ rd ∈ rdatas, Parsed rtype rd) :
    signedData owner rtype rclass rrsig rdatas = .ok (rfcSignedData owner rtype rclass rrsig rdatas) ↔
      Signable rtype rdatas := by
  have rfc : rfcSignedData owner rtype rclass rrsig rdatas = rrsigFields rrsig ++
      ((canonBodies rdatas).dedup.insertionSort (· ≤ ·)).flatMap
        (recordOctets (recordFront owner rtype rclass rrsig.originalTtl)) := rfl
  rw [signedData_eq parsed, rfc]
  constructor
  · intro same
    split at same
    · cases same
    · next fits =>
        have short := (short_iff parsed).mp fits
        have frames := List.append_cancel_left (Except.ok.inj same)
        have sorted := flatMap_recordOctets_inj recordFront_ne
          (fun body held => not_lt.mp fun long => fits (List.any_eq_true.mpr
            ⟨body, (List.mem_insertionSort _).mp held, decide_eq_true long⟩))
          (fun body held => by
            obtain ⟨rd, there, rfl⟩ := List.mem_map.mp (List.mem_dedup.mp ((List.mem_insertionSort _).mp held))
            exact short rd there) frames
        have perm := perm_of_sort sorted
        have spelled : ∀ body ∈ sentBodies rdatas, lowerEmbedded rtype body = body := by
          intro body held
          have canon := List.mem_dedup.mp (perm.mem_iff.mp held)
          rw [canonBodies_eq parsed] at canon
          obtain ⟨sent, -, rfl⟩ := List.mem_map.mp canon
          exact lowerEmbedded_idem rtype sent
        refine ⟨(nodup_canonBodies parsed).mp ?_, (spelled_iff parsed).mp spelled, short⟩
        rw [canonBodies_of_spelled parsed spelled]
        exact perm.nodup_iff.mpr (List.nodup_dedup _)
  · intro signable
    rw [if_neg ((short_iff parsed).mpr signable.short),
      ((nodup_canonBodies parsed).mpr signable.once).dedup,
      canonBodies_of_spelled parsed ((spelled_iff parsed).mpr signable.spelled)]

theorem canonBodies_mem (parsed : ∀ rd ∈ rdatas, Parsed rtype rd) {rd : Rdata} (read : Parsed rtype rd) :
    (canonForm rd).octets ∈ canonBodies rdatas ↔ canonForm rd ∈ rdatas.map canonForm := by
  constructor
  · intro held
    obtain ⟨other, there, same⟩ := List.mem_map.mp held
    exact List.mem_map.mpr ⟨other, there, canonForm_inj (parsed other there) read same⟩
  · intro held
    obtain ⟨other, there, same⟩ := List.mem_map.mp held
    exact List.mem_map.mpr ⟨other, there, congrArg Rdata.octets same⟩

/-- The same forms are the same canonical data. -/
theorem canonBodies_iff (parsed : ∀ rd ∈ rdatas, Parsed rtype rd) (parsed' : ∀ rd ∈ others, Parsed rtype rd) :
    (∀ body, body ∈ canonBodies rdatas ↔ body ∈ canonBodies others) ↔
      ∀ form, form ∈ rdatas.map canonForm ↔ form ∈ others.map canonForm := by
  have forms {first second : List Rdata} (read : ∀ rd ∈ first, Parsed rtype rd)
      (read' : ∀ rd ∈ second, Parsed rtype rd) (bodies : ∀ body, body ∈ canonBodies first → body ∈ canonBodies second)
      (form : Rdata) (held : form ∈ first.map canonForm) : form ∈ second.map canonForm := by
    obtain ⟨rd, there, rfl⟩ := List.mem_map.mp held
    exact (canonBodies_mem read' (read rd there)).mp (bodies _ (List.mem_map.mpr ⟨rd, there, rfl⟩))
  constructor
  · exact fun same form => ⟨forms parsed parsed' (fun body => (same body).mp) form,
      forms parsed' parsed (fun body => (same body).mpr) form⟩
  · intro same body
    have octets (list : List Rdata) : canonBodies list = (list.map canonForm).map Rdata.octets := by
      rw [canonBodies, List.map_map]
      rfl
    rw [octets, octets, List.mem_map, List.mem_map]
    simp only [same]

/-- The RFC's octets are the same for the same records, whatever their order and however often they
are given, and only for these. -/
theorem rfcSignedData_eq_iff (parsed : ∀ rd ∈ rdatas, Parsed rtype rd) (parsed' : ∀ rd ∈ others, Parsed rtype rd)
    (short : ∀ rd ∈ rdatas, (canonForm rd).octets.length ≤ 65535)
    (short' : ∀ rd ∈ others, (canonForm rd).octets.length ≤ 65535) :
    rfcSignedData owner rtype rclass rrsig rdatas = rfcSignedData owner rtype rclass rrsig others ↔
      ∀ form, form ∈ rdatas.map canonForm ↔ form ∈ others.map canonForm := by
  have narrow {list : List Rdata} (short : ∀ rd ∈ list, (canonForm rd).octets.length ≤ 65535) :
      ∀ body ∈ (canonBodies list).dedup.insertionSort (· ≤ ·), body.length ≤ 65535 := by
    intro body held
    obtain ⟨rd, there, rfl⟩ := List.mem_map.mp (List.mem_dedup.mp ((List.mem_insertionSort _).mp held))
    exact short rd there
  rw [← canonBodies_iff parsed parsed']
  constructor
  · intro same body
    have sorted := flatMap_recordOctets_inj recordFront_ne (narrow short) (narrow short')
      (List.append_cancel_left same)
    rw [← List.mem_dedup, (perm_of_sort sorted).mem_iff, List.mem_dedup]
  · intro same
    have perm : (canonBodies rdatas).dedup.Perm (canonBodies others).dedup :=
      (List.perm_ext_iff_of_nodup (List.nodup_dedup _) (List.nodup_dedup _)).mpr fun body => by
        rw [List.mem_dedup, List.mem_dedup, same]
    exact congrArg (fun bodies => rrsigFields rrsig ++ bodies.flatMap
      (recordOctets (recordFront owner rtype rclass rrsig.originalTtl))) (sort_perm perm)

/-- The letter case of the owner and of the signer is nothing to the signature. -/
theorem signedData_case {owner' : Name} {signer : Name} (names : owner'.lower = owner.lower)
    (signers : signer.lower = rrsig.signer.lower) :
    signedData owner' rtype rclass { rrsig with signer } rdatas = signedData owner rtype rclass rrsig rdatas := by
  have fronts : canonName owner' = canonName owner := congrArg (fun labels => labelOctets labels ++ [0]) names
  have tails : canonName signer = canonName rrsig.signer := congrArg (fun labels => labelOctets labels ++ [0]) signers
  simp only [signedData, fronts, tails]

/-- What is signed is what the RFC says exactly for a signable set, and what the RFC says is the set
itself: its order, repetitions and letter case aside, two sets have the same octets only when they
hold the same records. -/
theorem signedData_canonical (parsed : ∀ rd ∈ rdatas, Parsed rtype rd) :
    (signedData owner rtype rclass rrsig rdatas = .ok (rfcSignedData owner rtype rclass rrsig rdatas) ↔
      Signable rtype rdatas) ∧
    (∀ others : List Rdata, (∀ rd ∈ others, Parsed rtype rd) →
      (∀ rd ∈ rdatas ++ others, (canonForm rd).octets.length ≤ 65535) →
      (rfcSignedData owner rtype rclass rrsig rdatas = rfcSignedData owner rtype rclass rrsig others ↔
        ∀ form, form ∈ rdatas.map canonForm ↔ form ∈ others.map canonForm)) ∧
    ∀ owner' signer, owner'.lower = owner.lower → signer.lower = rrsig.signer.lower →
      signedData owner' rtype rclass { rrsig with signer } rdatas = signedData owner rtype rclass rrsig rdatas := by
  refine ⟨signedData_ok_iff parsed, fun others parsed' short => ?_, fun owner' signer => signedData_case⟩
  exact rfcSignedData_eq_iff parsed parsed' (fun rd held => short rd (List.mem_append_left _ held))
    fun rd held => short rd (List.mem_append_right _ held)

end

/-! ### An address given twice -/

theorem address_read : Parsed RRType.a (.a "192.0.2.1".toList) :=
  Rdata.parsed_of_readFrom (show Rdata.readFrom _ [192, 0, 2, 1] = _ by decide +kernel)

def sampleRrsig : RrsigData := ⟨RRType.a, 8, 0, 300, 2, 1, 7, .root, []⟩

theorem signedData_canonical_address :
    signedData .root RRType.a RRClass.in sampleRrsig [.a "192.0.2.1".toList] =
      .ok (rfcSignedData .root RRType.a RRClass.in sampleRrsig [.a "192.0.2.1".toList]) :=
  (signedData_canonical fun _ held => List.mem_singleton.mp held ▸ address_read).1.mpr
    ⟨by decide +kernel, fun _ held => (by cases List.mem_singleton.mp held), by decide +kernel⟩

theorem signedData_repeats : ¬∀ (owner : Name) (rtype : RRType) (rclass : RRClass) (rrsig : RrsigData)
    (rdatas : List Rdata), (∀ rd ∈ rdatas, Parsed rtype rd) →
      signedData owner rtype rclass rrsig rdatas = .ok (rfcSignedData owner rtype rclass rrsig rdatas) := by
  intro claim
  have equal := claim .root RRType.a RRClass.in sampleRrsig [.a "192.0.2.1".toList, .a "192.0.2.1".toList]
    fun rd held => by
      rcases List.mem_pair.mp held with rfl | rfl
      · exact address_read
      · exact address_read
  exact absurd equal (by decide +kernel)

/-- The mailbox of an RP record, which stays octets, keeps its capital letter. -/
example : signedData .root RRType.rp RRClass.in sampleRrsig [.unknown RRType.rp [1, 0x41, 0, 0]] ≠
    .ok (rfcSignedData .root RRType.rp RRClass.in sampleRrsig [.unknown RRType.rp [1, 0x41, 0, 0]]) := by decide +kernel

end Trench.Dnssec
