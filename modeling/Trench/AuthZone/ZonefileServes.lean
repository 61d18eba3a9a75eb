import Mathlib
import Trench.AuthZone.RrsetAnswer
import Trench.AuthZone.ZonefileLines

set_option autoImplicit false

/- What a zone file loads can be served where its values fit the wire, and a file that is refused
is refused by the line that is wrong. -/
namespace Trench.AuthZone

open Wire
open Wire.Rdata (LegalName InRange)
open Trench.Filter (splitLines)

namespace Zonefile

section

variable {u : Strings}

/-! ### The zone -/

def ofSet (name : Name) (rtype : RRType) (l : Loaded) : Bool := l.owner == name && l.kind.rtype == rtype

theorem slot_loaded (ls : List Loaded) (zone : Zone) (name : Name) (rtype : RRType) :
    (ls.foldl addLoaded zone).slot name rtype = zone.slot name rtype ++ (ls.filter (ofSet name rtype)).map Loaded.rdata := by
  induction ls generalizing zone with
  | nil => simp
  | cons l ls ih =>
      rw [List.foldl_cons, ih, addLoaded, Zone.slot_add, List.append_assoc, List.filter_cons, ← ofSet]
      by_cases inside : ofSet name rtype l = true
      · rw [if_pos inside, if_pos inside]
        rfl
      · rw [if_neg inside, if_neg inside]
        rfl

theorem ttlOf_loaded (ls : List Loaded) (zone : Zone) (name : Name) (rtype : RRType) :
    (ls.foldl addLoaded zone).ttlOf name rtype =
      ((ls.filter (ofSet name rtype)).getLast?.map Loaded.ttl).getD (zone.ttlOf name rtype) := by
  induction ls generalizing zone with
  | nil => rfl
  | cons l ls ih =>
      rw [List.foldl_cons, ih, addLoaded, Zone.ttlOf_add, List.filter_cons, ← ofSet]
      by_cases inside : ofSet name rtype l = true
      · rw [if_pos inside, if_pos inside, List.getLast?_cons]
        cases (ls.filter (ofSet name rtype)).getLast? <;> rfl
      · rw [if_neg inside, if_neg inside]

theorem rtype_injective : Function.Injective Kind.rtype := by
  intro first second same
  revert same
  cases first <;> cases second <;> decide

/-- The records of one set. -/
def setOf (es : List Entry) (name : Name) (kind : Kind) : List Entry :=
  es.filter fun e => e.owner == name && e.kind == kind

/-- Each record is within its bounds, and each set in its number and by the TTL of its last record. -/
structure Fitting (u : Strings) (es : List Entry) : Prop where
  each : ∀ e ∈ es, e.InBounds u
  count : ∀ name kind, (setOf es name kind).length ≤ 65535
  ttl : ∀ name kind, ∀ e ∈ (setOf es name kind).getLast?, InRange 32 e.ttl

theorem setOf_loads {es : List Entry} {ls : List Loaded} (all : List.Forall₂ (Loads (u := u)) es ls) (name : Name)
    (kind : Kind) : List.Forall₂ (Loads (u := u)) (setOf es name kind) (ls.filter (ofSet name kind.rtype)) := by
  refine List.rel_filter (fun e l loads => ?_) all
  simp only [ofSet, loads.owner, loads.kind, Bool.and_eq_true, beq_iff_eq, rtype_injective.eq_iff]

theorem forall₂_mem {α β : Type} {r : α → β → Prop} {xs : List α} {ys : List β} (all : List.Forall₂ r xs ys) :
    (∀ x ∈ xs, ∃ y ∈ ys, r x y) ∧ ∀ y ∈ ys, ∃ x ∈ xs, r x y := by
  induction all with
  | nil => exact ⟨fun x held => (by cases held), fun y held => (by cases held)⟩
  | @cons x y xs ys here _ ih =>
      refine ⟨List.forall_mem_cons.mpr ⟨⟨y, List.mem_cons_self, here⟩, fun x' held => ?_⟩,
        List.forall_mem_cons.mpr ⟨⟨x, List.mem_cons_self, here⟩, fun y' held => ?_⟩⟩
      · obtain ⟨y', there, related⟩ := ih.1 x' held
        exact ⟨y', List.mem_cons_of_mem _ there, related⟩
      · obtain ⟨x', there, related⟩ := ih.2 y' held
        exact ⟨x', List.mem_cons_of_mem _ there, related⟩

theorem forall₂_getLast {α β : Type} {r : α → β → Prop} {xs : List α} {ys : List β} (all : List.Forall₂ r xs ys) :
    Option.Rel r xs.getLast? ys.getLast? := by
  have back := List.rel_reverse all
  rw [← List.head?_reverse, ← List.head?_reverse]
  revert back
  generalize xs.reverse = xs
  generalize ys.reverse = ys
  intro back
  cases back with
  | nil => exact .none
  | cons here _ => exact .some here

/-- What one set of the zone holds, and when its answer survives. -/
theorem served_iff {es : List Entry} {ls : List Loaded} (all : List.Forall₂ (Loads (u := u)) es ls) {org : Name}
    (id flags : UInt16) {name : Name} {kind : Kind} (filled : setOf es name kind ≠ []) :
    (rrsetAnswer (ls.foldl addLoaded (Zone.make org)) id flags name kind.rtype).RoundTrips true ↔
      (∀ e ∈ (setOf es name kind).getLast?, InRange 32 e.ttl) ∧ (setOf es name kind).length ≤ 65535 ∧
        ∀ e ∈ setOf es name kind, e.InBounds u := by
  have loads := setOf_loads all name kind
  generalize setOf es name kind = set at filled loads ⊢
  have slot : (ls.foldl addLoaded (Zone.make org)).slot name kind.rtype =
      (ls.filter (ofSet name kind.rtype)).map Loaded.rdata := by
    rw [slot_loaded, show (Zone.make org).slot name kind.rtype = [] from rfl, List.nil_append]
  have ttl := ttlOf_loaded ls (Zone.make org) name kind.rtype
  have inside : ∀ l ∈ ls.filter (ofSet name kind.rtype), ofSet name kind.rtype l = true :=
    fun l held => (List.mem_filter.mp held).2
  generalize ls.filter (ofSet name kind.rtype) = loaded at loads slot ttl inside
  obtain ⟨toLoaded, toEntry⟩ := forall₂_mem loads
  have last := forall₂_getLast loads
  rw [List.getLast?_eq_some_getLast filled] at last ⊢
  generalize set.getLast filled = e at last
  obtain ⟨l, at_end, here⟩ : ∃ l, loaded.getLast? = some l ∧ Loads (u := u) e l := by
    generalize loaded.getLast? = end' at last
    cases last with
    | some here => exact ⟨_, rfl, here⟩
  have held := List.mem_of_getLast? at_end
  have legal : LegalName name := by
    have same := (Bool.and_eq_true_iff.mp (inside l held)).1
    have short := here.legal
    rw [LegalName] at short ⊢
    rwa [← Name.wireLen_of_lower (Name.beq_iff.mp same)]
  have holds : ∀ rd ∈ loaded.map Loaded.rdata, rd.Typed ∧ rd.rdataType = kind.rtype := by
    intro rd present
    obtain ⟨l, stands, rfl⟩ := List.mem_map.mp present
    obtain ⟨e, -, loads⟩ := toEntry l stands
    have same := beq_iff_eq.mp (Bool.and_eq_true_iff.mp (inside l stands)).2
    exact ⟨loads.holds.typed, by rw [loads.holds.rtype, ← loads.kind, same]⟩
  have bounded : (∀ rd ∈ loaded.map Loaded.rdata, rd.Fits ∧ rd.octets.length ≤ 65535) ↔ ∀ e ∈ set, e.InBounds u := by
    rw [List.forall_mem_map]
    constructor
    · intro each e present
      obtain ⟨l, present, loads⟩ := toLoaded e present
      exact loads.holds.fits.mp (each l present)
    · intro each l present
      obtain ⟨e, present, loads⟩ := toEntry l present
      exact loads.holds.fits.mpr (each e present)
  have nonempty : loaded.map Loaded.rdata ≠ [] := List.ne_nil_of_mem (List.mem_map_of_mem held)
  rw [rrsetAnswer_roundTrips_iff legal (slot ▸ nonempty) (slot ▸ holds), slot, ttl, at_end, bounded, List.length_map,
    loads.length_eq]
  refine and_congr ?_ Iff.rfl
  constructor
  · rintro range _ ⟨⟩
    exact here.ttl ▸ range
  · intro range
    change InRange 32 l.ttl
    rw [here.ttl]
    exact range e rfl

/-- The zone can be served exactly when its records fit. -/
theorem all_served_iff {es : List Entry} {ls : List Loaded} (all : List.Forall₂ (Loads (u := u)) es ls) {org : Name} :
    (∀ id flags name rtype, (ls.foldl addLoaded (Zone.make org)).slot name rtype ≠ [] →
      (rrsetAnswer (ls.foldl addLoaded (Zone.make org)) id flags name rtype).RoundTrips true) ↔ Fitting u es := by
  have filled_iff (name : Name) (kind : Kind) : setOf es name kind ≠ [] ↔
      (ls.foldl addLoaded (Zone.make org)).slot name kind.rtype ≠ [] := by
    rw [slot_loaded, show (Zone.make org).slot name kind.rtype = [] from rfl, List.nil_append, ne_eq, ne_eq,
      List.map_eq_nil_iff, ← List.length_eq_zero_iff, (setOf_loads all name kind).length_eq, List.length_eq_zero_iff]
  constructor
  · intro served
    have apart (name : Name) (kind : Kind) (filled : setOf es name kind ≠ []) :=
      (served_iff all 0 0 filled).mp (served 0 0 name kind.rtype ((filled_iff name kind).mp filled))
    refine ⟨fun e held => ?_, fun name kind => ?_, fun name kind => ?_⟩
    · have mine : e ∈ setOf es e.owner e.kind := List.mem_filter.mpr ⟨held, by simp⟩
      exact (apart e.owner e.kind (List.ne_nil_of_mem mine)).2.2 e mine
    · by_cases filled : setOf es name kind = []
      · rw [filled]
        exact Nat.zero_le _
      · exact (apart name kind filled).2.1
    · by_cases filled : setOf es name kind = []
      · rw [filled]
        rintro _ ⟨⟩
      · exact (apart name kind filled).1
  · intro fitting id flags name rtype filled
    obtain ⟨kind, rfl⟩ : ∃ kind : Kind, kind.rtype = rtype := by
      rw [slot_loaded, show (Zone.make org).slot name rtype = [] from rfl, List.nil_append, ne_eq,
        List.map_eq_nil_iff] at filled
      obtain ⟨l, held⟩ := List.exists_mem_of_ne_nil _ filled
      exact ⟨l.kind, beq_iff_eq.mp (Bool.and_eq_true_iff.mp (List.mem_filter.mp held).2).2⟩
    refine (served_iff all id flags ((filled_iff name kind).mpr filled)).mpr ⟨fitting.ttl name kind, fitting.count name kind, ?_⟩
    exact fun e held => fitting.each e (List.mem_filter.mp held).1

end

/-! ### Physical lines -/

/-- The lines that parentheses hold together. -/
def groupsFrom (held : List Text) (depth : Int) : List Text → List (List Text)
  | [] => []
  | line :: lines =>
      let depth := depth + (code line).count '(' - (code line).count ')'
      if depth ≤ 0 then (held ++ [line]) :: groupsFrom [] 0 lines else groupsFrom (held ++ [line]) depth lines

def groups (text : Text) : List (List Text) := groupsFrom [] 0 (splitLines text)

def joinedTo (buf line : Text) : Text :=
  let piece := line.map fun c => if c = '(' ∨ c = ')' then ' ' else c
  if buf = [] then piece else buf ++ ' ' :: piece

/-- The one line that a group makes. -/
def joined (group : List Text) : Text := rstrip (group.foldl joinedTo [])

theorem logicalLinesFrom_eq (held : List Text) (depth : Int) (lines : List Text) :
    logicalLinesFrom (held.foldl joinedTo []) depth lines = (groupsFrom held depth lines).map joined := by
  induction lines generalizing held depth with
  | nil => rfl
  | cons line lines ih =>
      rw [logicalLinesFrom, groupsFrom]
      have grown : joinedTo (held.foldl joinedTo []) line = (held ++ [line]).foldl joinedTo [] := by
        rw [List.foldl_append]
        rfl
      change (if _ then rstrip (joinedTo _ line) :: _ else logicalLinesFrom (joinedTo _ line) _ lines) = _
      rw [grown]
      split
      · rw [List.map_cons, ← ih []]
        rfl
      · exact ih _ _

theorem logicalLines_eq (text : Text) : logicalLines text = (groups text).map joined :=
  logicalLinesFrom_eq [] 0 (splitLines text)

theorem groupsFrom_ne_nil {held : List Text} {depth : Int} {lines : List Text} :
    ∀ g ∈ groupsFrom held depth lines, g ≠ [] := by
  induction lines generalizing held depth with
  | nil =>
      intro g held
      cases held
  | cons line lines ih =>
      rw [groupsFrom]
      split
      · exact List.forall_mem_cons.mpr ⟨by simp, ih⟩
      · exact ih

/-- The lines that are read, one for each group. -/
def contents (text : Text) : List Text := (groups text).map fun g => content (joined g)

/-- A count that does not exceed the number of its parts has parts of one. -/
theorem flatten_length_iff {gs : List (List Text)} (filled : ∀ g ∈ gs, g ≠ []) :
    gs.flatten.length = gs.length ↔ ∀ g ∈ gs, g.length = 1 := by
  induction gs with
  | nil => simp
  | cons g gs ih =>
      obtain ⟨here, others⟩ := List.forall_mem_cons.mp filled
      have least (gs : List (List Text)) (filled : ∀ g ∈ gs, g ≠ []) : gs.length ≤ gs.flatten.length := by
        rw [List.length_flatten]
        refine List.length_le_sum_of_one_le _ ?_ |>.trans' (by rw [List.length_map])
        intro n held
        obtain ⟨g, inside, rfl⟩ := List.mem_map.mp held
        exact List.length_pos_iff.mpr (filled g inside)
      have rest := least gs others
      have one := List.length_pos_iff.mpr here
      rw [List.flatten_cons, List.length_append, List.length_cons, List.forall_mem_cons, ← ih others]
      omega

/-- The number of a line is its count among the lines that are read where each above it stands by itself. -/
theorem numbered_iff {p : List Text → Bool} {gs : List (List Text)} (filled : ∀ g ∈ gs, g ≠ [])
    (some : ∃ g ∈ gs, p g = true) :
    (∃ before bad behind, gs = before ++ bad :: behind ∧ (∀ g ∈ before, p g = false) ∧ p bad = true ∧
      1 + (gs.takeWhile fun g => !p g).length = before.flatten.length + 1) ↔
    ∀ g ∈ gs.takeWhile fun g => !p g, g.length = 1 := by
  constructor
  · rintro ⟨before, bad, behind, rfl, fine, wrong, same⟩
    have stops : ((before ++ bad :: behind).takeWhile fun g => !p g) = before := by
      rw [List.takeWhile_append_of_pos (by simpa using fine), List.takeWhile_cons_of_neg (by simp [wrong]),
        List.append_nil]
    rw [stops] at same ⊢
    refine (flatten_length_iff fun g held => filled g (List.mem_append_left _ held)).mp ?_
    omega
  · intro single
    have whole := List.takeWhile_append_dropWhile (p := fun g => !p g) (l := gs)
    obtain ⟨bad, behind, rest⟩ : ∃ bad behind, gs.dropWhile (fun g => !p g) = bad :: behind := by
      cases rest : gs.dropWhile fun g => !p g with
      | nil =>
          obtain ⟨g, held, wrong⟩ := some
          have fine := List.dropWhile_eq_nil_iff.mp rest g held
          rw [wrong] at fine
          cases fine
      | cons bad behind => exact ⟨bad, behind, rfl⟩
    have wrong : p bad = true := by
      have head := List.head?_dropWhile_not (fun g => !p g) gs
      rw [rest] at head
      simpa using head
    refine ⟨gs.takeWhile fun g => !p g, bad, behind, by rw [← rest, whole], ?_, wrong, ?_⟩
    · intro g held
      simpa using List.mem_takeWhile_imp held
    · have counted := (flatten_length_iff fun g held => filled g ((List.takeWhile_prefix _).subset held)).mpr single
      omega

end Zonefile

open Zonefile

/-- A file is refused by the number of the line that its first bad directive begins on, or all
that it loads survives in an answer. -/
def Servable (u : Strings) (text origin : Text) : Prop :=
  match parseZonefile u text origin with
  | .error (.config _ lineno _ _) => ∃ before bad behind, groups text = before ++ bad :: behind ∧
      (∀ g ∈ before, Zonefile.refused u (content (joined g)) = false) ∧ Zonefile.refused u (content (joined bad)) = true ∧
        lineno = before.flatten.length + 1
  | .error _ => False
  | .ok zone => ∀ id flags name rtype, zone.slot name rtype ≠ [] →
      (rrsetAnswer zone id flags name rtype).RoundTrips true

/-- The origin is a name, what is heeded of the file can be read, and then: where a directive is
refused, each line above it stands by itself; and where none is, what the file carries fits. -/
def Wholesome (u : Strings) (text origin : Text) : Prop :=
  ∃ org, Name.fromText origin = .ok org ∧
    Sound u { org, lastOwner := org } (heeded u (contents text)) ∧
      if (contents text).any (Zonefile.refused u) = true then
        ∀ g ∈ (groups text).take (heeded u (contents text)).length, g.length = 1
      else Fitting u (Zonefile.carried u { org, lastOwner := org } (contents text))

theorem servable_iff (u : Strings) (text origin : Text) : Servable u text origin ↔ Wholesome u text origin := by
  rw [Servable, Wholesome, parseZonefile]
  cases denotes : Name.fromText origin with
  | error e =>
      dsimp only
      refine iff_of_false id ?_
      rintro ⟨org, read, -⟩
      cases read
  | ok org =>
      have legal : Frame.Legal { org, lastOwner := org } :=
        ⟨Name.wireLen_of_fromText denotes, Name.wireLen_of_fromText denotes⟩
      have lines : (logicalLines text).map content = contents text := by
        rw [logicalLines_eq, List.map_map]
        rfl
      have bad_iff : (contents text).any (Zonefile.refused u) = true ↔
          ∃ line ∈ contents text, Zonefile.refused u line = true := List.any_eq_true
      have outcome := parseLines_cases (u := u) origin (logicalLines text) legal (Zone.make org) 1
      rw [lines] at outcome
      dsimp only
      rcases outcome with ⟨sound, clean, ls, loads, parsed⟩ | ⟨sound, bad, d, x, failed⟩ |
        ⟨unsound, fault, failed, other⟩
      · have none : ¬ (contents text).any (Zonefile.refused u) = true := by
          rw [bad_iff]
          rintro ⟨line, held, bad⟩
          rw [clean line held] at bad
          cases bad
        rw [parsed]
        dsimp only
        rw [all_served_iff loads]
        constructor
        · exact fun fitting => ⟨org, rfl, sound, by rwa [if_neg none]⟩
        · rintro ⟨other, ⟨⟩, -, fitting⟩
          rwa [if_neg none] at fitting
      · have some := bad_iff.mpr bad
        let p (g : List Text) : Bool := Zonefile.refused u (content (joined g))
        have above : (groups text).take (heeded u (contents text)).length = (groups text).takeWhile fun g => !p g := by
          have mapped : heeded u (contents text) =
              ((groups text).takeWhile fun g => !p g).map fun g => content (joined g) := List.takeWhile_map ..
          rw [mapped, List.length_map]
          exact (List.prefix_iff_eq_take.mp (List.takeWhile_prefix _)).symm
        have counted : (heeded u (contents text)).length = ((groups text).takeWhile fun g => !p g).length := by
          rw [← above, List.length_take, heeded]
          have short := (List.takeWhile_prefix (l := contents text) fun line => !Zonefile.refused u line).length_le
          rw [contents, List.length_map] at short
          exact (Nat.min_eq_left short).symm
        have wrong : ∃ g ∈ groups text, p g = true := by
          obtain ⟨line, held, bad⟩ := bad
          obtain ⟨g, inside, rfl⟩ := List.mem_map.mp held
          exact ⟨g, inside, bad⟩
        rw [failed]
        dsimp only
        rw [counted] at above ⊢
        refine (numbered_iff (p := p) groupsFrom_ne_nil wrong).trans ?_
        constructor
        · exact fun single => ⟨org, rfl, sound, by rwa [if_pos some, above]⟩
        · rintro ⟨other, ⟨⟩, -, single⟩
          rwa [if_pos some, above] at single
      · rw [failed]
        refine iff_of_false ?_ ?_
        · cases fault with
          | config o n d x => exact absurd rfl (other o n d x)
          | wire _ => exact id
          | value => exact id
        · rintro ⟨other, ⟨⟩, sound, -⟩
          exact unsound sound

/-- The name of a server that is no name, and an address that is none. -/
def strayName : Text := "www IN NS bad..name".toList
def strayAddress : Text := "www IN A not-an-address".toList
def testOrigin : Text := "test".toList

/-- The first raises what is no configuration error, the second loads what no answer can carry. -/
theorem stray_records : ¬ Servable Strings.ascii strayName testOrigin ∧
    ¬ Servable Strings.ascii strayAddress testOrigin := by
  constructor
  · have raised : (parseZonefile Strings.ascii strayName testOrigin).map (fun _ => ()) =
        .error (.wire (.badLabelLength "bad..name.test".toList)) := by
      decide +kernel
    rw [Servable]
    cases result : parseZonefile Strings.ascii strayName testOrigin with
    | ok zone =>
        rw [result] at raised
        cases raised
    | error e =>
        rw [result] at raised
        cases raised
        exact id
  · let www : Name := ⟨[⟨[0x77, 0x77, 0x77], by decide, by decide⟩, ⟨[0x74, 0x65, 0x73, 0x74], by decide, by decide⟩]⟩
    have unwritten : (parseZonefile Strings.ascii strayAddress testOrigin).toOption.map (fun zone =>
        (zone.slot www RRType.a == [], ((rrsetAnswer zone 0 0 www RRType.a).toWire none true).toBool)) =
        some (false, false) := by
      decide +kernel
    rw [Servable]
    cases result : parseZonefile Strings.ascii strayAddress testOrigin with
    | error e =>
        rw [result] at unwritten
        cases unwritten
    | ok zone =>
        rw [result] at unwritten
        obtain ⟨filled, failed⟩ := Prod.mk.inj (Option.some.inj unwritten)
        intro served
        obtain ⟨bytes, wire, -⟩ := served 0 0 www RRType.a (fun empty => by simp [empty] at filled)
        rw [wire] at failed
        cases failed

end Trench.AuthZone
