import Trench.Console.Lexer

set_option autoImplicit false

/- The query language of the console: its words, its parser, and what a query says of a row. -/
namespace Trench.Console

/-! ### JavaScript -/

/-- What is used of JavaScript's strings and numbers. -/
structure Js (ν : Type) where
  lower : Units → Units
  number : Units → ν
  isNaN : ν → Bool
  ofNat : Nat → ν
  lt : ν → ν → Bool
  le : ν → ν → Bool
  same : ν → ν → Bool
  sub : ν → ν → ν
  div : ν → ν → ν

/-- `toLowerCase` on a unit of ASCII. -/
def lowerUnit (u : Nat) : Nat := if 'A'.toNat ≤ u ∧ u ≤ 'Z'.toNat then u + 32 else u

/-- Strings of ASCII are lowered unit by unit. -/
def Js.LowersAscii {ν : Type} (js : Js ν) : Prop := ∀ s : Units, (∀ u ∈ s, u < 128) → js.lower s = s.map lowerUnit

/-- The names that a plain object has from `Object.prototype`. -/
def prototypeNames : List Units :=
  ["constructor", "__proto__", "__defineGetter__", "__defineSetter__", "__lookupGetter__", "__lookupSetter__",
    "hasOwnProperty", "isPrototypeOf", "propertyIsEnumerable", "toLocaleString", "toString", "valueOf"].map units

/-- A property of a plain object, its own or one of its prototype. -/
inductive Property (α : Type) where
  | own (value : α)
  | inherited (name : Units)
  deriving DecidableEq, Repr

/-- `table[key]` on a plain object, nothing where it is `undefined`. -/
def property {α : Type} (table : List (Units × α)) (key : Units) : Option (Property α) :=
  match table.lookup key with
  | some value => some (.own value)
  | none => if prototypeNames.contains key then some (.inherited key) else none

/-- `value.includes(pattern)`. -/
def includes (value pattern : Units) : Bool := decide (pattern <:+: value)

/-! ### Rows -/

/-- One persisted row of the query log. -/
structure Row (ν : Type) where
  ts : ν
  clientIp : Units
  clientId : Option Units
  qname : Units
  qtype : Units
  proto : Option Units
  action : Units
  reason : Option Units
  rule : Option Units
  source : Option Units
  upstream : Option Units
  rcode : Units
  answers : Option Units
  elapsedUs : Option ν

/-- Extra facts that are not on the row itself. -/
structure Ctx (ν : Type) where
  registrable : Units → Units
  clientsFor : Option (Units → ν)
  firstSeen : Option (Units → Option ν)
  deviceName : Option (Units → Units)

/-- How a row is drawn. -/
inductive OutcomeKind where
  | cache
  | upstream
  | local
  | blocked
  | failed
  | unknown
  deriving DecidableEq, Repr

def blockedActions : List Units := ["blocked", "block", "refused", "ratelimited", "safesearch"].map units

def localActions : List Units := ["authoritative", "rewrite"].map units

section

variable {ν : Type} (js : Js ν)

/-- `lower`, with an empty string for nothing. -/
def lowered (v : Option Units) : Units := js.lower (v.getD [])

def kindOf (r : Row ν) : OutcomeKind :=
  let action := js.lower r.action
  if action = [] then .unknown
  else if action = units "failed" ∨ js.lower r.rcode = units "servfail" then .failed
  else if blockedActions.contains action then .blocked
  else if action = units "cached" then .cache
  else if localActions.contains action then .local
  else .upstream

/-! ### Fields -/

/-- What a field takes from a row: a text, or a number where there is one. -/
inductive Get (ν : Type) where
  | text (get : Row ν → Ctx ν → Units)
  | num (get : Row ν → Ctx ν → Option ν)

def Get.isNum {ν : Type} : Get ν → Bool
  | text _ => false
  | num _ => true

structure FieldDef (ν : Type) where
  get : Get ν
  param : Option Units := none
  noun : Units

/-- `x || 0`. -/
def orZero (x : Option ν) : ν :=
  match x with
  | some x => if js.isNaN x then js.ofNat 0 else x
  | none => js.ofNat 0

/-- `replace(/\.$/, "")`. -/
def withoutDot (name : Units) : Units := if name.getLast? = some '.'.toNat then name.dropLast else name

def labelsOf (name : Units) : List Units := (withoutDot name).splitOn '.'.toNat

def deviceOf (c : Ctx ν) (ip : Units) : Units := lowered js (c.deviceName.map fun name => name ip)

def firstSeenOf (c : Ctx ν) (name : Units) : Option ν := c.firstSeen.bind fun seen => seen name

/-- A text field of one column. -/
def column (get : Row ν → Option Units) (noun : String) (param : Option String := none) : FieldDef ν :=
  ⟨.text fun r _ => lowered js (get r), param.map units, units noun⟩

def textField (get : Row ν → Ctx ν → Units) (noun : String) : FieldDef ν := ⟨.text get, none, units noun⟩

def numField (get : Row ν → Ctx ν → Option ν) (noun : String) : FieldDef ν := ⟨.num get, none, units noun⟩

/-- `FIELDS`. -/
def fields : List (Units × FieldDef ν) :=
  [(units "name", column js (fun r => r.qname) "the name" (some "qname")),
   (units "reg", textField (fun r c => c.registrable r.qname) "the registrable domain"),
   (units "tld", textField (fun r _ => (labelsOf (js.lower r.qname)).getLast?.getD []) "the suffix"),
   (units "client", column js (fun r => r.clientIp) "the device address" (some "client")),
   (units "id", column js Row.clientId "the client identity"),
   (units "device", textField (fun r c => deviceOf js c r.clientIp) "the device name"),
   (units "action", column js (fun r => r.action) "the outcome" (some "action")),
   (units "rcode", column js (fun r => r.rcode) "the response code" (some "rcode")),
   (units "upstream", column js Row.upstream "the upstream" (some "upstream")),
   (units "type", column js (fun r => r.qtype) "the record type"),
   (units "proto", column js Row.proto "the transport"),
   (units "rule", column js Row.rule "the deciding rule"),
   (units "source", column js Row.source "the rule's source"),
   (units "reason", column js Row.reason "the decision note"),
   (units "answer", column js Row.answers "the answer records"),
   (units "ms", numField (fun r _ => js.div (orZero js r.elapsedUs) (js.ofNat 1000))
     "the time to answer, in milliseconds"),
   (units "labels", numField (fun r _ => js.ofNat (labelsOf (js.lower r.qname)).length) "the label count"),
   (units "len", numField (fun r _ => js.ofNat (withoutDot r.qname).length) "the name length"),
   (units "clients", numField (fun r c =>
     (c.clientsFor.map fun count => count (js.lower r.qname)).getD (js.ofNat 1))
     "the number of devices asking it"),
   (units "age", numField (fun r c => (firstSeenOf c (js.lower r.qname)).map fun seen =>
     js.div (js.sub r.ts seen) (js.ofNat 86400000000)) "the days since this name was first seen")]

/-- `KIND_WORDS`. -/
def kindWords : List (Units × OutcomeKind) :=
  [(units "blocked", .blocked), (units "refused", .blocked), (units "cached", .cache),
   (units "forwarded", .upstream), (units "failed", .failed), (units "local", .local)]

/-- `ACTION_WORDS`. -/
def actionWords : List (Units × Units) :=
  (["authoritative", "rewrite", "safesearch", "ratelimited"].map units).map fun w => (w, w)

/-- The tests of `FLAGS`, with the help that a sentence reads. -/
def flags : List (Units × (Row ν → Ctx ν → Bool) × Units) :=
  [(units "punycode", fun r _ => includes (js.lower r.qname) (units "xn--"), units "name uses punycode"),
   (units "nxdomain", fun r _ => js.lower r.rcode == units "nxdomain", units "answer was NXDOMAIN"),
   (units "slow", fun r _ => js.lt (js.ofNat 200000) (orZero js r.elapsedUs), units "took over 200ms"),
   (units "human", fun r _ => r.rule.any (fun rule => rule != []) && lowered js r.source == units "custom",
     units "decided by a rule a person wrote"),
   (units "novel", fun r c => (firstSeenOf c (js.lower r.qname)).any fun seen =>
     js.lt (js.sub r.ts seen) (js.ofNat 3600000000), units "first seen on this network within the hour")]

end

/-! ### Expressions -/

inductive Node where
  | all
  | not (a : Node)
  | and (a b : Node)
  | or (a b : Node)
  | cmp (field : Units) (op : Op) (value : Units)
  | flag (name : Units)
  | kind (kind : Property OutcomeKind)
  | free (value : Units)
  deriving DecidableEq, Repr

/-! ### `evaluate` -/

/-- What `.` of a regular expression is not. -/
def endsLine (u : Nat) : Bool := u == 0x0A || u == 0x0D || u == 0x2028 || u == 0x2029

/-- The anchored expression of a pattern with `*` and `?`. -/
def wild : Units → Units → Bool
  | [], value => value.isEmpty
  | p :: pattern, value =>
      if p = '*'.toNat then
        (List.range (value.length + 1)).any fun k =>
          (value.take k).all (fun u => !endsLine u) && wild pattern (value.drop k)
      else
        match value with
        | [] => false
        | u :: value => (if p = '?'.toNat then !endsLine u else u == p) && wild pattern value

def isGlob (pattern : Units) : Bool := pattern.contains '*'.toNat || pattern.contains '?'.toNat

def globMatch (value pattern : Units) : Bool :=
  if isGlob pattern then wild pattern value else includes value pattern

section

variable {ν : Type} (js : Js ν)

def cmpNum (got : Option ν) (op : Op) (want : ν) : Bool :=
  match got with
  | none => false
  | some got =>
      if js.isNaN want then false
      else
        match op with
        | .gt => js.lt want got
        | .lt => js.lt got want
        | .ge => js.le want got
        | .le => js.le got want
        | .ne => !js.same got want
        | _ => js.same got want

def cmpText (s : Units) (op : Op) (value : Units) : Bool :=
  match op with
  | .ne => !globMatch s value
  | .eq => s == value
  | _ => globMatch s value

/-- What a free word is looked for in. -/
def hay (r : Row ν) (ctx : Ctx ν) : Units :=
  (units " ").intercalate
    [js.lower r.qname, js.lower r.clientIp, lowered js r.clientId, deviceOf js ctx r.clientIp,
      lowered js r.rule, lowered js r.reason]

/-- `def.get(r, ctx)` compared with a value. -/
def FieldDef.holds (d : FieldDef ν) (op : Op) (value : Units) (r : Row ν) (ctx : Ctx ν) : Bool :=
  match d.get with
  | .num get => cmpNum js (get r ctx) op (js.number value)
  | .text get => cmpText (get r ctx) op value

/-- Nothing where it throws: a word that is not of its table has no `test` and no `get`. -/
def evaluate : Node → Row ν → Ctx ν → Option Bool
  | .all, _, _ => some true
  | .not a, r, ctx => (evaluate a r ctx).map not
  | .and a b, r, ctx =>
      match evaluate a r ctx with
      | some true => evaluate b r ctx
      | v => v
  | .or a b, r, ctx =>
      match evaluate a r ctx with
      | some false => evaluate b r ctx
      | v => v
  | .flag name, r, ctx => ((flags js).lookup name).map fun f => f.1 r ctx
  | .kind (.own kind), r, _ => some (kindOf js r == kind)
  | .kind (.inherited _), _, _ => some false
  | .free value, r, ctx => some (globMatch (hay js r ctx) value)
  | .cmp field op value, r, ctx => ((fields js).lookup field).map fun d => d.holds js op value r ctx

/-! ### `pushdown` -/

/-- The actions of a kind, where they are a closed set. -/
def actionsOf : Property OutcomeKind → Option (List Units)
  | .own .blocked => some blockedActions
  | .own .cache => some [units "cached"]
  | _ => none

/-- `replace(/^\*+|\*+$/g, "")`. -/
def withoutStars (value : Units) : Units :=
  ((value.dropWhile (· == '*'.toNat)).reverse.dropWhile (· == '*'.toNat)).reverse

/-- `out[param] = value` on the parameters so far. -/
def setParam (out : List (Units × Units)) (param value : Units) : List (Units × Units) :=
  (param, value) :: out.filter (·.1 != param)

/-- One comparison's part of the query. -/
def pushOne (out : List (Units × Units)) (param : Units) (op : Op) (value : Units) : List (Units × Units) :=
  if op ≠ .colon ∧ op ≠ .eq then out
  else if isGlob value then
    let core := withoutStars value
    if param = units "qname" ∧ core ≠ [] ∧ isGlob core = false then setParam out param core else out
  else if (out.lookup param).isSome then out
  else setParam out param value

def walk (out : List (Units × Units)) : Node → List (Units × Units)
  | .and a b => walk (walk out a) b
  | .kind kind =>
      match actionsOf kind, out.lookup (units "action") with
      | some actions, none => setParam out (units "action") ((units ",").intercalate actions)
      | _, _ => out
  | .cmp field op value =>
      match ((fields js).lookup field).bind FieldDef.param with
      | some param => pushOne out param op value
      | none => out
  | _ => out

/-- The query parameters of the part that the server can answer. -/
def pushdown (n : Node) : List (Units × Units) := walk js [] n

/-! ### `explain` -/

/-- `KIND_LABEL`. -/
def OutcomeKind.label : OutcomeKind → Units
  | .blocked => units "blocked"
  | .failed => units "failed"
  | .cache => units "cached"
  | .upstream => units "forwarded"
  | .local => units "local"
  | .unknown => units "unrecorded"

/-- The words for the operators of numbers. -/
def Op.word : Op → Units
  | .gt => units "over"
  | .lt => units "under"
  | .ge => units "at least"
  | .le => units "at most"
  | .ne => units "not"
  | _ => units "exactly"

/-- The words between a noun and its value. -/
def relation (isNum : Bool) (op : Op) (value : Units) : Units :=
  if isNum then op.word
  else if op = .ne then units "is not"
  else if isGlob value then units "matches"
  else if op = .eq then units "is"
  else units "contains"

def compared (noun : Units) (isNum : Bool) (op : Op) (value : Units) : Units :=
  noun ++ units " " ++ relation isNum op value ++ units " " ++ value

def phrase : Node → Option Units
  | .all => some (units "everything")
  | .not a => (phrase a).map fun a => units "not (" ++ a ++ units ")"
  | .and a b =>
      match phrase a, phrase b with
      | some a, some b => some (a ++ units " and " ++ b)
      | _, _ => none
  | .or a b =>
      match phrase a, phrase b with
      | some a, some b => some (a ++ units " or " ++ b)
      | _, _ => none
  | .flag name => ((flags js).lookup name).map Prod.snd
  | .kind (.own kind) => some (units "the outcome is " ++ kind.label)
  | .kind (.inherited _) => some (units "the outcome is undefined")
  | .free value => some (units "anything mentioning \"" ++ value ++ units "\"")
  | .cmp field op value =>
      match property (fields js) field with
      | some (.own d) => some (compared d.noun d.get.isNum op value)
      | some (.inherited _) => some (compared (units "undefined") false op value)
      | none => none

/-- `toUpperCase` on a unit of ASCII, as every phrase begins with one. -/
def upperUnit (u : Nat) : Nat := if 'a'.toNat ≤ u ∧ u ≤ 'z'.toNat then u - 32 else u

/-- The phrase as a sentence. -/
def sentence (s : Units) : Units :=
  (match s with
    | [] => []
    | u :: rest => upperUnit u :: rest) ++ units "."

/-- Nothing where it throws. -/
def explain (n : Node) : Option Units := (phrase js n).map sentence

end

end Trench.Console
