import Trench.Console.Qlang

set_option autoImplicit false

/- The parser of the query language: its functions call each other as in the source, to a depth. -/
namespace Trench.Console

/-- Why a query is not compiled: what is thrown, or a nest deeper than the stack. -/
inductive Failure where
  | query (e : QueryError)
  | stack
  deriving DecidableEq, Repr

abbrev Parsed := Except Failure (Node × List Tok)

section

variable {ν : Type} (js : Js ν)

/-- The word `s` without quotes. -/
def isWord (s : Units) : Tok → Bool
  | .word v false => js.lower v == s
  | _ => false

def isOr (tok : Tok) : Bool := isWord js (units "or") tok || tok == .op .bar

def isAnd (tok : Tok) : Bool := isWord js (units "and") tok || tok == .op .amp

/-- `or` comes next, or `|`. -/
def atOr (toks : List Tok) : Bool := toks.head?.any (isOr js)

/-- `and` comes next, or `&`. -/
def atAnd (toks : List Tok) : Bool := toks.head?.any (isAnd js)

/-- A conjunction ends here. -/
def atEnd (toks : List Tok) : Bool := toks.isEmpty || toks.head? == some .rparen || atOr js toks

/-- What follows a `!` or `-` in front. -/
def negated : Units → Option Units
  | c :: rest => if c = '!'.toNat ∨ c = '-'.toNat then some rest else none
  | [] => none

/-- The tokens after `not`, `!` or `-`, where the signs may stand in front of a word without a blank. -/
def afterNot : List Tok → Option (List Tok)
  | .word v false :: rest =>
      if js.lower v = units "not" then some rest
      else (negated v).map fun w => if w = [] then rest else .word w false :: rest
  | _ => none

/-- A word that is not compared: of what is inherited every table has the same, so the first takes it. -/
def bare (v : Units) (quoted : Bool) : Node :=
  let w := js.lower v
  if quoted then .free w
  else
    match property kindWords w with
    | some kind => .kind kind
    | none =>
        match actionWords.lookup w with
        | some action => .cmp (units "action") .eq action
        | none => if ((flags js).lookup w).isSome then .flag w else .free w

/-- A number has to be one, and a text is only equal or not. -/
def FieldDef.takes (d : FieldDef ν) (op : Op) (value : Units) : Bool :=
  if d.get.isNum then !(value.all isSpace || js.isNaN (js.number value))
  else op == .colon || op == .eq || op == .ne

/-- What comes after a word and an operator, `total` being the number of tokens. -/
def comparison (total : Nat) (v : Units) (op : Op) : List Tok → Parsed
  | .word value _ :: rest =>
      let field := js.lower v
      let pos := total - rest.length
      match property (fields js) field with
      | none => .error (.query (.unknownField field pos))
      | some (.inherited _) => .ok (.cmp field op (js.lower value), rest)
      | some (.own d) =>
          if d.takes js op value then .ok (.cmp field op (js.lower value), rest)
          else .error (.query (if d.get.isNum then .takesNumber field op pos else .takesText field op pos))
  | toks => .error (.query (.expectedValue v op (total - toks.length)))

/-- A word, and its comparison if an operator follows. -/
def wordTerm (total : Nat) (v : Units) (quoted : Bool) : List Tok → Parsed
  | .op op :: rest => if op.joins then .ok (bare js v quoted, .op op :: rest) else comparison js total v op rest
  | rest => .ok (bare js v quoted, rest)

/-- What is thrown where no term begins. -/
def noTerm (total : Nat) (toks : List Tok) : QueryError :=
  let pos := total - toks.length
  match toks with
  | .rparen :: _ => .nothingToClose pos
  | .op op :: _ => if op.joins then .needsBothSides op pos else .needsField op pos
  | _ => .expectedTerm pos

mutual

def orExpr (total : Nat) : Nat → List Tok → Parsed
  | 0, _ => .error .stack
  | fuel + 1, toks =>
      match andExpr total fuel toks with
      | .error e => .error e
      | .ok (left, rest) => orRest total fuel left rest

/-- The loop of `orExpr`. -/
def orRest (total : Nat) : Nat → Node → List Tok → Parsed
  | 0, _, _ => .error .stack
  | fuel + 1, left, toks =>
      if atOr js toks then
        match andExpr total fuel toks.tail with
        | .error e => .error e
        | .ok (right, rest) => orRest total fuel (.or left right) rest
      else .ok (left, toks)

def andExpr (total : Nat) : Nat → List Tok → Parsed
  | 0, _ => .error .stack
  | fuel + 1, toks =>
      match unary total fuel toks with
      | .error e => .error e
      | .ok (left, rest) => andRest total fuel left rest

/-- The loop of `andExpr`: terms side by side are joined as well. -/
def andRest (total : Nat) : Nat → Node → List Tok → Parsed
  | 0, _, _ => .error .stack
  | fuel + 1, left, toks =>
      if !atAnd js toks && atEnd js toks then .ok (left, toks)
      else
        match unary total fuel (if atAnd js toks then toks.tail else toks) with
        | .error e => .error e
        | .ok (right, rest) => andRest total fuel (.and left right) rest

def unary (total : Nat) : Nat → List Tok → Parsed
  | 0, _ => .error .stack
  | fuel + 1, toks =>
      match afterNot js toks with
      | some toks => (unary total fuel toks).map fun (a, rest) => (.not a, rest)
      | none => primary total fuel toks

def primary (total : Nat) : Nat → List Tok → Parsed
  | 0, _ => .error .stack
  | fuel + 1, .lparen :: toks =>
      match orExpr total fuel toks with
      | .error e => .error e
      | .ok (inner, .rparen :: rest) => .ok (inner, rest)
      | .ok (_, rest) => .error (.query (.neverClosed (total - rest.length)))
  | _ + 1, .word v quoted :: rest => wordTerm js total v quoted rest
  | _ + 1, toks => .error (.query (noTerm total toks))

end

/-- The whole of the tokens, to a depth. -/
def parse (fuel : Nat) (toks : List Tok) : Except Failure Node :=
  if toks = [] then .ok .all
  else
    match orExpr js toks.length fuel toks with
    | .error e => .error e
    | .ok (root, []) => .ok root
    | .ok (_, .rparen :: rest) => .error (.query (.noMatchingOpen (toks.length - (rest.length + 1))))
    | .ok (_, rest) => .error (.query (.trailing (toks.length - rest.length)))

/-- What is left to read of a token. -/
def Tok.weight : Tok → Nat
  | .word v _ => v.length + 1
  | _ => 1

def weight (toks : List Tok) : Nat := (toks.map Tok.weight).sum

/-- A depth that no query goes under. -/
def depth (toks : List Tok) : Nat := 4 * weight toks + 4

def compile (src : Units) : Except Failure Node :=
  match lex src with
  | .error e => .error (.query e)
  | .ok toks => parse js (depth toks) toks

end

end Trench.Console
