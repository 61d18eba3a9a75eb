import Trench.Lib.Dict

set_option autoImplicit false

/- The words of a query, and the way a value is written so that it is one of them. -/
namespace Trench.Console

/-- A string of JavaScript: its UTF-16 code units. -/
abbrev Units := List Nat

def units (s : String) : Units := s.toList.map Char.toNat

/-- The operators of comparisons, and `|` and `&`. -/
inductive Op where
  | ge
  | le
  | ne
  | colon
  | eq
  | gt
  | lt
  | bar
  | amp
  deriving DecidableEq, Repr

namespace Op

def text : Op → Units
  | ge => units ">="
  | le => units "<="
  | ne => units "!="
  | colon => units ":"
  | eq => units "="
  | gt => units ">"
  | lt => units "<"
  | bar => units "|"
  | amp => units "&"

/-- `|` and `&` stand between terms, the others in one. -/
def joins (op : Op) : Bool := op == bar || op == amp

end Op

/-- `OPS`, the longer ones first. -/
def ops : List Op := [.ge, .le, .ne, .colon, .eq, .gt, .lt]

/-- `OPS.find((o) => src.startsWith(o, i))`. -/
def opAt (src : Units) : Option Op := ops.find? fun o => o.text.isPrefixOf src

/-- A token; the end of the list stands for `eof`. -/
inductive Tok where
  | word (v : Units) (quoted : Bool)
  | op (op : Op)
  | lparen
  | rparen
  deriving DecidableEq, Repr

/-- What is thrown: the place in the text of an unterminated string, else the number of tokens in front. -/
inductive QueryError where
  | unterminated (pos : Nat)
  | neverClosed (pos : Nat)
  | expectedTerm (pos : Nat)
  | nothingToClose (pos : Nat)
  | needsBothSides (op : Op) (pos : Nat)
  | needsField (op : Op) (pos : Nat)
  | expectedValue (word : Units) (op : Op) (pos : Nat)
  | unknownField (field : Units) (pos : Nat)
  | takesNumber (field : Units) (op : Op) (pos : Nat)
  | takesText (field : Units) (op : Op) (pos : Nat)
  | noMatchingOpen (pos : Nat)
  | trailing (pos : Nat)
  deriving DecidableEq, Repr

/-! ### `lex` -/

def blanks : Units := units " \t\n"

/-- What a bareword stops at, and `|` and `&` stand alone between. -/
def gaps : Units := units " \t\n()"

/-- The loop over a quoted string, up to its closing quote. -/
def readQuoted (quote : Nat) : Units → Option (Units × Units)
  | [] => none
  | c :: rest =>
      if c = quote then some ([], rest)
      else if c = '\\'.toNat then
        match rest with
        | [] => none
        | d :: more => (readQuoted quote more).map fun (v, rest) => (d :: v, rest)
      else (readQuoted quote rest).map fun (v, rest) => (c :: v, rest)

/-- `|`, `||`, `&` and `&&`, but only standing alone. -/
def standing (prev : Option Nat) (c : Nat) (rest : Units) : Option (Op × Units) :=
  if c = '|'.toNat ∨ c = '&'.toNat then
    let rest := if rest.head? = some c then rest.tail else rest
    if prev.all gaps.contains && rest.head?.all gaps.contains then
      some (if c = '|'.toNat then .bar else .amp, rest)
    else none
  else none

/-- A bareword runs to whitespace, a parenthesis or an operator. -/
def bareword : Units → Units × Units
  | [] => ([], [])
  | c :: rest =>
      if gaps.contains c || (opAt (c :: rest)).isSome then ([], c :: rest)
      else
        let (v, rest) := bareword rest
        (c :: v, rest)

/-- One round of the loop: the token, if it is not a blank, and what is left. -/
def lexOne (pos : Nat) (prev : Option Nat) (c : Nat) (rest : Units) : Except QueryError (Option Tok × Units) :=
  if blanks.contains c then .ok (none, rest)
  else if c = '('.toNat then .ok (some .lparen, rest)
  else if c = ')'.toNat then .ok (some .rparen, rest)
  else if c = '"'.toNat ∨ c = '\''.toNat then
    match readQuoted c rest with
    | none => .error (.unterminated pos)
    | some (v, rest) => .ok (some (.word v true), rest)
  else
    match standing prev c rest with
    | some (op, rest) => .ok (some (.op op), rest)
    | none =>
        match opAt (c :: rest) with
        | some op => .ok (some (.op op), (c :: rest).drop op.text.length)
        | none =>
            let (v, rest) := bareword (c :: rest)
            .ok (some (.word v false), rest)

/-- The loop of `lex`, where every round takes a unit at least. -/
def lexLoop : Nat → Nat → Option Nat → Units → Except QueryError (List Tok)
  | 0, _, _, _ => .ok []
  | _, _, _, [] => .ok []
  | fuel + 1, pos, prev, c :: rest =>
      match lexOne pos prev c rest with
      | .error e => .error e
      | .ok (tok, left) =>
          let used := (c :: rest).take ((c :: rest).length - left.length)
          match lexLoop fuel (pos + used.length) used.getLast? left with
          | .error e => .error e
          | .ok toks => .ok (tok.toList ++ toks)

def lex (src : Units) : Except QueryError (List Tok) := lexLoop src.length 0 none src

/-! ### `quote` -/

/-- `\s` of a regular expression. -/
def isSpace (u : Nat) : Bool :=
  (0x09 ≤ u && u ≤ 0x0D) || u == 0x20 || u == 0xA0 || u == 0x1680 || (0x2000 ≤ u && u ≤ 0x200A) ||
    u == 0x2028 || u == 0x2029 || u == 0x202F || u == 0x205F || u == 0x3000 || u == 0xFEFF

/-- `[\s()"'\\:=<>!&|]`. -/
def special (u : Nat) : Bool := isSpace u || (units "()\"'\\:=<>!&|").contains u

/-- The backslashes and quotes of a text behind backslashes. -/
def escape (v : Units) : Units :=
  v.flatMap fun u => if u = '\\'.toNat ∨ u = '"'.toNat then ['\\'.toNat, u] else [u]

def quote (v : Units) : Units :=
  if v ≠ [] ∧ v.any special = false ∧ v.head? ≠ some '-'.toNat then v
  else units "\"" ++ escape v ++ units "\""

/-- `field=value`, safely. -/
def term (field value : Units) (op : Op := .eq) : Units := field ++ op.text ++ quote value

example : (lex (units "client=\"fe80::1\" and -cached")).toOption =
    some [.word (units "client") false, .op .eq, .word (units "fe80::1") true, .word (units "and") false,
      .word (units "-cached") false] := by decide +kernel

end Trench.Console
