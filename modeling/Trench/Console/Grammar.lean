import Trench.Console.Parser

set_option autoImplicit false

/- The grammar over tokens, and that the parser reads just that. -/
namespace Trench.Console

/-- The layers of the grammar, the loosest first. -/
inductive Level where
  | or
  | and
  | unary
  | primary

section

variable {ν : Type} (js : Js ν)

/-- The grammar: which tokens are an expression, over what a term is. -/
inductive Derives (Term : List Tok → Node → Prop) : Level → List Tok → Node → Prop where
  | orOne {toks : List Tok} {n : Node} : Derives Term .and toks n → Derives Term .or toks n
  | orMore {left right : List Tok} {a b : Node} {sep : Tok} : isOr js sep = true → Derives Term .or left a →
      Derives Term .and right b → Derives Term .or (left ++ sep :: right) (.or a b)
  | andOne {toks : List Tok} {n : Node} : Derives Term .unary toks n → Derives Term .and toks n
  | andMore {left right : List Tok} {a b : Node} {sep : Tok} : isAnd js sep = true → Derives Term .and left a →
      Derives Term .unary right b → Derives Term .and (left ++ sep :: right) (.and a b)
  | beside {left right : List Tok} {a b : Node} : atAnd js right = false → atOr js right = false →
      Derives Term .and left a → Derives Term .unary right b → Derives Term .and (left ++ right) (.and a b)
  | notWord {toks : List Tok} {a : Node} {v : Units} : js.lower v = units "not" → Derives Term .unary toks a →
      Derives Term .unary (.word v false :: toks) (.not a)
  | sign {toks : List Tok} {a : Node} {v : Units} : js.lower v ≠ units "not" → negated v = some [] →
      Derives Term .unary toks a → Derives Term .unary (.word v false :: toks) (.not a)
  | signed {toks : List Tok} {a : Node} {v w : Units} : js.lower v ≠ units "not" → negated v = some w → w ≠ [] →
      Derives Term .unary (.word w false :: toks) a → Derives Term .unary (.word v false :: toks) (.not a)
  | plain {toks : List Tok} {n : Node} : afterNot js toks = none → Derives Term .primary toks n →
      Derives Term .unary toks n
  | paren {toks : List Tok} {n : Node} : Derives Term .or toks n →
      Derives Term .primary (.lparen :: toks ++ [.rparen]) n
  | term {toks : List Tok} {n : Node} : Term toks n → Derives Term .primary toks n

/-- The code takes a comparison with this field, one of the table or an inherited one. -/
def accepts (field : Units) (op : Op) (value : Units) : Bool :=
  match property (fields js) field with
  | none => false
  | some (.inherited _) => true
  | some (.own d) => d.takes js op value

/-- The terms that the code reads: a comparison, or a word. -/
inductive CodeTerm : List Tok → Node → Prop where
  | cmp {v value : Units} {quoted quoted' : Bool} {op : Op} : op.joins = false →
      accepts js (js.lower v) op value = true →
      CodeTerm [.word v quoted, .op op, .word value quoted'] (.cmp (js.lower v) op (js.lower value))
  | word {v : Units} {quoted : Bool} : CodeTerm [.word v quoted] (bare js v quoted)

/-- What the code reads as an expression. -/
abbrev Code : Level → List Tok → Node → Prop := Derives js (CodeTerm js)

variable {js}

/-- A term begins with this token. -/
def Tok.begins : Tok → Bool
  | .word _ _ => true
  | .lparen => true
  | _ => false

theorem CodeTerm.begins {toks : List Tok} {n : Node} (term : CodeTerm js toks n) :
    ∃ tok rest, toks = tok :: rest ∧ tok.begins = true := by
  cases term <;> exact ⟨_, _, rfl, rfl⟩

theorem Derives.begins {Term : List Tok → Node → Prop}
    (first : ∀ {toks : List Tok} {n : Node}, Term toks n → ∃ tok rest, toks = tok :: rest ∧ tok.begins = true)
    {level : Level} {toks : List Tok} {n : Node} (reads : Derives js Term level toks n) :
    ∃ tok rest, toks = tok :: rest ∧ tok.begins = true := by
  induction reads with
  | orOne _ ih | andOne _ ih | plain _ _ ih => exact ih
  | orMore _ _ _ left _ | andMore _ _ _ left _ | beside _ _ _ _ left _ =>
      obtain ⟨tok, rest, rfl, begins⟩ := left
      exact ⟨tok, _, rfl, begins⟩
  | notWord _ _ _ | sign _ _ _ _ | signed _ _ _ _ _ | paren _ _ => exact ⟨_, _, rfl, rfl⟩
  | term term => exact first term

theorem Derives.ne_nil {level : Level} {toks : List Tok} {n : Node} (reads : Code js level toks n) : toks ≠ [] := by
  obtain ⟨tok, rest, rfl, -⟩ := reads.begins CodeTerm.begins
  exact List.cons_ne_nil _ _

/-! ### The parser reads the grammar -/

/-- Some tokens in front of the others are an expression. -/
def Reads (js : Js ν) (level : Level) (toks : List Tok) (n : Node) (rest : List Tok) : Prop :=
  ∃ used, toks = used ++ rest ∧ Code js level used n

theorem comparison_reads {total : Nat} {v : Units} {quoted : Bool} {op : Op} {toks rest : List Tok} {n : Node}
    (stands : op.joins = false) (read : comparison js total v op toks = .ok (n, rest)) :
    Reads js .primary (.word v quoted :: .op op :: toks) n rest := by
  cases toks with
  | nil => cases read
  | cons tok left =>
      cases tok with
      | word value quoted' =>
          have taken : accepts js (js.lower v) op value = true ∧
              (Node.cmp (js.lower v) op (js.lower value), left) = (n, rest) := by
            simp only [comparison] at read
            rw [accepts]
            cases found : property (fields js) (js.lower v) with
            | none =>
                rw [found] at read
                cases read
            | some held =>
                rw [found] at read
                cases held with
                | inherited name => exact ⟨rfl, Except.ok.inj read⟩
                | own d =>
                    dsimp only at read ⊢
                    split at read
                    · next taken => exact ⟨taken, Except.ok.inj read⟩
                    · cases read
          obtain ⟨taken, same⟩ := taken
          cases same
          exact ⟨[.word v quoted, .op op, .word value quoted'], rfl, .term (.cmp stands taken)⟩
      | op _ => cases read
      | lparen => cases read
      | rparen => cases read

theorem wordTerm_reads {total : Nat} {v : Units} {quoted : Bool} {toks rest : List Tok} {n : Node}
    (read : wordTerm js total v quoted toks = .ok (n, rest)) :
    Reads js .primary (.word v quoted :: toks) n rest := by
  have alone (same : (bare js v quoted, toks) = (n, rest)) :
      Reads js .primary (.word v quoted :: toks) n rest := by
    cases same
    exact ⟨[.word v quoted], rfl, .term .word⟩
  unfold wordTerm at read
  split at read
  · next op rest =>
      cases stands : op.joins with
      | true =>
          rw [stands, if_pos rfl] at read
          exact alone (Except.ok.inj read)
      | false =>
          rw [stands, if_neg Bool.false_ne_true] at read
          exact comparison_reads stands read
  · exact alone (Except.ok.inj read)

/-- Every function of the parser reads its layer, to a depth. -/
structure Sound (js : Js ν) (total fuel : Nat) : Prop where
  orExpr {toks rest : List Tok} {n : Node} : orExpr js total fuel toks = .ok (n, rest) → Reads js .or toks n rest
  orRest {left toks rest : List Tok} {a n : Node} : Code js .or left a → orRest js total fuel a toks = .ok (n, rest) →
    Reads js .or (left ++ toks) n rest
  andExpr {toks rest : List Tok} {n : Node} : andExpr js total fuel toks = .ok (n, rest) →
    Reads js .and toks n rest
  andRest {left toks rest : List Tok} {a n : Node} : Code js .and left a →
    andRest js total fuel a toks = .ok (n, rest) → Reads js .and (left ++ toks) n rest
  unary {toks rest : List Tok} {n : Node} : unary js total fuel toks = .ok (n, rest) →
    Reads js .unary toks n rest
  primary {toks rest : List Tok} {n : Node} : primary js total fuel toks = .ok (n, rest) →
    Reads js .primary toks n rest

theorem atOr_cases {toks : List Tok} (there : atOr js toks = true) :
    ∃ sep rest, toks = sep :: rest ∧ isOr js sep = true := by
  cases toks with
  | nil => cases there
  | cons sep rest => exact ⟨sep, rest, rfl, there⟩

theorem atAnd_cases {toks : List Tok} (there : atAnd js toks = true) :
    ∃ sep rest, toks = sep :: rest ∧ isAnd js sep = true := by
  cases toks with
  | nil => cases there
  | cons sep rest => exact ⟨sep, rest, rfl, there⟩

/-- Whether a prefix stands in front is seen from the first token. -/
theorem afterNot_append {toks : List Tok} (some : toks ≠ []) (rest : List Tok) :
    afterNot js (toks ++ rest) = (afterNot js toks).map (· ++ rest) := by
  match toks, some with
  | .word v true :: left, _ => rfl
  | .op _ :: left, _ => rfl
  | .lparen :: left, _ => rfl
  | .rparen :: left, _ => rfl
  | .word v false :: left, _ =>
      rw [List.cons_append, afterNot, afterNot]
      split
      · rfl
      · rw [Option.map_map]
        congr 1
        funext w
        rw [Function.comp_apply]
        split <;> rfl

/-- What stands after a prefix, with the prefix in front of it again. -/
theorem afterNot_reads {toks more : List Tok} {a : Node} {rest : List Tok} (after : afterNot js toks = some more)
    (reads : Reads js .unary more a rest) : Reads js .unary toks (.not a) rest := by
  obtain ⟨used, rfl, derived⟩ := reads
  match toks, after with
  | .word v false :: left, after =>
      rw [afterNot] at after
      by_cases word : js.lower v = units "not"
      · rw [if_pos word] at after
        cases after
        exact ⟨.word v false :: used, rfl, .notWord word derived⟩
      · rw [if_neg word] at after
        obtain ⟨w, cut, same⟩ := Option.map_eq_some_iff.mp after
        by_cases alone : w = []
        · subst alone
          rw [if_pos rfl] at same
          cases same
          exact ⟨.word v false :: used, rfl, .sign word cut derived⟩
        · rw [if_neg alone] at same
          cases used with
          | nil => exact absurd rfl (derived.ne_nil)
          | cons tok used =>
              rw [List.cons_append, List.cons.injEq] at same
              obtain ⟨rfl, rfl⟩ := same
              exact ⟨.word v false :: used, rfl, .signed word cut alone derived⟩

theorem sound_succ {total fuel : Nat} (ih : Sound js total fuel) : Sound js total (fuel + 1) where
  orExpr := by
    intro toks rest n read
    simp only [Console.orExpr] at read
    split at read
    · cases read
    · next left mid first =>
        obtain ⟨used, rfl, derived⟩ := ih.andExpr first
        exact ih.orRest (.orOne derived) read
  orRest := by
    intro left toks rest a n held read
    simp only [Console.orRest] at read
    split at read
    · next there =>
        obtain ⟨sep, toks, rfl, isSep⟩ := atOr_cases there
        split at read
        · cases read
        · next right mid next =>
            obtain ⟨used, same, derived⟩ := ih.andExpr next
            rw [List.tail_cons] at same
            have reads := ih.orRest (.orMore isSep held derived) read
            rw [same]
            simpa using reads
    · cases read
      exact ⟨left, rfl, held⟩
  andExpr := by
    intro toks rest n read
    simp only [Console.andExpr] at read
    split at read
    · cases read
    · next left mid first =>
        obtain ⟨used, rfl, derived⟩ := ih.unary first
        exact ih.andRest (.andOne derived) read
  andRest := by
    intro left toks rest a n held read
    simp only [Console.andRest] at read
    split at read
    · cases read
      exact ⟨left, rfl, held⟩
    · next goes =>
        split at read
        · cases read
        · next right mid next =>
            obtain ⟨used, same, derived⟩ := ih.unary next
            cases there : atAnd js toks with
            | true =>
                obtain ⟨sep, toks, rfl, isSep⟩ := atAnd_cases there
                rw [if_pos there, List.tail_cons] at same
                have reads := ih.andRest (.andMore isSep held derived) read
                rw [same]
                simpa using reads
            | false =>
                rw [there, if_neg Bool.false_ne_true] at same
                have stays : atOr js used = false := by
                  rw [there, Bool.not_false, Bool.true_and, atEnd, Bool.or_eq_true, not_or] at goes
                  have none := Bool.eq_false_iff.mpr goes.2
                  cases used with
                  | nil => rfl
                  | cons tok used => rwa [same] at none
                have starts : atAnd js used = false := by
                  cases used with
                  | nil => rfl
                  | cons tok used => rwa [same] at there
                have reads := ih.andRest (.beside starts stays held derived) read
                rw [same]
                simpa using reads
  unary := by
    intro toks rest n read
    simp only [Console.unary] at read
    split at read
    · next more after =>
        cases inner : Console.unary js total fuel more with
        | error e => rw [inner] at read; cases read
        | ok out =>
            rw [inner] at read
            cases read
            exact afterNot_reads after (ih.unary inner)
    · next none =>
        obtain ⟨used, rfl, derived⟩ := ih.primary read
        rw [afterNot_append (derived.ne_nil), Option.map_eq_none_iff] at none
        exact ⟨used, rfl, .plain none derived⟩
  primary := by
    intro toks rest n read
    match toks with
    | .lparen :: toks =>
        simp only [Console.primary] at read
        split at read
        · cases read
        · next inner rest inside =>
            cases read
            obtain ⟨used, rfl, derived⟩ := ih.orExpr inside
            exact ⟨.lparen :: used ++ [.rparen], by simp, .paren derived⟩
        · cases read
    | .word v quoted :: toks => exact wordTerm_reads read
    | [] => cases read
    | .rparen :: _ => cases read
    | .op _ :: _ => cases read

theorem sound (total : Nat) : ∀ fuel, Sound js total fuel
  | 0 => {
      orExpr := fun read => nomatch read
      orRest := fun _ read => nomatch read
      andExpr := fun read => nomatch read
      andRest := fun _ read => nomatch read
      unary := fun read => nomatch read
      primary := fun read => nomatch read }
  | fuel + 1 => sound_succ (sound total fuel)

/-! ### The parser goes no deeper than its depth -/

@[simp] theorem weight_append (toks rest : List Tok) : weight (toks ++ rest) = weight toks + weight rest := by
  simp [weight]

theorem weight_cons (tok : Tok) (rest : List Tok) : weight (tok :: rest) = tok.weight + weight rest := by
  simp [weight]

theorem Tok.weight_pos (tok : Tok) : 0 < tok.weight := by
  cases tok <;> simp [Tok.weight]

theorem weight_pos {toks : List Tok} (some : toks ≠ []) : 0 < weight toks := by
  cases toks with
  | nil => exact absurd rfl some
  | cons tok rest =>
      have := tok.weight_pos
      rw [weight_cons]
      omega

theorem Reads.lighter {level : Level} {toks rest : List Tok} {n : Node}
    (reads : Reads js level toks n rest) : weight rest < weight toks := by
  obtain ⟨used, rfl, derived⟩ := reads
  have := weight_pos (derived.ne_nil)
  rw [weight_append]
  omega

theorem afterNot_lighter {toks more : List Tok} (after : afterNot js toks = some more) :
    weight more < weight toks := by
  match toks, after with
  | .word v false :: left, after =>
      have heavy : weight (.word v false :: left) = v.length + 1 + weight left := weight_cons _ _
      rw [afterNot] at after
      split at after
      · cases after
        omega
      · obtain ⟨w, cut, same⟩ := Option.map_eq_some_iff.mp after
        have shorter : v.length = w.length + 1 := by
          cases v with
          | nil => cases cut
          | cons c v =>
              rw [negated] at cut
              split at cut
              · cases cut
                rfl
              · cases cut
        split at same
        · cases same
          omega
        · cases same
          have lighter : weight (.word w false :: left) = w.length + 1 + weight left := weight_cons _ _
          omega

/-- With a depth that the tokens do not need, no function stops for the stack. -/
structure Shallow (js : Js ν) (total fuel : Nat) : Prop where
  orExpr {toks : List Tok} : 4 * weight toks + 4 ≤ fuel → orExpr js total fuel toks ≠ .error .stack
  orRest {toks : List Tok} {a : Node} : 4 * weight toks + 3 ≤ fuel → orRest js total fuel a toks ≠ .error .stack
  andExpr {toks : List Tok} : 4 * weight toks + 3 ≤ fuel → andExpr js total fuel toks ≠ .error .stack
  andRest {toks : List Tok} {a : Node} : 4 * weight toks + 3 ≤ fuel → andRest js total fuel a toks ≠ .error .stack
  unary {toks : List Tok} : 4 * weight toks + 2 ≤ fuel → unary js total fuel toks ≠ .error .stack
  primary {toks : List Tok} : 4 * weight toks + 1 ≤ fuel → primary js total fuel toks ≠ .error .stack

theorem wordTerm_shallow {total : Nat} {v : Units} {quoted : Bool} {toks : List Tok} :
    wordTerm js total v quoted toks ≠ .error .stack := by
  unfold wordTerm
  split
  · split
    · exact nofun
    · unfold comparison
      split
      · dsimp only
        split
        · exact nofun
        · exact nofun
        · split <;> exact nofun
      · exact nofun
  · exact nofun

theorem shallow_succ {total fuel : Nat} (ih : Shallow js total fuel) : Shallow js total (fuel + 1) where
  orExpr := by
    intro toks enough
    simp only [Console.orExpr]
    split
    · next e failed =>
        intro same
        cases same
        exact ih.andExpr (by omega) failed
    · next left rest read =>
        have lighter := ((sound total fuel).andExpr read).lighter
        exact ih.orRest (by omega)
  orRest := by
    intro toks a enough
    simp only [Console.orRest]
    split
    · next there =>
        obtain ⟨sep, toks, rfl, -⟩ := atOr_cases there
        have := sep.weight_pos
        rw [weight_cons] at enough
        rw [List.tail_cons]
        split
        · next e failed =>
            intro same
            cases same
            exact ih.andExpr (by omega) failed
        · next right rest read =>
            have lighter := ((sound total fuel).andExpr read).lighter
            exact ih.orRest (by omega)
    · exact nofun
  andExpr := by
    intro toks enough
    simp only [Console.andExpr]
    split
    · next e failed =>
        intro same
        cases same
        exact ih.unary (by omega) failed
    · next left rest read =>
        have lighter := ((sound total fuel).unary read).lighter
        exact ih.andRest (by omega)
  andRest := by
    intro toks a enough
    simp only [Console.andRest]
    split
    · exact nofun
    · have lighter : weight (if atAnd js toks then toks.tail else toks) ≤ weight toks := by
        split
        · next there =>
            obtain ⟨sep, toks, rfl, -⟩ := atAnd_cases there
            rw [weight_cons, List.tail_cons]
            omega
        · exact Nat.le_refl _
      split
      · next e failed =>
          intro same
          cases same
          exact ih.unary (by omega) failed
      · next right rest read =>
          have := ((sound total fuel).unary read).lighter
          exact ih.andRest (by omega)
  unary := by
    intro toks enough
    simp only [Console.unary]
    split
    · next more after =>
        have := afterNot_lighter after
        have inner := @ih.unary more (by omega)
        intro same
        cases read : Console.unary js total fuel more with
        | error e =>
            rw [read] at same
            cases same
            exact inner read
        | ok out => rw [read] at same; cases same
    · exact ih.primary (by omega)
  primary := by
    intro toks enough
    match toks with
    | .lparen :: toks =>
        have heavy : weight (.lparen :: toks) = 1 + weight toks := weight_cons _ _
        simp only [Console.primary]
        split
        · next e failed =>
            intro same
            cases same
            exact ih.orExpr (by omega) failed
        · exact nofun
        · exact nofun
    | .word v quoted :: toks => exact wordTerm_shallow
    | [] => exact nofun
    | .rparen :: _ => exact nofun
    | .op _ :: _ => exact nofun

theorem shallow (total : Nat) : ∀ fuel, Shallow js total fuel
  | 0 => {
      orExpr := fun enough => absurd enough (by omega)
      orRest := fun enough => absurd enough (by omega)
      andExpr := fun enough => absurd enough (by omega)
      andRest := fun enough => absurd enough (by omega)
      unary := fun enough => absurd enough (by omega)
      primary := fun enough => absurd enough (by omega) }
  | fuel + 1 => shallow_succ (shallow total fuel)

/-! ### The parser reads all of the grammar -/

/-- A comparison's operator comes next. -/
def comparing : List Tok → Bool
  | .op op :: _ => !op.joins
  | _ => false

/-- What comes next ends a conjunction. -/
def EndsAnd (js : Js ν) (rest : List Tok) : Prop := atAnd js rest = false ∧ atEnd js rest = true

theorem isAnd_of_isOr {tok : Tok} (sep : isOr js tok = true) : isAnd js tok = false := by
  cases tok with
  | word v quoted =>
      cases quoted with
      | true => rfl
      | false =>
          have same : js.lower v = units "or" := by simpa [isOr, isWord] using sep
          simp [isAnd, isWord, same, units]
  | op op => cases op <;> first | rfl | cases sep
  | lparen => rfl
  | rparen => rfl

theorem endsAnd_or {sep : Tok} {rest : List Tok} (isSep : isOr js sep = true) : EndsAnd js (sep :: rest) :=
  ⟨isAnd_of_isOr isSep, by simp [atEnd, atOr, isSep]⟩

theorem endsAnd_rparen (rest : List Tok) : EndsAnd js (.rparen :: rest) := ⟨rfl, rfl⟩

theorem endsAnd_nil : EndsAnd js [] := ⟨rfl, rfl⟩

theorem comparing_isOr {sep : Tok} {rest : List Tok} (isSep : isOr js sep = true) :
    comparing (sep :: rest) = false := by
  cases sep with
  | op op => cases op <;> first | rfl | cases isSep
  | _ => rfl

theorem comparing_isAnd {sep : Tok} {rest : List Tok} (isSep : isAnd js sep = true) :
    comparing (sep :: rest) = false := by
  cases sep with
  | op op => cases op <;> first | rfl | cases isSep
  | _ => rfl

theorem comparing_begins {tok : Tok} {rest : List Tok} (begins : tok.begins = true) :
    comparing (tok :: rest) = false := by
  cases tok with
  | op _ => cases begins
  | _ => rfl

theorem comparing_endsAnd {rest : List Tok} (ends : EndsAnd js rest) : comparing rest = false := by
  cases rest with
  | nil => rfl
  | cons tok rest =>
      have last := ends.2
      rw [atEnd, Bool.or_eq_true, Bool.or_eq_true] at last
      obtain (none | close) | isSep := last
      · cases none
      · rw [List.head?_cons, beq_iff_eq, Option.some.injEq] at close
        rw [close]
        rfl
      · exact comparing_isOr isSep

theorem andRest_ends {total fuel : Nat} {n : Node} {rest : List Tok} (ends : EndsAnd js rest) (some : 0 < fuel) :
    andRest js total fuel n rest = .ok (n, rest) := by
  obtain ⟨fuel, rfl⟩ := Nat.exists_eq_add_of_lt some
  rw [Nat.zero_add, andRest, ends.1, ends.2]
  rfl

theorem orRest_ends {total fuel : Nat} {n : Node} {rest : List Tok} (ends : atOr js rest = false) (some : 0 < fuel) :
    orRest js total fuel n rest = .ok (n, rest) := by
  obtain ⟨fuel, rfl⟩ := Nat.exists_eq_add_of_lt some
  rw [Nat.zero_add, orRest, ends]
  rfl

/-- With depth enough, the tokens are read wherever they stand, and the loops go on behind them. -/
def Completes (js : Js ν) (total : Nat) : Level → List Tok → Node → Prop
  | .or, toks, n => ∀ (rest : List Tok) (out : Parsed), EndsAnd js rest →
      (∀ fuel, 4 * weight rest + 3 ≤ fuel → orRest js total fuel n rest = out) →
      ∀ fuel, 4 * weight (toks ++ rest) + 4 ≤ fuel → orExpr js total fuel (toks ++ rest) = out
  | .and, toks, n => ∀ (rest : List Tok) (out : Parsed), comparing rest = false →
      (∀ fuel, 4 * weight rest + 3 ≤ fuel → andRest js total fuel n rest = out) →
      ∀ fuel, 4 * weight (toks ++ rest) + 3 ≤ fuel → andExpr js total fuel (toks ++ rest) = out
  | .unary, toks, n => ∀ rest : List Tok, comparing rest = false →
      ∀ fuel, 4 * weight (toks ++ rest) + 2 ≤ fuel → unary js total fuel (toks ++ rest) = .ok (n, rest)
  | .primary, toks, n => ∀ rest : List Tok, comparing rest = false →
      ∀ fuel, 4 * weight (toks ++ rest) + 1 ≤ fuel → primary js total fuel (toks ++ rest) = .ok (n, rest)

variable {total : Nat}

/-- Depth enough is not none. -/
theorem deeper {fuel more : Nat} (enough : more + 1 ≤ fuel) : ∃ less, fuel = less + 1 ∧ more ≤ less :=
  ⟨fuel - 1, by omega, by omega⟩

theorem Completes.read_and {toks : List Tok} {n : Node} (done : Completes js total .and toks n) {rest : List Tok}
    (ends : EndsAnd js rest) {fuel : Nat} (enough : 4 * weight (toks ++ rest) + 3 ≤ fuel) :
    andExpr js total fuel (toks ++ rest) = .ok (n, rest) :=
  done rest _ (comparing_endsAnd ends) (fun _ enough => andRest_ends ends (by omega)) fuel enough

theorem completes_orOne {toks : List Tok} {n : Node} (derived : Code js .and toks n)
    (done : Completes js total .and toks n) : Completes js total .or toks n := by
  intro rest out ends goes fuel enough
  have some := weight_pos derived.ne_nil
  rw [weight_append] at enough
  obtain ⟨fuel, rfl, enough⟩ := deeper enough
  rw [orExpr, done.read_and ends (by rw [weight_append]; omega)]
  exact goes fuel (by omega)

theorem completes_orMore {left right : List Tok} {a b : Node} {sep : Tok} (isSep : isOr js sep = true)
    (derived : Code js .and right b) (first : Completes js total .or left a)
    (second : Completes js total .and right b) : Completes js total .or (left ++ sep :: right) (.or a b) := by
  intro rest out ends goes fuel enough
  rw [List.append_assoc] at enough ⊢
  refine first (sep :: (right ++ rest)) out (endsAnd_or isSep) ?_ fuel enough
  intro fuel enough
  have some := sep.weight_pos
  rw [weight_cons, weight_append] at enough
  obtain ⟨fuel, rfl, enough⟩ := deeper enough
  have there : atOr js (sep :: (right ++ rest)) = true := isSep
  rw [orRest, if_pos there, List.tail_cons,
    second.read_and ends (by rw [weight_append]; omega)]
  exact goes fuel (by omega)

theorem completes_andOne {toks : List Tok} {n : Node} (derived : Code js .unary toks n)
    (done : Completes js total .unary toks n) : Completes js total .and toks n := by
  intro rest out free goes fuel enough
  have some := weight_pos derived.ne_nil
  rw [weight_append] at enough
  obtain ⟨fuel, rfl, enough⟩ := deeper enough
  rw [andExpr, done rest free fuel (by rw [weight_append]; omega)]
  exact goes fuel (by omega)

theorem completes_andMore {left right : List Tok} {a b : Node} {sep : Tok} (isSep : isAnd js sep = true)
    (derived : Code js .unary right b) (first : Completes js total .and left a)
    (second : Completes js total .unary right b) : Completes js total .and (left ++ sep :: right) (.and a b) := by
  intro rest out free goes fuel enough
  rw [List.append_assoc] at enough ⊢
  refine first (sep :: (right ++ rest)) out (comparing_isAnd isSep) ?_ fuel enough
  intro fuel enough
  have some := weight_pos derived.ne_nil
  rw [weight_cons, weight_append] at enough
  obtain ⟨fuel, rfl, enough⟩ := deeper enough
  have there : atAnd js (sep :: (right ++ rest)) = true := isSep
  rw [andRest, there, Bool.not_true, Bool.false_and, if_neg Bool.false_ne_true, if_pos rfl,
    List.tail_cons, second rest free fuel (by rw [weight_append]; omega)]
  exact goes fuel (by omega)

theorem completes_beside {left right : List Tok} {a b : Node} (notAnd : atAnd js right = false)
    (notOr : atOr js right = false) (derived : Code js .unary right b) (first : Completes js total .and left a)
    (second : Completes js total .unary right b) : Completes js total .and (left ++ right) (.and a b) := by
  intro rest out free goes fuel enough
  obtain ⟨tok, more, rfl, begins⟩ := derived.begins CodeTerm.begins
  rw [List.append_assoc] at enough ⊢
  refine first (tok :: more ++ rest) out (comparing_begins begins) ?_ fuel enough
  intro fuel enough
  have some := weight_pos derived.ne_nil
  rw [weight_append] at enough
  obtain ⟨fuel, rfl, enough⟩ := deeper enough
  have noAnd : atAnd js (tok :: more ++ rest) = false := notAnd
  have noEnd : atEnd js (tok :: more ++ rest) = false := by
    have noOr : atOr js (tok :: more ++ rest) = false := notOr
    rw [atEnd, noOr, Bool.or_false]
    cases tok with
    | rparen => cases begins
    | _ => rfl
  rw [andRest, noAnd, noEnd, Bool.and_false, if_neg Bool.false_ne_true, if_neg Bool.false_ne_true,
    second rest free fuel (by rw [weight_append]; omega)]
  exact goes fuel (by omega)

theorem completes_not {toks more : List Tok} {a : Node} (after : afterNot js toks = some more)
    (done : Completes js total .unary more a) : Completes js total .unary toks (.not a) := by
  intro rest free fuel enough
  have some : toks ≠ [] := by
    intro none
    rw [none] at after
    cases after
  have lighter := afterNot_lighter after
  rw [weight_append] at enough
  obtain ⟨fuel, rfl, enough⟩ := deeper enough
  rw [unary, afterNot_append some, after, Option.map_some]
  dsimp only
  rw [done rest free fuel (by rw [weight_append]; omega)]
  rfl

theorem completes_plain {toks : List Tok} {n : Node} (none : afterNot js toks = none)
    (derived : Code js .primary toks n) (done : Completes js total .primary toks n) :
    Completes js total .unary toks n := by
  intro rest free fuel enough
  obtain ⟨fuel, rfl, enough⟩ := deeper enough
  rw [unary, afterNot_append derived.ne_nil, none, Option.map_none]
  exact done rest free fuel (by omega)

theorem completes_paren {toks : List Tok} {n : Node} (done : Completes js total .or toks n) :
    Completes js total .primary (.lparen :: toks ++ [.rparen]) n := by
  intro rest free fuel enough
  have whole : Tok.lparen :: toks ++ [.rparen] ++ rest = .lparen :: (toks ++ .rparen :: rest) := by simp
  rw [whole, weight_cons] at enough
  rw [whole]
  obtain ⟨fuel, rfl, enough⟩ := deeper enough
  have inner := done (.rparen :: rest) _ (endsAnd_rparen rest)
    (fun fuel enough => @orRest_ends ν js total fuel n _ rfl (by omega)) fuel
    (by have : Tok.lparen.weight = 1 := rfl; omega)
  rw [primary, inner]

theorem completes_term {toks : List Tok} {n : Node} (term : CodeTerm js toks n) :
    Completes js total .primary toks n := by
  intro rest free fuel enough
  obtain ⟨fuel, rfl, enough⟩ := deeper enough
  cases term with
  | @word v quoted =>
      rw [List.cons_append, List.nil_append, primary]
      unfold wordTerm
      split
      · next op rest =>
          rw [comparing, Bool.not_eq_false'] at free
          rw [if_pos free]
      · rfl
  | @cmp v value quoted quoted' op stands taken =>
      rw [List.cons_append, primary, List.cons_append, List.cons_append, List.nil_append, wordTerm, stands,
        if_neg Bool.false_ne_true, comparison]
      rw [accepts] at taken
      cases found : property (fields js) (js.lower v) with
      | none =>
          rw [found] at taken
          cases taken
      | some held =>
          rw [found] at taken
          cases held with
          | inherited name => rfl
          | own d =>
              dsimp only at taken ⊢
              rw [if_pos taken]

/-- What the grammar derives is read. -/
theorem completes {level : Level} {toks : List Tok} {n : Node} (derived : Code js level toks n) :
    Completes js total level toks n := by
  induction derived with
  | orOne derived ih => exact completes_orOne derived ih
  | orMore isSep _ derived first second => exact completes_orMore isSep derived first second
  | andOne derived ih => exact completes_andOne derived ih
  | andMore isSep _ derived first second => exact completes_andMore isSep derived first second
  | beside notAnd notOr _ derived first second => exact completes_beside notAnd notOr derived first second
  | notWord word _ ih => exact completes_not (by rw [afterNot, if_pos word]) ih
  | sign word cut _ ih => exact completes_not (by rw [afterNot, if_neg word, cut]; rfl) ih
  | signed word cut some _ ih =>
      exact completes_not (by rw [afterNot, if_neg word, cut, Option.map_some, if_neg some]) ih
  | plain none derived ih => exact completes_plain none derived ih
  | paren _ ih => exact completes_paren ih
  | term term => exact completes_term term

/-- The parser gives a tree just where the tokens are an expression, and then that tree. -/
theorem parse_iff {toks : List Tok} {n : Node} : parse js (depth toks) toks = .ok n ↔
    toks = [] ∧ n = .all ∨ Code js .or toks n := by
  by_cases none : toks = []
  · subst none
    constructor
    · intro read
      cases read
      exact .inl ⟨rfl, rfl⟩
    · rintro (⟨-, rfl⟩ | derived)
      · rfl
      · exact absurd rfl derived.ne_nil
  · rw [parse, if_neg none]
    constructor
    · intro read
      right
      split at read
      · cases read
      · next root whole =>
          cases read
          obtain ⟨used, same, derived⟩ := (sound toks.length (depth toks)).orExpr whole
          rw [same, List.append_nil]
          exact derived
      · cases read
      · cases read
    · rintro (⟨empty, -⟩ | derived)
      · exact absurd empty none
      · have read := @completes ν js toks.length _ _ _ derived [] _ endsAnd_nil
          (fun fuel enough => orRest_ends (n := n) rfl (by omega)) (depth toks) (by simp [depth])
        rw [List.append_nil] at read
        rw [read]

theorem parse_shallow (toks : List Tok) : parse js (depth toks) toks ≠ .error .stack := by
  unfold parse
  split
  · exact nofun
  · have deep := (@shallow ν js toks.length (depth toks)).orExpr (Nat.le_refl (4 * weight toks + 4))
    split
    · next e failed =>
        intro same
        cases same
        exact deep failed
    · exact nofun
    · exact nofun
    · exact nofun

end

end Trench.Console
