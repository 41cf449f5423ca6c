import TypedLang.Proofs.Parsing.Soundness

/-!
# Completeness of the parser

The parser accepts whatever the grammar spells, and gives the tree that is spelled. A rule reads as
far as it can, so it takes a stretch only if what follows does not continue it: behind an expression
there may be neither an operator of its level nor an argument list. In a program such a stretch is
always followed by a semicolon, a comma, a closing parenthesis or a looser operator.

Chains of operators and calls are spelled from the left, while the parser takes them in a loop. What
is shown of such a loop is where it stands behind every stretch that is spelled: with the value of
that stretch in hand and fuel for all that is left.
-/

namespace TypedLang

namespace Rule

variable {Result Other : Type}

/-- A rule takes every stretch that is spelled, provided that what follows ends it. -/
structure Takes (rule : Rule Result) (spelled : List Token → Result → Prop)
    (ends : List Token → Prop) : Prop where
  ok : ∀ {used : List Token} {value : Result} {rest : List Token},
    spelled used value → ends rest → rule (used ++ rest) = .ok (value, rest)

/-- Nothing can follow that would continue a stretch. -/
def Always (_ : List Token) : Prop :=
  True

namespace Takes

theorem mono {rule : Rule Result} {spelled fewer : List Token → Result → Prop}
    {ends : List Token → Prop} (takes : rule.Takes spelled ends)
    (strengthen : ∀ used value, fewer used value → spelled used value) :
    rule.Takes fewer ends where
  ok isSpelled ended := takes.ok (strengthen _ _ isSpelled) ended

theorem pure (value : Result) :
    Takes (fun tokens => Pure.pure (value, tokens))
      (fun used result => used = [] ∧ result = value) Always where
  ok := by
    rintro _ _ rest ⟨rfl, rfl⟩ _
    rfl

/-- A rule and the one behind it take both stretches, if the second one ends the first. -/
theorem bind {first : Rule Result} {next : Result → Rule Other}
    {spelled : List Token → Result → Prop} {others : Result → List Token → Other → Prop}
    {between ends : List Token → Prop} (firstTakes : first.Takes spelled between)
    (nextTakes : ∀ value, (next value).Takes (others value) ends)
    (ended : ∀ {value back result rest}, others value back result → ends rest →
      between (back ++ rest)) :
    Takes
      (fun tokens => do
        let (value, rest) ← first tokens
        next value rest)
      (fun used result => ∃ value front back,
        used = front ++ back ∧ spelled front value ∧ others value back result) ends where
  ok := by
    rintro _ result rest ⟨value, front, back, rfl, firstSpelled, nextSpelled⟩ endsRest
    have taken := firstTakes.ok firstSpelled (ended nextSpelled endsRest)
    simp only [List.append_assoc, taken]
    exact (nextTakes value).ok nextSpelled endsRest

end Takes

@[simp]
theorem expect_punct (mark : Punct) (span : Span) (rest : List Token) :
    expect (.punct mark) (⟨.punct mark, span⟩ :: rest) = .ok (span, rest) :=
  if_pos rfl

@[simp]
theorem expect_keyword (word : Keyword) (span : Span) (rest : List Token) :
    expect (.keyword word) (⟨.keyword word, span⟩ :: rest) = .ok (span, rest) :=
  if_pos rfl

theorem expect_takes (mark : Punct) :
    (expect (.punct mark)).Takes (fun used span => used = [⟨.punct mark, span⟩]) Always where
  ok := by
    rintro _ span rest rfl _
    exact expect_punct mark span rest

theorem name_takes :
    name.Takes (fun used name => used = [⟨.identifier name.key, name.span⟩]) Always where
  ok := by
    rintro _ name rest rfl _
    rfl

/-- Everything that is spelled starts with a token of one of some kinds. -/
def StartsWith (spelled : List Token → Result → Prop) (kinds : List TokenKind) : Prop :=
  ∀ used value, spelled used value → ∃ token rest, used = token :: rest ∧ token.kind ∈ kinds

theorem StartsWith.kind_mem {spelled : List Token → Result → Prop} {kinds : List TokenKind}
    (starts : StartsWith spelled kinds) {used : List Token} {value : Result}
    (isSpelled : spelled used value) {rest others : List Token} {token : Token}
    (tokens_eq : used ++ rest = token :: others) : token.kind ∈ kinds := by
  rcases starts _ _ isSpelled with ⟨first, more, rfl, kindMem⟩
  cases tokens_eq
  exact kindMem

section Lists

variable {element : Rule Result} {spelled : List Token → Result → Prop} {ends : List Token → Prop}

/--
A list is its first item and a tail. The tail ends the first item, and behind that item the parser
takes the tail up to the closing parenthesis.
-/
theorem afterCommas_takes (elementTakes : element.Takes spelled ends)
    (commaEnds : ∀ comma rest, ends (⟨.punct .comma, comma⟩ :: rest))
    (closeEnds : ∀ close rest, ends (⟨.punct .rightParen, close⟩ :: rest)) :
    (first : List Token × Result) → (others : List (List Token × Result)) →
      (tokens : List Token) → Separated tokens ((first :: others).map Prod.fst) →
      (∀ piece ∈ others, spelled piece.1 piece.2) →
        ∃ tail, tokens = first.1 ++ tail ∧ ∀ fuel close rest, tail.length ≤ fuel →
          ends (tail ++ ⟨.punct .rightParen, close⟩ :: rest) ∧
            afterCommas element fuel (tail ++ ⟨.punct .rightParen, close⟩ :: rest) =
              .ok (others.map Prod.snd, ⟨.punct .rightParen, close⟩ :: rest)
  | first, [], _, .last, _ => by
      refine ⟨[], (List.append_nil _).symm, ?_⟩
      intro fuel close rest _
      refine ⟨closeEnds close rest, ?_⟩
      cases fuel <;> rfl
  | first, next :: others, _, @Separated.more _ _ _ _ comma separated, all => by
      rw [List.forall_mem_cons] at all
      rcases afterCommas_takes elementTakes commaEnds closeEnds next others _ separated all.2 with
        ⟨tail, rfl, takes⟩
      refine ⟨⟨.punct .comma, comma⟩ :: (next.1 ++ tail), rfl, ?_⟩
      intro fuel close rest enough
      refine ⟨commaEnds comma _, ?_⟩
      cases fuel with
      | zero => cases enough
      | succ fuel =>
          simp only [List.length_cons, List.length_append] at enough
          rcases takes fuel close rest (by omega) with ⟨ended, taken⟩
          simp only [List.cons_append, List.append_assoc, afterCommas,
            elementTakes.ok all.1 ended, taken, advance, Bind.bind, Except.bind]
          rfl

theorem closedList_takes (elementTakes : element.Takes spelled ends)
    (commaEnds : ∀ comma rest, ends (⟨.punct .comma, comma⟩ :: rest))
    (closeEnds : ∀ close rest, ends (⟨.punct .rightParen, close⟩ :: rest))
    {kinds : List TokenKind} (starts : StartsWith spelled kinds)
    (noClose : .punct .rightParen ∉ kinds) :
    (closedList element).Takes
      (fun used list => ∃ body, used = body ++ [⟨.punct .rightParen, list.2⟩] ∧
        InList spelled body list.1) Always where
  ok := by
    rintro _ ⟨_, close⟩ rest ⟨body, rfl, pieces, rfl, separated, all⟩ _
    cases pieces with
    | nil =>
        cases separated
        rfl
    | cons first others =>
        rw [List.forall_mem_cons] at all
        rcases afterCommas_takes elementTakes commaEnds closeEnds first others body separated
          all.2 with ⟨tail, rfl, takes⟩
        rcases takes (tail ++ ⟨.punct .rightParen, close⟩ :: rest).length close rest (by simp) with
          ⟨ended, taken⟩
        rw [List.append_assoc, List.append_assoc]
        unfold closedList
        split
        · rename_i tokens_eq
          exact absurd (starts.kind_mem all.1 tokens_eq) noClose
        · simp only [List.singleton_append, elementTakes.ok all.1 ended, taken, Bind.bind,
            Except.bind]
          rfl

end Lists

end Rule

namespace BinaryOp

/-- Every binary operator, from the loosest to the tightest level. -/
def all : List BinaryOp :=
  [equality .equal, equality .notEqual, comparison .less, comparison .lessEqual,
    comparison .greater, comparison .greaterEqual, term .add, term .subtract, factor .multiply,
    factor .divide]

theorem mem_all (op : BinaryOp) : op ∈ all := by
  rcases op with (_ | _) | (_ | _ | _ | _) | (_ | _) | (_ | _) <;> decide

/-- What is said of every binary operator can be decided one by one. -/
instance {holds : BinaryOp → Prop} [DecidablePred holds] : Decidable (∀ op, holds op) :=
  decidable_of_iff (∀ op ∈ all, holds op)
    ⟨fun each op => each op op.mem_all, fun each op _ => each op⟩

theorem level_lt : ∀ op : BinaryOp, op.level < 4 := by
  decide

theorem mark_injective : ∀ op other : BinaryOp, op.mark = other.mark → op = other := by
  decide

end BinaryOp

/-- What follows does not continue an expression of a level: no call of it, no operator as loose. -/
def Expr.Ends (level : Nat) (rest : List Token) : Prop :=
  ∀ token ∈ rest.head?, token.kind ≠ .punct .leftParen ∧
    ∀ op : BinaryOp, token.kind = .punct op.mark → op.level < level

namespace Expr.Ends

variable {level : Nat} {rest : List Token}

theorem loosen {tight loose : Nat} (ends : Expr.Ends loose rest) (le : loose ≤ tight) :
    Expr.Ends tight rest := by
  intro token member
  rcases ends token member with ⟨noCall, looser⟩
  exact ⟨noCall, fun op kind_eq => Nat.lt_of_lt_of_le (looser op kind_eq) le⟩

theorem of_mark {mark : Punct} (span : Span) (rest : List Token) (noCall : mark ≠ .leftParen)
    (looser : ∀ op : BinaryOp, mark = op.mark → op.level < level) :
    Expr.Ends level (⟨.punct mark, span⟩ :: rest) := by
  intro token member
  cases Option.mem_some_iff.mp member
  exact ⟨fun kind_eq => noCall (TokenKind.punct.inj kind_eq),
    fun op kind_eq => looser op (TokenKind.punct.inj kind_eq)⟩

theorem of_no_operator {mark : Punct} (span : Span) (rest : List Token)
    (noCall : mark ≠ .leftParen) (noOperator : ∀ op : BinaryOp, mark ≠ op.mark) :
    Expr.Ends level (⟨.punct mark, span⟩ :: rest) := by
  apply of_mark span rest noCall
  intro op mark_eq
  exact absurd mark_eq (noOperator op)

theorem comma (span : Span) (rest : List Token) :
    Expr.Ends level (⟨.punct .comma, span⟩ :: rest) :=
  of_no_operator span rest (by decide) (by decide)

theorem rightParen (span : Span) (rest : List Token) :
    Expr.Ends level (⟨.punct .rightParen, span⟩ :: rest) :=
  of_no_operator span rest (by decide) (by decide)

theorem semicolon (span : Span) (rest : List Token) :
    Expr.Ends level (⟨.punct .semicolon, span⟩ :: rest) :=
  of_no_operator span rest (by decide) (by decide)

/-- An operator ends its left operand. -/
theorem operator (op : BinaryOp) (span : Span) (rest : List Token) :
    Expr.Ends (op.level + 1) (⟨.punct op.mark, span⟩ :: rest) := by
  apply of_mark span rest
  · revert op
    decide
  · intro other mark_eq
    rw [BinaryOp.mark_injective op other mark_eq]
    exact Nat.lt_succ_self _

end Expr.Ends

theorem Literal.kind_mem_expressionStart (value : Literal) :
    value.lexeme.kind ∈ Rule.expressionStart := by
  cases value <;> simp [lexeme, Lexeme.kind, Rule.expressionStart]

theorem Literal.unaryOp?_kind (value : Literal) : Rule.unaryOp? value.lexeme.kind = none := by
  cases value <;> rfl

/-- An expression starts with one of the tokens that may; a call does not start with an operator. -/
theorem Expr.Spelled.starts {level : Nat} {tokens : List Token} {value : Expr}
    (spelled : Expr.Spelled level tokens value) :
    ∃ token rest, tokens = token :: rest ∧ token.kind ∈ Rule.expressionStart ∧
      (5 ≤ level → Rule.unaryOp? token.kind = none) := by
  induction spelled with
  | @binary level op _ _ _ _ _ level_le _ _ left _ =>
      rcases left with ⟨token, rest, rfl, kindMem, _⟩
      have loose := op.level_lt
      exact ⟨token, _, rfl, kindMem, fun tight => by omega⟩
  | @unary level op _ _ _ level_le =>
      refine ⟨_, _, rfl, ?_, fun tight => by omega⟩
      change TokenKind.punct op.mark ∈ _
      cases op <;> decide
  | call _ _ _ _ callee _ =>
      rcases callee with ⟨token, rest, rfl, kindMem, noOp⟩
      exact ⟨token, _, rfl, kindMem, fun _ => noOp (Nat.le_refl 5)⟩
  | grouping _ _ =>
      refine ⟨_, _, rfl, ?_, fun _ => rfl⟩
      change TokenKind.punct .leftParen ∈ _
      decide
  | @literal _ value _ =>
      exact ⟨_, _, rfl, value.kind_mem_expressionStart, fun _ => value.unaryOp?_kind⟩
  | identifier =>
      refine ⟨_, _, rfl, ?_, fun _ => rfl⟩
      change TokenKind.identifier ∈ _
      decide

/-- Some tokens spell something, and they are fewer than a bound. -/
def Within {Item : Type} (bound : Nat) (spelled : List Token → Item → Prop) (tokens : List Token)
    (item : Item) : Prop :=
  tokens.length < bound ∧ spelled tokens item

namespace Rule

section Expressions

/-- The test for the operators of one level finds them all. -/
def FindsLevel (operator? : TokenKind → Option BinaryOp) (level : Nat) : Prop :=
  ∀ op : BinaryOp, op.level = level → operator? (.punct op.mark) = some op

theorem equalityOp?_finds : FindsLevel equalityOp? 0 := by
  unfold FindsLevel
  decide

theorem comparisonOp?_finds : FindsLevel comparisonOp? 1 := by
  unfold FindsLevel
  decide

theorem termOp?_finds : FindsLevel termOp? 2 := by
  unfold FindsLevel
  decide

theorem factorOp?_finds : FindsLevel factorOp? 3 := by
  unfold FindsLevel
  decide

variable {operand : Rule Expr} {operator? : TokenKind → Option BinaryOp} {level bound : Nat}

/-- Where nothing continues a chain of operands, it ends. -/
theorem binaryTail_of_ends (tests : TestsLevel operator? level) {rest : List Token}
    (ends : Expr.Ends level rest) (fuel : Nat) (left : Expr) :
    binaryTail operand operator? fuel left rest = .ok (left, rest) := by
  cases fuel with
  | zero => rfl
  | succ fuel =>
      cases rest with
      | nil => rfl
      | cons token rest =>
          rw [binaryTail]
          split
          · rfl
          · rename_i op found
            rcases tests _ op found with ⟨level_eq, kind_eq⟩
            have looser := (ends token rfl).2 op kind_eq
            omega

/-- Behind a stretch that is spelled, the parser has its value in hand and may go on. -/
theorem binaryLevel_reaches (binary : level < 4) (finds : FindsLevel operator? level)
    (operandTakes : operand.Takes (Within bound (Expr.Spelled (level + 1))) (Expr.Ends (level + 1)))
    {used : List Token} {value : Expr} (spelled : Expr.Spelled level used value)
    {rest : List Token} (short : used.length < bound) (ends : Expr.Ends (level + 1) rest) :
    ∃ fuel, rest.length ≤ fuel ∧ binaryLevel operand operator? (used ++ rest) =
      binaryTail operand operator? fuel value rest := by
  have single {used : List Token} {value : Expr} {rest : List Token} (short : used.length < bound)
      (ends : Expr.Ends (level + 1) rest) (tighter : Expr.Spelled (level + 1) used value) :
      ∃ fuel, rest.length ≤ fuel ∧ binaryLevel operand operator? (used ++ rest) =
        binaryTail operand operator? fuel value rest := by
    refine ⟨rest.length, Nat.le_refl _, ?_⟩
    simp only [binaryLevel, operandTakes.ok ⟨short, tighter⟩ ends, Bind.bind, Except.bind]
  induction spelled generalizing rest with
  | @binary level op mark leftTokens rightTokens left right level_le leftSpelled rightSpelled
      reaches _ =>
      -- An operator of this level is taken by the loop, a tighter one within a single operand.
      by_cases same : op.level = level
      · subst same
        simp only [List.length_append, List.length_cons] at short
        have ended := Expr.Ends.operator op mark (rightTokens ++ rest)
        rcases reaches binary finds operandTakes (by omega) ended single with
          ⟨fuel, enough, reached⟩
        cases fuel with
        | zero => cases enough
        | succ fuel =>
            simp only [List.length_cons, List.length_append] at enough
            refine ⟨fuel, by omega, ?_⟩
            have right_eq := operandTakes.ok ⟨by omega, rightSpelled⟩ ends
            rw [List.append_assoc, List.cons_append, reached, binaryTail, Token.kind, Lexeme.kind,
              finds op rfl]
            simp only [right_eq, advance, Bind.bind, Except.bind]
      · exact single short ends (.binary (by omega) leftSpelled rightSpelled)
  | unary level_le operand => exact single short ends (.unary (by omega) operand)
  | call level_le callee separated arguments =>
      exact single short ends (.call (by omega) callee separated arguments)
  | grouping inner => exact single short ends (.grouping inner)
  | literal => exact single short ends .literal
  | identifier => exact single short ends .identifier

theorem binaryLevel_takes (binary : level < 4) (tests : TestsLevel operator? level)
    (finds : FindsLevel operator? level)
    (operandTakes : operand.Takes (Within bound (Expr.Spelled (level + 1)))
      (Expr.Ends (level + 1))) :
    (binaryLevel operand operator?).Takes (Within bound (Expr.Spelled level))
      (Expr.Ends level) where
  ok := by
    rintro used value rest ⟨short, spelled⟩ ends
    rcases binaryLevel_reaches binary finds operandTakes spelled short
      (ends.loosen (Nat.le_succ level)) with ⟨fuel, _, reached⟩
    rw [reached]
    exact binaryTail_of_ends tests ends fuel value

theorem unaryOp?_finds (op : UnaryOp) : unaryOp? (.punct op.mark) = some op := by
  cases op <;> rfl

theorem unaryLevel_takes
    (operandTakes : operand.Takes (Within bound (Expr.Spelled 5)) (Expr.Ends 5)) :
    (unaryLevel operand).Takes (Within bound (Expr.Spelled 4)) (Expr.Ends 4) where
  ok := by
    rintro used value rest ⟨short, spelled⟩ ends
    have plain {used : List Token} {value : Expr} (short : used.length < bound)
        (tighter : Expr.Spelled 5 used value) :
        unaryLevel operand (used ++ rest) = .ok (value, rest) := by
      rcases tighter.starts with ⟨token, more, rfl, _, noOp⟩
      rw [List.cons_append, unaryLevel, noOp (Nat.le_refl 5)]
      exact operandTakes.ok ⟨short, tighter⟩ (ends.loosen (Nat.le_succ 4))
    -- The level is an index of the relation: the induction runs over all levels, bound to this one.
    generalize level_eq : 4 = level at spelled
    induction spelled with
    | @binary level op =>
        have loose := op.level_lt
        omega
    | @unary level op mark tokens inner level_le innerSpelled taken =>
        have inner_eq := taken (Nat.lt_of_succ_lt short) rfl
        rw [List.cons_append, unaryLevel, Token.kind, Lexeme.kind, unaryOp?_finds]
        simp only [inner_eq, advance, Bind.bind, Except.bind]
        rfl
    | call level_le callee separated arguments =>
        exact plain short (.call (by omega) callee separated arguments)
    | grouping inner => exact plain short (.grouping inner)
    | literal => exact plain short .literal
    | identifier => exact plain short .identifier

theorem callTail_of_ends {argument : Rule Expr} {rest : List Token} (ends : Expr.Ends level rest)
    (fuel : Nat) (callee : Expr) : callTail argument fuel callee rest = .ok (callee, rest) := by
  cases fuel with
  | zero => rfl
  | succ fuel =>
      unfold callTail
      split
      · exact absurd rfl (ends _ rfl).1
      · rfl

theorem primary_takes_literal (inner : Rule Expr) (value : Literal) (span : Span)
    (rest : List Token) :
    primary inner (⟨value.lexeme, span⟩ :: rest) = .ok (.literal value span none, rest) := by
  cases value <;> rfl

/-- No piece of a list is longer than the list. -/
theorem length_le_of_separated {tokens : List Token} {pieces : List (List Token)}
    (separated : Separated tokens pieces) : ∀ piece ∈ pieces, piece.length ≤ tokens.length := by
  induction separated with
  | none => simp
  | last => simp
  | more _ ih =>
      intro piece member
      rw [List.length_append, List.length_cons]
      rcases List.mem_cons.mp member with rfl | member
      · exact Nat.le_add_right _ _
      · have short := ih piece member
        omega

theorem expression_starts (level : Nat) : StartsWith (Expr.Spelled level) expressionStart := by
  intro used value spelled
  rcases spelled.starts with ⟨token, rest, used_eq, kindMem, _⟩
  exact ⟨token, rest, used_eq, kindMem⟩

/-- The parser takes a list of arguments. -/
theorem arguments_takes {argument : Rule Expr}
    (argumentTakes : argument.Takes (Within bound (Expr.Spelled 0)) (Expr.Ends 0))
    {tokens : List Token} {arguments : List (List Token × Expr)} (short : tokens.length < bound)
    (separated : Separated tokens (arguments.map Prod.fst))
    (spelled : ∀ piece ∈ arguments, Expr.Spelled 0 piece.1 piece.2) (close : Span)
    (rest : List Token) :
    closedList argument (tokens ++ [⟨.punct .rightParen, close⟩] ++ rest) =
      .ok ((arguments.map Prod.snd, close), rest) := by
  have list : InList (Within bound (Expr.Spelled 0)) tokens (arguments.map Prod.snd) := by
    refine ⟨arguments, rfl, separated, fun piece member => ⟨?_, spelled piece member⟩⟩
    have inside := length_le_of_separated separated piece.1 (List.mem_map_of_mem member)
    omega
  have takes := closedList_takes argumentTakes (fun comma rest => .comma comma rest)
    (fun close rest => .rightParen close rest)
    (fun used value within => expression_starts 0 used value within.2) (by decide)
  exact takes.ok ⟨tokens, rfl, list⟩ trivial

/-- Behind a stretch that spells a callee, the parser has it in hand and may go on with calls. -/
theorem callLevel_reaches {inner : Rule Expr}
    (innerTakes : inner.Takes (Within bound (Expr.Spelled 0)) (Expr.Ends 0))
    {used : List Token} {value : Expr} (spelled : Expr.Spelled 5 used value)
    (short : used.length < bound + 1) (rest : List Token) :
    ∃ fuel, rest.length ≤ fuel ∧
      callLevel inner (used ++ rest) = callTail inner fuel value rest := by
  have single {used : List Token} {value : Expr} {rest : List Token}
      (read : primary inner (used ++ rest) = .ok (value, rest)) :
      ∃ fuel, rest.length ≤ fuel ∧
        callLevel inner (used ++ rest) = callTail inner fuel value rest := by
    refine ⟨rest.length, Nat.le_refl _, ?_⟩
    simp only [callLevel, read, Bind.bind, Except.bind]
  generalize level_eq : 5 = level at spelled
  induction spelled generalizing rest with
  | @binary level op =>
      have loose := op.level_lt
      omega
  | unary => omega
  | @call level opening close calleeTokens tokens callee arguments _ calleeSpelled separated
      argumentsSpelled reaches _ =>
      simp only [List.length_append, List.length_cons, List.length_nil] at short
      have taken := arguments_takes innerTakes (by omega) separated argumentsSpelled close rest
      -- The loop stands behind the callee, with the list of arguments still ahead of it.
      rcases reaches (by omega)
        (⟨.punct .leftParen, opening⟩ :: (tokens ++ [⟨.punct .rightParen, close⟩] ++ rest)) rfl with
        ⟨fuel, enough, reached⟩
      cases fuel with
      | zero => cases enough
      | succ fuel =>
          simp only [List.length_cons, List.length_append] at enough
          refine ⟨fuel, by omega, ?_⟩
          have tokens_eq : calleeTokens ++ ⟨.punct .leftParen, opening⟩ :: tokens ++
              [⟨.punct .rightParen, close⟩] ++ rest =
                calleeTokens ++ ⟨.punct .leftParen, opening⟩ ::
                  (tokens ++ [⟨.punct .rightParen, close⟩] ++ rest) := by
            simp only [List.append_assoc, List.cons_append]
          rw [tokens_eq, reached, callTail]
          simp only [taken, advance, Bind.bind, Except.bind]
  | @grouping level opening close tokens value innerSpelled =>
      apply single
      simp only [List.cons_append, List.length_append, List.length_cons] at short
      have inner_eq := innerTakes.ok ⟨by omega, innerSpelled⟩ (.rightParen close rest)
      simp only [List.cons_append, List.append_assoc, List.nil_append, primary, inner_eq, advance,
        Bind.bind, Except.bind]
      rfl
  | literal => exact single (primary_takes_literal inner _ _ rest)
  | identifier => exact single rfl

theorem callLevel_takes {inner : Rule Expr}
    (innerTakes : inner.Takes (Within bound (Expr.Spelled 0)) (Expr.Ends 0)) :
    (callLevel inner).Takes (Within (bound + 1) (Expr.Spelled 5)) (Expr.Ends 5) where
  ok := by
    rintro used value rest ⟨short, spelled⟩ ends
    rcases callLevel_reaches innerTakes spelled short rest with ⟨fuel, _, reached⟩
    rw [reached]
    exact callTail_of_ends ends fuel value

theorem levels_takes {inner : Rule Expr}
    (innerTakes : inner.Takes (Within bound (Expr.Spelled 0)) (Expr.Ends 0)) :
    (levels inner).Takes (Within (bound + 1) (Expr.Spelled 0)) (Expr.Ends 0) := by
  have unary := unaryLevel_takes (callLevel_takes innerTakes)
  have factor := binaryLevel_takes (by decide) factorOp?_tests factorOp?_finds unary
  have term := binaryLevel_takes (by decide) termOp?_tests termOp?_finds factor
  have comparison := binaryLevel_takes (by decide) comparisonOp?_tests comparisonOp?_finds term
  exact binaryLevel_takes (by decide) equalityOp?_tests equalityOp?_finds comparison

theorem expressionBelow_takes : (depth : Nat) →
    (expressionBelow depth).Takes (Within depth (Expr.Spelled 0)) (Expr.Ends 0)
  | 0 => ⟨fun within _ => absurd within.1 (Nat.not_lt_zero _)⟩
  | depth + 1 => levels_takes (expressionBelow_takes depth)

theorem expression_takes : expression.Takes (Expr.Spelled 0) (Expr.Ends 0) where
  ok := by
    intro used value rest spelled ends
    have short : used.length < (used ++ rest).length + 1 := by
      rw [List.length_append]
      omega
    exact (expressionBelow_takes _).ok ⟨short, spelled⟩ ends

end Expressions

theorem writtenType_takes : writtenType.Takes WrittenType.Spelled Always where
  ok := by
    rintro _ _ rest ⟨⟩ _
    rfl

theorem parameter_takes : parameter.Takes Parameter.Spelled Always := by
  have both := name_takes.bind (fun name => writtenType_takes.bind (fun type =>
    Takes.pure (⟨name, type, none, name.span.combine type.span⟩ : Parameter))
      fun _ _ => trivial) fun _ _ => trivial
  apply Takes.mono both
  rintro _ _ ⟨type⟩
  exact ⟨_, [_], _, rfl, rfl, _, _, [], (List.append_nil _).symm, type, rfl, rfl⟩

theorem not_mem_expressionStart_of_keyword (word : Keyword) :
    TokenKind.keyword word ∉ expressionStart := by
  cases word <;> decide

theorem semicolon_not_mem_expressionStart : TokenKind.punct .semicolon ∉ expressionStart := by
  decide

/-- A semicolon follows. -/
def AtSemicolon (rest : List Token) : Prop :=
  ∃ semicolon others, rest = ⟨.punct .semicolon, semicolon⟩ :: others

theorem initializer_takes : initializer.Takes Expr.SpelledInitializer AtSemicolon where
  ok := by
    rintro _ _ _ spelled ⟨semicolon, others, rfl⟩
    cases spelled with
    | none => rfl
    | some spelled =>
        have value_eq := expression_takes.ok spelled (.semicolon semicolon others)
        simp only [List.cons_append, initializer, value_eq, advance, Bind.bind, Except.bind]
        rfl

theorem returnValue_takes : returnValue.Takes Expr.SpelledReturn AtSemicolon where
  ok := by
    rintro _ _ _ spelled ⟨semicolon, others, rfl⟩
    cases spelled with
    | none => rfl
    | some spelled =>
        have value_eq := expression_takes.ok spelled (.semicolon semicolon others)
        unfold returnValue
        split
        · rename_i tokens_eq
          exact absurd ((expression_starts 0).kind_mem spelled tokens_eq)
            semicolon_not_mem_expressionStart
        · simp only [value_eq, Bind.bind, Except.bind]
          rfl

theorem letDecl_takes (keyword : Span) :
    (letDecl keyword).Takes
      (fun used decl => decl.Spelled (⟨.keyword .letWord, keyword⟩ :: used)) Always := by
  have parts := name_takes.bind (fun name => writtenType_takes.bind (fun type =>
    initializer_takes.bind (fun initializer => (expect_takes .semicolon).bind (fun semicolon =>
      Takes.pure (⟨name, type, initializer, none, keyword.combine semicolon⟩ : LetDecl))
        fun _ _ => trivial)
      (by rintro _ _ _ _ ⟨semicolon, _, _, rfl, rfl, rfl, rfl⟩ _; exact ⟨semicolon, _, rfl⟩))
      fun _ _ => trivial) fun _ _ => trivial
  apply Takes.mono parts
  rintro _ _ ⟨type, initializer⟩
  exact ⟨_, [_], _, rfl, rfl, _, _, _, List.append_assoc _ _ _, type, _, _, _, rfl, initializer, _,
    [_], [], rfl, rfl, rfl, rfl⟩

end Rule

theorem LetDecl.Spelled.starts {used : List Token} {decl : LetDecl} (spelled : decl.Spelled used) :
    ∃ keyword rest, used = ⟨.keyword .letWord, keyword⟩ :: rest := by
  cases spelled
  exact ⟨_, _, rfl⟩

/-- The first token is there and is no brace. -/
def StartsOffBraces (tokens : List Token) : Prop :=
  ∃ token rest, tokens = token :: rest ∧ token.kind ≠ .punct .leftBrace ∧
    token.kind ≠ .punct .rightBrace

/-- A statement is a block, with the rest of one behind its brace, or it starts with no brace. -/
theorem Stmt.Spelled.block_or {recovered : Prop} {used : List Token} {statement : Stmt}
    (spelled : Stmt.Spelled recovered used statement) :
    (∃ opening tokens result, used = ⟨.punct .leftBrace, opening⟩ :: tokens ∧
      Stmt.SpelledRest recovered tokens result ∧
      statement = .block result.1 (opening.combine result.2)) ∨ StartsOffBraces used := by
  cases spelled with
  | expression spelled =>
      rcases spelled.starts with ⟨token, rest, rfl, kindMem, _⟩
      refine .inr ⟨token, _, rfl, ?_, ?_⟩
      · intro kind_eq
        rw [kind_eq] at kindMem
        exact absurd kindMem (by decide)
      · intro kind_eq
        rw [kind_eq] at kindMem
        exact absurd kindMem (by decide)
  | letDecl spelled =>
      rcases spelled.starts with ⟨keyword, rest, rfl⟩
      exact .inr ⟨_, _, rfl, nofun, nofun⟩
  | returning => exact .inr ⟨_, _, rfl, nofun, nofun⟩
  | @block opening close tokens pieces spliced all =>
      exact .inl ⟨opening, _, (pieces.map Prod.snd, close), rfl,
        ⟨tokens, rfl, pieces, rfl, spliced, all⟩, rfl⟩

/-- Without recoveries, the rest of a block is its closing brace, or a statement and the rest. -/
theorem Stmt.SpelledRest.nil_or_cons {tokens : List Token} {result : List Stmt × Span}
    (spelled : Stmt.SpelledRest False tokens result) :
    (tokens = [⟨.punct .rightBrace, result.2⟩] ∧ result.1 = []) ∨
    ∃ front back first others, tokens = front ++ back ∧ Stmt.Spelled False front first ∧
      Stmt.SpelledRest False back (others, result.2) ∧ result.1 = first :: others := by
  rcases result with ⟨_, close⟩
  rcases spelled with ⟨_, rfl, pieces, rfl, spliced, all⟩
  rcases pieces with _ | ⟨⟨front, first⟩, others⟩
  · rcases spliced with _ | _ | ⟨⟨⟩, _⟩
    exact .inl ⟨rfl, rfl⟩
  · rcases spliced with _ | ⟨spliced⟩ | ⟨⟨⟩, _⟩
    rename_i body
    rw [List.forall_mem_cons] at all
    exact .inr ⟨front, body ++ [⟨.punct .rightBrace, close⟩], first, others.map Prod.snd,
      List.append_assoc _ _ _, all.1, ⟨body, rfl, others, rfl, spliced, all.2⟩, rfl⟩

theorem Decl.Spelled.starts_fun {recovered : Prop} {used : List Token} {decl : FunDecl}
    (spelled : Decl.Spelled recovered used (.funDecl decl)) :
    ∃ keyword rest, used = ⟨.keyword .funWord, keyword⟩ :: rest := by
  cases spelled
  exact ⟨_, _, rfl⟩

@[simp]
theorem Attempt.ofResult_andThen {Result Other : Type} (value : Result) (rest : List Token)
    (next : Result → List Token → Attempt Other) :
    (Attempt.ofResult (.ok (value, rest))).andThen next = next value rest :=
  rfl

theorem Attempt.andThen_of_ok {Result Other : Type} {attempt : Attempt Result} {value : Result}
    {rest : List Token} (read : attempt.result = .ok (value, rest))
    (next : Result → List Token → Attempt Other) :
    attempt.andThen next = (next value rest).after attempt.failures := by
  simp only [andThen, read]

namespace Rule

/-- A statement that does not start with a brace is no block. -/
theorem statement_takes :
    statement.Takes
      (fun used statement => Stmt.Spelled False used statement ∧ StartsOffBraces used) Always where
  ok := by
    rintro used result rest ⟨spelled, noBlock⟩ _
    cases spelled with
    | @expression semicolon tokens value spelled =>
        have value_eq := expression_takes.ok spelled (.semicolon semicolon rest)
        rw [List.append_assoc]
        unfold statement
        split
        · rename_i tokens_eq
          exact absurd ((expression_starts 0).kind_mem spelled tokens_eq)
            (not_mem_expressionStart_of_keyword .letWord)
        · rename_i tokens_eq
          exact absurd ((expression_starts 0).kind_mem spelled tokens_eq)
            (not_mem_expressionStart_of_keyword .returnWord)
        · simp only [List.singleton_append, value_eq, Bind.bind, Except.bind]
          rfl
    | @letDecl _ decl spelled =>
        rcases spelled.starts with ⟨keyword, tokens, rfl⟩
        have decl_eq : letDecl keyword (tokens ++ rest) = .ok (decl, rest) :=
          (letDecl_takes keyword).ok spelled trivial
        simp only [List.cons_append, statement, expect_keyword, decl_eq, Bind.bind, Except.bind]
        rfl
    | @returning keyword semicolon tokens value spelled =>
        have value_eq := returnValue_takes.ok spelled ⟨semicolon, rest, rfl⟩
        simp only [List.cons_append, List.append_assoc, List.nil_append, statement, expect_keyword,
          value_eq, Bind.bind, Except.bind]
        rfl
    | block =>
        rcases noBlock with ⟨_, _, ⟨⟩, noOpening, _⟩
        exact absurd rfl noOpening

/-- A block goes on behind a block inside it. -/
theorem blockRest_of_block {fuel : Nat} {tokens rest : List Token} {result : List Stmt × Span}
    (read : (blockRest fuel tokens).result = .ok (result, rest)) (opening : Span) :
    blockRest (fuel + 1) (⟨.punct .leftBrace, opening⟩ :: tokens) =
      ((blockRest fuel rest).map fun (others, close) =>
        (.block result.1 (opening.combine result.2) :: others, close)).after
        (blockRest fuel tokens).failures := by
  simp only [blockRest, expect_punct, Attempt.ofResult_andThen, Attempt.andThen_of_ok read]

/-- A block goes on behind a statement of it that is no block. -/
theorem blockRest_of_statement {tokens rest : List Token} {first : Stmt}
    (read : statement tokens = .ok (first, rest)) (noBlock : StartsOffBraces tokens) (fuel : Nat) :
    blockRest (fuel + 1) tokens =
      (blockRest fuel rest).map fun (others, close) => (first :: others, close) := by
  -- What is behind stays closed, else the unfolding below would open it as well.
  generalize behind_eq : blockRest fuel rest = behind
  rcases noBlock with ⟨token, others, rfl, noOpening, noClose⟩
  unfold blockRest
  split
  · rename_i tokens_eq
    cases tokens_eq
  · rename_i tokens_eq
    cases tokens_eq
    exact absurd rfl noClose
  · rename_i tokens_eq
    cases tokens_eq
    exact absurd rfl noOpening
  · simp only [read, behind_eq]

/-- The parser takes the statements of a block and its closing brace, and recovers from nothing. -/
theorem blockRest_takes {used : List Token} {result : List Stmt × Span}
    (spelled : Stmt.SpelledRest False used result) {fuel : Nat} (enough : used.length ≤ fuel)
    (rest : List Token) : blockRest fuel (used ++ rest) = .ofResult (.ok (result, rest)) := by
  -- On the fuel and not on the statements: a block inside this one uses up the same fuel.
  induction fuel generalizing used result rest with
  | zero =>
      rcases spelled with ⟨body, rfl, _⟩
      rw [List.length_append] at enough
      cases enough
  | succ fuel ih =>
      rcases result with ⟨statements, close⟩
      rcases spelled.nil_or_cons with
        ⟨rfl, rfl⟩ | ⟨front, back, first, others, rfl, firstSpelled, othersSpelled, rfl⟩
      · rfl
      rw [List.length_append] at enough
      rw [List.append_assoc]
      rcases firstSpelled.block_or with ⟨opening, inner, result, rfl, innerSpelled, rfl⟩ | noBlock
      · rw [List.length_cons] at enough
        have inner_eq := ih innerSpelled (by omega) (back ++ rest)
        have others_eq := ih othersSpelled (by omega) rest
        rw [List.cons_append, blockRest_of_block (congrArg Attempt.result inner_eq), inner_eq,
          others_eq]
        rfl
      · have first_eq : statement (front ++ (back ++ rest)) = .ok (first, back ++ rest) :=
          statement_takes.ok ⟨firstSpelled, noBlock⟩ trivial
        rcases noBlock with ⟨token, following, rfl, noBraces⟩
        rw [List.length_cons] at enough
        have others_eq := ih othersSpelled (by omega) rest
        rw [blockRest_of_statement first_eq ⟨token, following ++ (back ++ rest), rfl, noBraces⟩,
          others_eq]
        rfl

theorem parameter_starts : StartsWith Parameter.Spelled [.identifier] := by
  rintro _ _ ⟨_⟩
  exact ⟨_, _, rfl, List.mem_singleton.mpr rfl⟩

theorem funHeader_takes : funHeader.Takes FunHeaderSpelled Always := by
  have list := closedList_takes parameter_takes (fun _ _ => trivial) (fun _ _ => trivial)
    parameter_starts (by decide)
  have parts := name_takes.bind (fun name => (expect_takes .leftParen).bind (fun _ =>
    list.bind (fun list => writtenType_takes.bind (fun type =>
      (expect_takes .leftBrace).bind (fun opening =>
        Takes.pure (⟨name, list.1, type, opening⟩ : FunHeader))
        fun _ _ => trivial) fun _ _ => trivial) fun _ _ => trivial) fun _ _ => trivial)
        fun _ _ => trivial
  apply Takes.mono parts
  rintro _ ⟨name, parameters, type, opening⟩
    ⟨leftParen, rightParen, parameterTokens, typeTokens, rfl, parametersSpelled, typeSpelled⟩
  refine ⟨name, [_], _, rfl, rfl, leftParen, [_], _, rfl, rfl, (parameters, rightParen), _, _, ?_,
    ⟨parameterTokens, rfl, parametersSpelled⟩, type, typeTokens, _, rfl, typeSpelled, opening, [_],
    [], rfl, rfl, rfl, rfl⟩
  simp

/-- The tokens of a function behind its first word are those of its header and of its body. -/
theorem header_body_of_spelled {recovered : Prop} {keyword : Span} {used : List Token}
    {decl : FunDecl}
    (spelled : Decl.Spelled recovered (⟨.keyword .funWord, keyword⟩ :: used) (.funDecl decl)) :
    ∃ header result front back, used = front ++ back ∧ FunHeaderSpelled front header ∧
      Stmt.SpelledRest recovered back result ∧
      decl = ⟨header.name, header.parameters, header.returnType,
        ⟨result.1, header.opening.combine result.2⟩, none,
        keyword.combine (header.opening.combine result.2)⟩ := by
  cases spelled with
  | @funDecl _ leftParen rightParen opening close name parameterTokens typeTokens bodyTokens
      parameters type statements parametersSpelled typeSpelled body =>
      refine ⟨⟨name, parameters, type, opening⟩, (statements, close), _, _, ?_,
        ⟨leftParen, rightParen, parameterTokens, typeTokens, rfl, parametersSpelled, typeSpelled⟩,
        ⟨bodyTokens, rfl, body⟩, rfl⟩
      simp

theorem funDecl_takes (keyword : Span) {used : List Token} {decl : FunDecl}
    (spelled : Decl.Spelled False (⟨.keyword .funWord, keyword⟩ :: used) (.funDecl decl))
    (rest : List Token) : funDecl keyword (used ++ rest) = .ofResult (.ok (decl, rest)) := by
  rcases header_body_of_spelled spelled with ⟨header, result, front, back, rfl, headerSpelled,
    bodySpelled, rfl⟩
  have header_eq : funHeader (front ++ (back ++ rest)) = .ok (header, back ++ rest) :=
    funHeader_takes.ok headerSpelled trivial
  have body_eq : blockRest (back ++ rest).length (back ++ rest) = .ofResult (.ok (result, rest)) :=
    blockRest_takes bodySpelled (by simp) rest
  rw [List.append_assoc]
  simp only [funDecl, header_eq, Attempt.andThen, Attempt.ofResult]
  rw [body_eq]
  rfl

theorem declaration_takes {used : List Token} {decl : Decl} (spelled : Decl.Spelled False used decl)
    (rest : List Token) : declaration (used ++ rest) = .ofResult (.ok (decl, rest)) := by
  cases decl with
  | funDecl decl =>
      rcases spelled.starts_fun with ⟨keyword, tokens, rfl⟩
      simp only [List.cons_append, declaration, expect_keyword, Attempt.ofResult_andThen,
        funDecl_takes keyword spelled]
      rfl
  | letDecl decl =>
      cases spelled with
      | letDecl spelled =>
          rcases spelled.starts with ⟨keyword, tokens, rfl⟩
          have decl_eq : letDecl keyword (tokens ++ rest) = .ok (decl, rest) :=
            (letDecl_takes keyword).ok spelled trivial
          simp only [List.cons_append, declaration, expect_keyword, Attempt.ofResult_andThen,
            decl_eq]
          rfl

end Rule

namespace Parsed

/-- The parser gives all declarations that some tokens spell, without failures. -/
theorem declarations_eq_of_spelled {tokens : List Token} {decls : List Decl}
    (spelled : InSequence False (Decl.Spelled False) tokens decls) {fuel : Nat}
    (enough : tokens.length ≤ fuel) : declarations fuel tokens = (decls, []) := by
  rcases spelled with ⟨pieces, rfl, spliced, all⟩
  induction pieces generalizing tokens fuel with
  | nil =>
      rcases spliced with _ | _ | ⟨⟨⟩, _⟩
      cases fuel <;> rfl
  | cons piece pieces ih =>
      rcases spliced with _ | ⟨spliced⟩ | ⟨⟨⟩, _⟩
      rename_i rest
      rcases piece with ⟨used, decl⟩
      rw [List.forall_mem_cons] at all
      have decl_eq := Rule.declaration_takes all.1 rest
      have nonempty := List.length_pos_iff.mpr all.1.ne_nil
      rw [List.length_append] at enough
      cases fuel with
      | zero => omega
      | succ fuel =>
          have shorter : rest.length ≤ fuel := by omega
          have others_eq := ih shorter spliced all.2
          -- The parser asks for a first token before it tries a declaration.
          rcases List.exists_cons_of_ne_nil all.1.ne_nil with ⟨token, following, rfl⟩
          rw [List.cons_append] at decl_eq ⊢
          simp only [declarations, decl_eq, Attempt.ofResult, others_eq]
          rfl

/-- Where no error was found, the declarations that the parser gives are spelled in full. -/
theorem spelled_of_errors_eq_nil {source : SourceId} {tokens : List Token}
    (clean : (ofTokens source tokens).errors = []) :
    InSequence False (Decl.Spelled False) tokens (ofTokens source tokens).program.declarations := by
  have recovered : ¬(ofTokens source tokens).errors ≠ [] := not_not_intro clean
  exact (ofTokens_spelled source tokens).imp (fun was => recovered was)
    fun _ _ spelled => spelled.imp fun was => recovered was

/-- The parser finds no error in the tokens that spell some declarations, and only in those. -/
theorem errors_eq_nil_iff_spelled (source : SourceId) (tokens : List Token) :
    (ofTokens source tokens).errors = [] ↔
      ∃ decls, InSequence False (Decl.Spelled False) tokens decls := by
  constructor
  · intro clean
    exact ⟨_, spelled_of_errors_eq_nil clean⟩
  · rintro ⟨decls, spelled⟩
    simp [ofTokens, declarations_eq_of_spelled spelled (Nat.le_refl tokens.length)]

end Parsed

end TypedLang
