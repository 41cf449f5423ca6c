import TypedLang.Proofs.Parsing.Grammar
import TypedLang.Proofs.Parsing.Recovery

/-!
# Soundness of the parser

Whatever the parser gives is spelled by the tokens that it took, and whatever it reports blames one of
the tokens or their end. Rules are composed of smaller rules, and so is what they read: it is enough
to follow each rule once.
-/

namespace TypedLang

/--
What a failure says about the tokens that were read: it blames one of them or their end, and does
not come from a token that was taken where none was left.
-/
structure Failure.Blames (failure : Failure) (tokens : List Token) : Prop where
  suffix : failure.rest <:+ tokens
  not_pastEnd : failure.pastEnd = false

namespace Failure.Blames

theorem next (tokens : List Token) (expected : List TokenKind) :
    Failure.Blames ⟨tokens, expected, false⟩ tokens :=
  ⟨List.suffix_refl _, rfl⟩

theorem of_suffix {failure : Failure} {rest tokens : List Token} (blames : failure.Blames rest)
    (suffix : rest <:+ tokens) : failure.Blames tokens :=
  ⟨blames.suffix.trans suffix, blames.not_pastEnd⟩

end Failure.Blames

namespace Rule

variable {Result Other : Type}

/--
What a rule reads. The result is spelled by the tokens in front of the rest; a failure blames a
token that was there to be read, and no token is taken behind the last one.
-/
structure Reads (rule : Rule Result) (spelled : List Token → Result → Prop) : Prop where
  ok : ∀ {tokens : List Token} {value : Result} {rest : List Token},
    rule tokens = .ok (value, rest) → ∃ used, tokens = used ++ rest ∧ spelled used value
  error : ∀ {tokens : List Token} {failure : Failure},
    rule tokens = .error failure → failure.Blames tokens

namespace Reads

theorem mono {rule : Rule Result} {spelled others : List Token → Result → Prop}
    (reads : rule.Reads spelled) (weaken : ∀ used value, spelled used value → others used value) :
    rule.Reads others where
  ok read := by
    rcases reads.ok read with ⟨used, tokens_eq, isSpelled⟩
    exact ⟨used, tokens_eq, weaken used _ isSpelled⟩
  error := reads.error

theorem pure (value : Result) :
    Reads (fun tokens => Pure.pure (value, tokens)) fun used result => used = [] ∧ result = value where
  ok read := by
    cases read
    exact ⟨[], rfl, rfl, rfl⟩
  error failed := by cases failed

theorem reject (expected : List TokenKind) {spelled : List Token → Result → Prop} :
    Reads (Rule.reject expected) spelled where
  ok read := by cases read
  error failed := by
    cases failed
    exact .next _ _

/-- Fuel that is counted from the tokens is as good as any other. -/
theorem fueled {rule : Nat → Rule Result} {spelled : List Token → Result → Prop}
    (reads : ∀ fuel, (rule fuel).Reads spelled) :
    Reads (fun tokens => rule tokens.length tokens) spelled where
  ok read := (reads _).ok read
  error failed := (reads _).error failed

/-- A rule and the one behind it read the tokens of both. -/
theorem bind {first : Rule Result} {next : Result → Rule Other}
    {spelled : List Token → Result → Prop} {others : Result → List Token → Other → Prop}
    (firstReads : first.Reads spelled) (nextReads : ∀ value, (next value).Reads (others value)) :
    Reads
      (fun tokens => do
        let (value, rest) ← first tokens
        next value rest)
      fun used result => ∃ value front back,
        used = front ++ back ∧ spelled front value ∧ others value back result where
  ok {tokens result rest} read := by
    cases firstRead : first tokens with
    | error failure =>
        rw [firstRead] at read
        cases read
    | ok taken =>
        rcases taken with ⟨value, between⟩
        rw [firstRead] at read
        rcases firstReads.ok firstRead with ⟨front, rfl, frontSpelled⟩
        rcases (nextReads value).ok read with ⟨back, rfl, backSpelled⟩
        exact ⟨front ++ back, (List.append_assoc _ _ _).symm, value, front, back, rfl,
          frontSpelled, backSpelled⟩
  error {tokens failure} failed := by
    cases firstRead : first tokens with
    | error firstFailure =>
        rw [firstRead] at failed
        cases failed
        exact firstReads.error firstRead
    | ok taken =>
        rcases taken with ⟨value, between⟩
        rw [firstRead] at failed
        rcases firstReads.ok firstRead with ⟨front, rfl, _⟩
        exact ((nextReads value).error failed).of_suffix (List.suffix_append front between)

end Reads

theorem eq_of_kind_punct {token : Token} {mark : Punct} (kind_eq : token.kind = .punct mark) :
    token = ⟨.punct mark, token.span⟩ := by
  rcases token with ⟨lexeme, span⟩
  cases lexeme <;> simp_all [Token.kind, Lexeme.kind]

theorem eq_of_kind_keyword {token : Token} {word : Keyword} (kind_eq : token.kind = .keyword word) :
    token = ⟨.keyword word, token.span⟩ := by
  rcases token with ⟨lexeme, span⟩
  cases lexeme <;> simp_all [Token.kind, Lexeme.kind]

theorem eq_of_type? {token : Token} {type : Ty} (type_eq : token.kind.type? = some type) :
    ∃ word : TypeName, type = word.type ∧ token = ⟨.typeName word, token.span⟩ := by
  rcases token with ⟨lexeme, span⟩
  cases lexeme <;> simp_all [Token.kind, Lexeme.kind, TokenKind.type?]

theorem expect_reads (mark : Punct) :
    (expect (.punct mark)).Reads fun used span => used = [⟨.punct mark, span⟩] where
  ok {tokens span rest} read := by
    cases tokens with
    | nil => cases read
    | cons token tokens =>
        simp only [expect] at read
        split at read
        · rename_i kind_eq
          cases read
          exact ⟨[token], rfl, by rw [← eq_of_kind_punct kind_eq]⟩
        · cases read
  error {tokens failure} failed := by
    cases tokens with
    | nil =>
        cases failed
        exact .next _ _
    | cons token tokens =>
        simp only [expect] at failed
        split at failed
        · cases failed
        · cases failed
          exact .next _ _

theorem name_reads : name.Reads fun used name => used = [⟨.identifier name.key, name.span⟩] where
  ok {tokens result rest} read := by
    unfold name at read
    split at read
    · cases read
      exact ⟨_, rfl, rfl⟩
    · cases read
  error {tokens failure} failed := by
    unfold name at failed
    split at failed
    · cases failed
    · cases failed
      exact .next _ _

section Lists

variable {element : Rule Result} {spelled : List Token → Result → Prop}

/-- Items behind commas continue a list that has an item in front of the first comma. -/
theorem afterCommas_reads (elementReads : element.Reads spelled) : (fuel : Nat) →
    (afterCommas element fuel).Reads fun used items =>
      ∀ tokens item, spelled tokens item → InList spelled (tokens ++ used) (item :: items)
  | 0 =>
    (Reads.pure []).mono fun used items nothing tokens item first => by
      rcases nothing with ⟨rfl, rfl⟩
      simpa using InList.singleton first
  | fuel + 1 => by
      have rest := elementReads.bind fun first =>
        (afterCommas_reads elementReads fuel).bind fun others => Reads.pure (first :: others)
      constructor
      · intro tokens items others read
        unfold afterCommas at read
        split at read
        · rename_i comma behind
          rcases rest.ok read with ⟨used, rfl, first, front, back, rfl, firstSpelled, items', middle,
            last, rfl, follow, rfl, rfl⟩
          refine ⟨_, (List.cons_append ..).symm, ?_⟩
          intro tokens item itemSpelled
          rw [List.append_nil]
          exact (follow front first firstSpelled).cons itemSpelled
        · cases read
          exact ⟨[], rfl, fun tokens item first => by simpa using InList.singleton first⟩
      · intro tokens failure failed
        unfold afterCommas at failed
        split at failed
        · exact (rest.error failed).of_suffix (List.suffix_cons _ _)
        · cases failed

theorem closedList_reads (elementReads : element.Reads spelled) :
    (closedList element).Reads fun used list =>
      ∃ body, used = body ++ [⟨.punct .rightParen, list.2⟩] ∧ InList spelled body list.1 := by
  have items := elementReads.bind fun first =>
    (Reads.fueled (afterCommas_reads elementReads)).bind fun others =>
      (expect_reads .rightParen).bind fun close => Reads.pure (first :: others, close)
  constructor
  · intro tokens list rest read
    unfold closedList at read
    split at read
    · cases read
      exact ⟨_, rfl, [], rfl, .nil⟩
    · rcases items.ok read with ⟨used, rfl, first, front, back, rfl, firstSpelled, others, middle,
        last, rfl, follow, close, closing, nothing, rfl, rfl, rfl, rfl⟩
      refine ⟨_, rfl, front ++ middle, ?_, follow front first firstSpelled⟩
      simp only [List.append_nil, List.append_assoc]
  · intro tokens failure failed
    unfold closedList at failed
    split at failed
    · cases failed
    · exact items.error failed

end Lists

section Expressions

/-- The tests for the operators of one level, which tell the level and the mark. -/
def TestsLevel (operator? : TokenKind → Option BinaryOp) (level : Nat) : Prop :=
  ∀ kind op, operator? kind = some op → op.level = level ∧ kind = .punct op.mark

theorem equalityOp?_tests : TestsLevel equalityOp? 0 := by
  intro kind op found
  unfold equalityOp? at found
  split at found <;> cases found <;> exact ⟨rfl, rfl⟩

theorem comparisonOp?_tests : TestsLevel comparisonOp? 1 := by
  intro kind op found
  unfold comparisonOp? at found
  split at found <;> cases found <;> exact ⟨rfl, rfl⟩

theorem termOp?_tests : TestsLevel termOp? 2 := by
  intro kind op found
  unfold termOp? at found
  split at found <;> cases found <;> exact ⟨rfl, rfl⟩

theorem factorOp?_tests : TestsLevel factorOp? 3 := by
  intro kind op found
  unfold factorOp? at found
  split at found <;> cases found <;> exact ⟨rfl, rfl⟩

theorem unaryOp?_mark {kind : TokenKind} {op : UnaryOp} (found : unaryOp? kind = some op) :
    kind = .punct op.mark := by
  unfold unaryOp? at found
  split at found <;> cases found <;> rfl

variable {operand : Rule Expr} {operator? : TokenKind → Option BinaryOp} {level : Nat}

/-- The tail of a chain continues every expression of the level of its operators. -/
theorem binaryTail_reads (tests : TestsLevel operator? level)
    (operandReads : operand.Reads (Expr.Spelled (level + 1))) : (fuel : Nat) → (left : Expr) →
      (binaryTail operand operator? fuel left).Reads fun used value =>
        ∀ tokens, Expr.Spelled level tokens left → Expr.Spelled level (tokens ++ used) value
  | 0, left =>
    (Reads.pure left).mono fun used value nothing tokens leftSpelled => by
      rcases nothing with ⟨rfl, rfl⟩
      simpa using leftSpelled
  | fuel + 1, left => by
      have rest := fun op : BinaryOp => operandReads.bind fun right =>
        binaryTail_reads tests operandReads fuel
          (.binary op left right (left.span.combine right.span) none)
      constructor
      · intro tokens value behind read
        cases tokens with
        | nil =>
            cases read
            exact ⟨[], rfl, fun tokens leftSpelled => by simpa using leftSpelled⟩
        | cons token following =>
            simp only [binaryTail] at read
            split at read
            · cases read
              exact ⟨[], rfl, fun tokens leftSpelled => by simpa using leftSpelled⟩
            · rename_i op found
              rcases tests _ op found with ⟨rfl, kind_eq⟩
              rcases (rest op).ok read with
                ⟨used, rfl, right, front, back, rfl, rightSpelled, follow⟩
              refine ⟨token :: (front ++ back), rfl, ?_⟩
              intro tokens leftSpelled
              have joined : Expr.Spelled op.level (tokens ++ token :: front)
                  (.binary op left right (left.span.combine right.span) none) := by
                rw [eq_of_kind_punct kind_eq]
                exact .binary (Nat.le_refl _) leftSpelled rightSpelled
              simpa using follow _ joined
      · intro tokens failure failed
        cases tokens with
        | nil => cases failed
        | cons token following =>
            simp only [binaryTail] at failed
            split at failed
            · cases failed
            · exact ((rest _).error failed).of_suffix (List.suffix_cons _ _)

theorem binaryLevel_reads (tests : TestsLevel operator? level)
    (operandReads : operand.Reads (Expr.Spelled (level + 1))) :
    (binaryLevel operand operator?).Reads (Expr.Spelled level) := by
  have chain := operandReads.bind fun first =>
    Reads.fueled fun fuel => binaryTail_reads tests operandReads fuel first
  apply Reads.mono chain
  rintro used value ⟨first, front, back, rfl, firstSpelled, follow⟩
  exact follow front (firstSpelled.loosen (Nat.le_succ level))

theorem unaryLevel_reads (operandReads : operand.Reads (Expr.Spelled 5)) :
    (unaryLevel operand).Reads (Expr.Spelled 4) where
  ok {tokens value rest} read := by
    have plain := operandReads.mono fun used value spelled => spelled.loosen (Nat.le_succ 4)
    induction tokens generalizing value rest with
    | nil => exact plain.ok read
    | cons token tokens ih =>
        simp only [unaryLevel] at read
        split at read
        · exact plain.ok read
        · rename_i op found
          cases innerRead : unaryLevel operand tokens with
          | error failure =>
              rw [innerRead] at read
              cases read
          | ok taken =>
              rw [innerRead] at read
              cases read
              rcases ih innerRead with ⟨used, rfl, operandSpelled⟩
              refine ⟨token :: used, rfl, ?_⟩
              rw [eq_of_kind_punct (unaryOp?_mark found)]
              exact .unary (Nat.le_refl 4) operandSpelled
  error {tokens failure} failed := by
    induction tokens with
    | nil => exact operandReads.error failed
    | cons token tokens ih =>
        simp only [unaryLevel] at failed
        split at failed
        · exact operandReads.error failed
        · cases innerRead : unaryLevel operand tokens with
          | error inner =>
              rw [innerRead] at failed
              cases failed
              exact (ih innerRead).of_suffix (List.suffix_cons token tokens)
          | ok taken =>
              rw [innerRead] at failed
              cases failed

/-- Calls continue every expression that may be a callee. -/
theorem callTail_reads {argument : Rule Expr} (argumentReads : argument.Reads (Expr.Spelled 0)) :
    (fuel : Nat) → (callee : Expr) →
      (callTail argument fuel callee).Reads fun used value =>
        ∀ tokens, Expr.Spelled 5 tokens callee → Expr.Spelled 5 (tokens ++ used) value
  | 0, callee =>
    (Reads.pure callee).mono fun used value nothing tokens calleeSpelled => by
      rcases nothing with ⟨rfl, rfl⟩
      simpa using calleeSpelled
  | fuel + 1, callee => by
      have rest := (closedList_reads argumentReads).bind fun list =>
        callTail_reads argumentReads fuel
          (.call callee list.1 (callee.span.combine list.2) none)
      constructor
      · intro tokens value behind read
        unfold callTail at read
        split at read
        · rename_i opening following
          rcases rest.ok read with ⟨used, rfl, ⟨arguments, close⟩, front, back, rfl,
            ⟨body, rfl, pieces, rfl, separated, all⟩, follow⟩
          refine ⟨_, (List.cons_append ..).symm, ?_⟩
          intro tokens calleeSpelled
          simpa using follow _ (.call (Nat.le_refl 5) calleeSpelled separated all)
        · cases read
          exact ⟨[], rfl, fun tokens calleeSpelled => by simpa using calleeSpelled⟩
      · intro tokens failure failed
        unfold callTail at failed
        split at failed
        · exact (rest.error failed).of_suffix (List.suffix_cons _ _)
        · cases failed

theorem primary_reads {inner : Rule Expr} (innerReads : inner.Reads (Expr.Spelled 0)) :
    (primary inner).Reads (Expr.Spelled 5) := by
  have parenthesis := fun opening : Span => innerReads.bind fun value =>
    (expect_reads .rightParen).bind fun close =>
      Reads.pure (Expr.grouping value (opening.combine close) none)
  constructor
  · intro tokens value rest read
    unfold primary at read
    split at read
    · cases read
      exact ⟨_, rfl, .literal⟩
    · cases read
      exact ⟨_, rfl, .literal⟩
    · cases read
      exact ⟨_, rfl, .literal⟩
    · cases read
      exact ⟨_, rfl, .literal⟩
    · cases read
      exact ⟨_, rfl, .identifier⟩
    · rcases (parenthesis _).ok read with ⟨used, rfl, inner, front, back, rfl, innerSpelled, close,
        closing, nothing, rfl, rfl, rfl, rfl⟩
      exact ⟨_, (List.cons_append ..).symm, .grouping innerSpelled⟩
    · cases read
  · intro tokens failure failed
    unfold primary at failed
    split at failed
    all_goals first
      | exact ((parenthesis _).error failed).of_suffix (List.suffix_cons _ _)
      | cases failed
    exact .next _ _

theorem callLevel_reads {inner : Rule Expr} (innerReads : inner.Reads (Expr.Spelled 0)) :
    (callLevel inner).Reads (Expr.Spelled 5) := by
  have calls := (primary_reads innerReads).bind fun callee =>
    Reads.fueled fun fuel => callTail_reads innerReads fuel callee
  apply Reads.mono calls
  rintro used value ⟨callee, front, back, rfl, calleeSpelled, follow⟩
  exact follow front calleeSpelled

theorem levels_reads {inner : Rule Expr} (innerReads : inner.Reads (Expr.Spelled 0)) :
    (levels inner).Reads (Expr.Spelled 0) := by
  have unary := unaryLevel_reads (callLevel_reads innerReads)
  have factor := binaryLevel_reads factorOp?_tests unary
  have term := binaryLevel_reads termOp?_tests factor
  have comparison := binaryLevel_reads comparisonOp?_tests term
  exact binaryLevel_reads equalityOp?_tests comparison

theorem expressionBelow_reads : (depth : Nat) → (expressionBelow depth).Reads (Expr.Spelled 0)
  | 0 => .reject expressionStart
  | depth + 1 => levels_reads (expressionBelow_reads depth)

theorem expression_reads : expression.Reads (Expr.Spelled 0) :=
  Reads.fueled fun fuel => expressionBelow_reads (fuel + 1)

end Expressions

theorem writtenType_reads : writtenType.Reads WrittenType.Spelled where
  ok {tokens type rest} read := by
    unfold writtenType at read
    cases signRead : expect (.punct .atSign) tokens with
    | error failure =>
        rw [signRead] at read
        cases read
    | ok taken =>
        rcases taken with ⟨sign, between⟩
        rcases (expect_reads .atSign).ok signRead with ⟨used, rfl, rfl⟩
        rw [signRead] at read
        cases between with
        | nil => cases read
        | cons token behind =>
            simp only [Bind.bind, Except.bind] at read
            split at read
            · cases read
            · rename_i type found
              cases read
              rcases eq_of_type? found with ⟨word, rfl, token_eq⟩
              exact ⟨[⟨.punct .atSign, sign⟩, token], rfl, token_eq ▸ .intro⟩
  error {tokens failure} failed := by
    unfold writtenType at failed
    cases signRead : expect (.punct .atSign) tokens with
    | error inner =>
        rw [signRead] at failed
        cases failed
        exact (expect_reads .atSign).error signRead
    | ok taken =>
        rcases taken with ⟨sign, between⟩
        rcases (expect_reads .atSign).ok signRead with ⟨used, rfl, rfl⟩
        rw [signRead] at failed
        cases between with
        | nil =>
            cases failed
            exact (Failure.Blames.next [] _).of_suffix List.nil_suffix
        | cons token behind =>
            simp only [Bind.bind, Except.bind] at failed
            split at failed
            · cases failed
              exact (Failure.Blames.next _ _).of_suffix (List.suffix_append _ _)
            · cases failed

theorem parameter_reads : parameter.Reads Parameter.Spelled := by
  have both := name_reads.bind fun name => writtenType_reads.bind fun type =>
    Reads.pure (⟨name, type, none, name.span.combine type.span⟩ : Parameter)
  apply Reads.mono both
  rintro used parameter ⟨name, front, back, rfl, rfl, type, typeTokens, last, rfl, typeSpelled, rfl,
    rfl⟩
  simpa using Parameter.Spelled.intro typeSpelled

theorem initializer_reads : initializer.Reads Expr.SpelledInitializer := by
  have value := expression_reads.bind fun value => Reads.pure (some value)
  constructor
  · intro tokens result rest read
    unfold initializer at read
    split at read
    · rcases value.ok read with ⟨used, rfl, value, front, back, rfl, valueSpelled, rfl, rfl⟩
      refine ⟨_, (List.cons_append ..).symm, ?_⟩
      simpa using Expr.SpelledInitializer.some valueSpelled
    · cases read
      exact ⟨[], rfl, .none⟩
  · intro tokens failure failed
    unfold initializer at failed
    split at failed
    · exact (value.error failed).of_suffix (List.suffix_cons _ _)
    · cases failed

theorem letDecl_reads (keyword : Span) :
    (letDecl keyword).Reads fun used decl =>
      decl.Spelled (⟨.keyword .letWord, keyword⟩ :: used) := by
  have parts := name_reads.bind fun name => writtenType_reads.bind fun type =>
    initializer_reads.bind fun initializer => (expect_reads .semicolon).bind fun semicolon =>
      Reads.pure (⟨name, type, initializer, none, keyword.combine semicolon⟩ : LetDecl)
  apply Reads.mono parts
  rintro used decl ⟨name, front, back, rfl, rfl, type, typeTokens, last, rfl, typeSpelled,
    initializer, tokens, semicolonTokens, rfl, initializerSpelled, semicolon, closing, nothing, rfl,
    rfl, rfl, rfl⟩
  simpa using LetDecl.Spelled.intro typeSpelled initializerSpelled

theorem returnValue_reads : returnValue.Reads Expr.SpelledReturn := by
  have value := expression_reads.bind fun value => Reads.pure (some value)
  constructor
  · intro tokens result rest read
    unfold returnValue at read
    split at read
    · cases read
      exact ⟨[], rfl, .none⟩
    · rcases value.ok read with ⟨used, rfl, value, front, back, rfl, valueSpelled, rfl, rfl⟩
      refine ⟨_, rfl, ?_⟩
      simpa using Expr.SpelledReturn.some valueSpelled
  · intro tokens failure failed
    unfold returnValue at failed
    split at failed
    · cases failed
    · exact value.error failed

theorem statement_reads (recovered : Prop) : statement.Reads (Stmt.Spelled recovered) := by
  have declaring := fun keyword => (letDecl_reads keyword).bind fun decl =>
    Reads.pure (Stmt.letDecl decl)
  have returning := fun keyword : Span => returnValue_reads.bind fun value =>
    (expect_reads .semicolon).bind fun semicolon =>
      Reads.pure (Stmt.returning value (keyword.combine semicolon))
  have value := expression_reads.bind fun value => (expect_reads .semicolon).bind fun semicolon =>
    Reads.pure (Stmt.expression value (value.span.combine semicolon))
  constructor
  · intro tokens result rest read
    unfold statement at read
    split at read
    · rcases (declaring _).ok read with ⟨used, rfl, decl, front, back, rfl, declSpelled, rfl, rfl⟩
      refine ⟨_, (List.cons_append ..).symm, ?_⟩
      simpa using Stmt.Spelled.letDecl declSpelled
    · rcases (returning _).ok read with ⟨used, rfl, value, front, back, rfl, valueSpelled, semicolon,
        closing, nothing, rfl, rfl, rfl, rfl⟩
      refine ⟨_, (List.cons_append ..).symm, ?_⟩
      simpa using Stmt.Spelled.returning valueSpelled
    · rcases value.ok read with ⟨used, rfl, value, front, back, rfl, valueSpelled, semicolon,
        closing, nothing, rfl, rfl, rfl, rfl⟩
      refine ⟨_, rfl, ?_⟩
      simpa using Stmt.Spelled.expression valueSpelled
  · intro tokens failure failed
    unfold statement at failed
    split at failed
    · exact ((declaring _).error failed).of_suffix (List.suffix_cons _ _)
    · exact ((returning _).error failed).of_suffix (List.suffix_cons _ _)
    · exact value.error failed

end Rule

namespace Recovery

theorem inBlock_suffix (progressed : Bool) (depth : Nat) (tokens : List Token) :
    inBlock progressed depth tokens <:+ tokens :=
  (inBlock_runs progressed depth tokens).suffix

theorem inProgram_suffix (progressed : Bool) (depth : Nat) (tokens : List Token) :
    inProgram progressed depth tokens <:+ tokens :=
  (inProgram_runs progressed depth tokens).suffix

/-- Without progress before it, a recovery drops at least one token. -/
theorem inProgram_suffix_of_stuck (depth : Nat) (token : Token) (rest : List Token) :
    inProgram false depth (token :: rest) <:+ rest := by
  rcases (inProgram_runs false depth (token :: rest)).drops_or_stops with
    drops | ⟨_, progressed, _⟩
  · exact drops
  · cases progressed

theorem length_inProgram_lt {tokens rest : List Token} (suffix : rest <:+ tokens)
    (nonempty : rest ≠ []) :
    (inProgram (decide (rest.length < tokens.length)) 0 rest).length < tokens.length := by
  have rest_le := suffix.length_le
  by_cases shorter : rest.length < tokens.length
  · have kept := (inProgram_suffix (decide (rest.length < tokens.length)) 0 rest).length_le
    omega
  · cases rest with
    | nil => exact absurd rfl nonempty
    | cons token rest =>
        have kept := (inProgram_suffix_of_stuck 0 token rest).length_le
        rw [decide_eq_false shorter]
        rw [List.length_cons] at rest_le
        omega

end Recovery

/-- What an attempt reads, told whether there was a recovery on the way. -/
structure Attempt.Reads {Result : Type} (attempt : Attempt Result) (tokens : List Token)
    (spelled : Prop → List Token → Result → Prop) : Prop where
  ok : ∀ {value : Result} {rest : List Token}, attempt.result = .ok (value, rest) →
    ∃ used, tokens = used ++ rest ∧ spelled (attempt.failures ≠ []) used value
  error : ∀ {failure : Failure}, attempt.result = .error failure → failure.Blames tokens
  recovered : ∀ failure ∈ attempt.failures, failure.Blames tokens

namespace Attempt.Reads

variable {Result Other : Type} {attempt : Attempt Result} {tokens : List Token}
  {spelled : Prop → List Token → Result → Prop}

theorem ofResult {rule : Rule Result} {spelled : Prop → List Token → Result → Prop}
    (reads : ∀ recovered, rule.Reads (spelled recovered)) :
    (Attempt.ofResult (rule tokens)).Reads tokens spelled where
  ok read := (reads _).ok read
  error failed := (reads True).error failed
  recovered := List.forall_mem_nil _

theorem map (convert : Result → Other) (reads : attempt.Reads tokens spelled) :
    (attempt.map convert).Reads tokens fun recovered used result =>
      ∃ value, spelled recovered used value ∧ result = convert value where
  ok {value rest} read := by
    cases result_eq : attempt.result with
    | error failure => simp [Attempt.map, result_eq, Except.map] at read
    | ok taken =>
        simp only [Attempt.map, result_eq, Except.map] at read
        cases read
        rcases reads.ok result_eq with ⟨used, tokens_eq, isSpelled⟩
        exact ⟨used, tokens_eq, _, isSpelled, rfl⟩
  error {failure} failed := by
    cases result_eq : attempt.result with
    | error inner =>
        simp only [Attempt.map, result_eq, Except.map] at failed
        cases failed
        exact reads.error result_eq
    | ok taken => simp [Attempt.map, result_eq, Except.map] at failed
  recovered := reads.recovered

theorem andThen {next : Result → List Token → Attempt Other}
    {others : Result → Prop → List Token → Other → Prop}
    (reads : attempt.Reads tokens spelled)
    (nextReads : ∀ value rest, (next value rest).Reads rest (others value))
    (weaken : ∀ {was is : Prop} {used value}, (was → is) →
      spelled was used value → spelled is used value)
    (weakenOthers : ∀ {was is : Prop} {used first value}, (was → is) →
      others first was used value → others first is used value) :
    (attempt.andThen next).Reads tokens fun recovered used result => ∃ value front back,
      used = front ++ back ∧ spelled recovered front value ∧ others value recovered back result where
  ok {result rest} read := by
    cases result_eq : attempt.result with
    | error failure => simp [Attempt.andThen, result_eq] at read
    | ok taken =>
        rcases taken with ⟨value, between⟩
        simp only [Attempt.andThen, result_eq, Attempt.after] at read ⊢
        rcases reads.ok result_eq with ⟨front, rfl, frontSpelled⟩
        rcases (nextReads value between).ok read with ⟨back, rfl, backSpelled⟩
        refine ⟨front ++ back, (List.append_assoc _ _ _).symm, value, front, back, rfl, ?_, ?_⟩
        · refine weaken ?_ frontSpelled
          simp +contextual
        · refine weakenOthers ?_ backSpelled
          simp +contextual
  error {failure} failed := by
    cases result_eq : attempt.result with
    | error inner =>
        simp only [Attempt.andThen, result_eq] at failed
        cases failed
        exact reads.error result_eq
    | ok taken =>
        rcases taken with ⟨value, between⟩
        simp only [Attempt.andThen, result_eq, Attempt.after] at failed
        rcases reads.ok result_eq with ⟨front, rfl, _⟩
        exact ((nextReads value between).error failed).of_suffix (List.suffix_append front between)
  recovered := by
    cases result_eq : attempt.result with
    | error inner =>
        simp only [Attempt.andThen, result_eq]
        exact reads.recovered
    | ok taken =>
        rcases taken with ⟨value, between⟩
        rcases reads.ok result_eq with ⟨front, rfl, _⟩
        simp only [Attempt.andThen, result_eq, Attempt.after, List.forall_mem_append]
        refine ⟨reads.recovered, fun failure member => ?_⟩
        exact ((nextReads value between).recovered failure member).of_suffix
          (List.suffix_append front between)

/-- An attempt behind some tokens that were taken already. -/
theorem behind (taken : List Token) {others : Prop → List Token → Result → Prop}
    (reads : attempt.Reads tokens spelled)
    (extended : ∀ recovered used value, spelled recovered used value →
      others recovered (taken ++ used) value) : attempt.Reads (taken ++ tokens) others where
  ok read := by
    rcases reads.ok read with ⟨used, rfl, isSpelled⟩
    exact ⟨taken ++ used, (List.append_assoc _ _ _).symm, extended _ _ _ isSpelled⟩
  error failed := (reads.error failed).of_suffix (List.suffix_append taken tokens)
  recovered failure member :=
    (reads.recovered failure member).of_suffix (List.suffix_append taken tokens)

/-- An attempt behind tokens that were skipped after a failure. -/
theorem afterFailure {failure : Failure} {tokens rest : List Token}
    {others : Prop → List Token → Result → Prop} (blames : failure.Blames tokens)
    (suffix : rest <:+ tokens) (reads : attempt.Reads rest spelled)
    (skipped : ∀ recovered skipped used value, spelled recovered used value →
      others True (skipped ++ used) value)
    (weaken : ∀ {was is : Prop} {used value}, (was → is) →
      others was used value → others is used value) :
    (attempt.after [failure]).Reads tokens others where
  ok {value behind} read := by
    rcases suffix with ⟨dropped, rfl⟩
    rcases reads.ok read with ⟨used, rfl, isSpelled⟩
    refine ⟨dropped ++ used, (List.append_assoc _ _ _).symm, ?_⟩
    refine weaken ?_ (skipped _ dropped used value isSpelled)
    simp [Attempt.after]
  error failed := (reads.error failed).of_suffix suffix
  recovered := by
    simp only [Attempt.after, List.cons_append, List.nil_append, List.forall_mem_cons]
    exact ⟨blames, fun failure member => (reads.recovered failure member).of_suffix suffix⟩

end Attempt.Reads

/-- The statements of a block and its closing brace. -/
def Stmt.SpelledRest (recovered : Prop) (tokens : List Token) (result : List Stmt × Span) : Prop :=
  ∃ body, tokens = body ++ [⟨.punct .rightBrace, result.2⟩] ∧
    InSequence recovered (Stmt.Spelled recovered) body result.1

namespace Stmt.SpelledRest

variable {recovered : Prop} {tokens rest : List Token} {statement : Stmt}
  {result : List Stmt × Span}

theorem imp {more : Prop} (spelled : Stmt.SpelledRest recovered tokens result)
    (weaken : recovered → more) : Stmt.SpelledRest more tokens result := by
  rcases spelled with ⟨body, tokens_eq, sequence⟩
  exact ⟨body, tokens_eq, sequence.imp weaken fun _ _ statement => statement.imp weaken⟩

theorem cons (first : Stmt.Spelled recovered tokens statement)
    (spelled : Stmt.SpelledRest recovered rest result) :
    Stmt.SpelledRest recovered (tokens ++ rest) (statement :: result.1, result.2) := by
  rcases spelled with ⟨body, rfl, sequence⟩
  exact ⟨tokens ++ body, (List.append_assoc _ _ _).symm, sequence.cons first⟩

theorem skip (was : recovered) (spelled : Stmt.SpelledRest recovered rest result) :
    Stmt.SpelledRest recovered (tokens ++ rest) result := by
  rcases spelled with ⟨body, rfl, sequence⟩
  exact ⟨tokens ++ body, (List.append_assoc _ _ _).symm, sequence.skip was⟩

/-- The rest of a block behind its opening brace makes a statement. -/
theorem block {opening : Span} (spelled : Stmt.SpelledRest recovered tokens result) :
    Stmt.Spelled recovered (⟨.punct .leftBrace, opening⟩ :: tokens)
      (.block result.1 (opening.combine result.2)) := by
  rcases result with ⟨statements, close⟩
  rcases spelled with ⟨body, rfl, pieces, rfl, spliced, all⟩
  exact .block spliced all

end Stmt.SpelledRest

namespace Rule

theorem blockRest_reads : (fuel : Nat) → (tokens : List Token) →
    (blockRest fuel tokens).Reads tokens Stmt.SpelledRest
  | 0, tokens => .ofResult fun recovered => .reject [.punct .rightBrace]
  | fuel + 1, tokens => by
      unfold blockRest
      split
      · exact .ofResult fun recovered => .reject [.punct .rightBrace]
      · rename_i close rest
        constructor
        · intro result behind read
          cases read
          exact ⟨[⟨.punct .rightBrace, close⟩], rfl, [], rfl, .nil⟩
        · intro failure failed
          cases failed
        · exact List.forall_mem_nil _
      · rename_i opening rest
        have others := fun (first : List Stmt × Span) behind =>
          (blockRest_reads fuel behind).map fun others =>
            (Stmt.block first.1 (opening.combine first.2) :: others.1, others.2)
        have both := (blockRest_reads fuel rest).andThen others
          (fun weaken spelled => spelled.imp weaken) (by
            rintro was is used first result weaken ⟨others, spelled, result_eq⟩
            exact ⟨others, spelled.imp weaken, result_eq⟩)
        apply both.behind [⟨.punct .leftBrace, opening⟩]
        rintro recovered used result ⟨first, front, back, rfl, firstSpelled, others, spelled, rfl⟩
        rw [← List.append_assoc]
        exact spelled.cons firstSpelled.block
      · split
        · rename_i first rest read
          rcases (statement_reads False).ok read with ⟨front, rfl, firstSpelled⟩
          apply Attempt.Reads.behind front ((blockRest_reads fuel rest).map _)
          rintro recovered used result ⟨others, spelled, rfl⟩
          exact spelled.cons (firstSpelled.imp False.elim)
        · rename_i failure failed
          have blames := (statement_reads False).error failed
          split
          · constructor
            · intro result rest read
              cases read
            · intro inner innerFailed
              cases innerFailed
              exact blames
            · exact List.forall_mem_nil _
          · exact .afterFailure blames ((Recovery.inBlock_suffix _ _ _).trans blames.suffix)
              (blockRest_reads fuel _)
              (fun recovered skipped used result spelled =>
                (spelled.imp fun _ => trivial).skip trivial)
              (fun weaken spelled => spelled.imp weaken)

/-- The tokens of a function between its first word and its body. -/
def FunHeaderSpelled (tokens : List Token) (header : FunHeader) : Prop :=
  ∃ leftParen rightParen parameterTokens typeTokens,
    tokens = ⟨.identifier header.name.key, header.name.span⟩ :: ⟨.punct .leftParen, leftParen⟩ ::
      (parameterTokens ++ ⟨.punct .rightParen, rightParen⟩ ::
        (typeTokens ++ [⟨.punct .leftBrace, header.opening⟩])) ∧
    InList Parameter.Spelled parameterTokens header.parameters ∧
    header.returnType.Spelled typeTokens

theorem funHeader_reads : funHeader.Reads FunHeaderSpelled := by
  have parts := name_reads.bind fun name => (expect_reads .leftParen).bind fun _ =>
    (closedList_reads parameter_reads).bind fun list => writtenType_reads.bind fun type =>
      (expect_reads .leftBrace).bind fun opening =>
        Reads.pure (⟨name, list.1, type, opening⟩ : FunHeader)
  apply Reads.mono parts
  rintro used header ⟨name, _, _, rfl, rfl, leftParen, _, _, rfl, rfl, ⟨parameters, rightParen⟩, _, _,
    rfl, ⟨parameterTokens, rfl, parametersSpelled⟩, type, typeTokens, _, rfl, typeSpelled, opening, _,
    _, rfl, rfl, rfl, rfl⟩
  exact ⟨leftParen, rightParen, parameterTokens, typeTokens, by simp, parametersSpelled, typeSpelled⟩

theorem funDecl_reads (keyword : Span) (tokens : List Token) :
    (funDecl keyword tokens).Reads tokens fun recovered used decl =>
      Decl.Spelled recovered (⟨.keyword .funWord, keyword⟩ :: used) (.funDecl decl) := by
  have header : (Attempt.ofResult (funHeader tokens)).Reads tokens
      fun _ used header => FunHeaderSpelled used header := .ofResult fun _ => funHeader_reads
  have body := fun (header : FunHeader) (rest : List Token) =>
    (blockRest_reads rest.length rest).map fun result =>
      (⟨header.name, header.parameters, header.returnType,
        ⟨result.1, header.opening.combine result.2⟩, none,
        keyword.combine (header.opening.combine result.2)⟩ : FunDecl)
  have both := header.andThen body (fun _ spelled => spelled) (by
    rintro was is used header decl weaken ⟨result, spelled, decl_eq⟩
    exact ⟨result, spelled.imp weaken, decl_eq⟩)
  apply both.behind []
  rintro recovered used decl ⟨header, front, back, rfl,
    ⟨leftParen, rightParen, parameterTokens, typeTokens, rfl, parameters, type⟩,
    ⟨statements, close⟩, ⟨bodyTokens, rfl, body⟩, rfl⟩
  simpa using Decl.Spelled.funDecl parameters type body

theorem declaration_reads (tokens : List Token) :
    (declaration tokens).Reads tokens fun recovered used decl => Decl.Spelled recovered used decl := by
  unfold declaration
  split
  · rename_i keyword rest
    apply ((funDecl_reads keyword rest).map Decl.funDecl).behind [⟨.keyword .funWord, keyword⟩]
    rintro recovered used decl ⟨function, spelled, rfl⟩
    exact spelled
  · rename_i keyword rest
    have read : (Attempt.ofResult (letDecl keyword rest)).Reads rest fun _ used decl =>
        decl.Spelled (⟨.keyword .letWord, keyword⟩ :: used) := .ofResult fun _ => letDecl_reads keyword
    apply (read.map Decl.letDecl).behind [⟨.keyword .letWord, keyword⟩]
    rintro recovered used decl ⟨declared, spelled, rfl⟩
    exact .letDecl spelled
  · exact .ofResult fun _ => .reject _

end Rule

namespace Parsed

/-- The declarations that the parser gives are spelled by the tokens, up to recoveries. -/
theorem declarations_spelled : (fuel : Nat) → (tokens : List Token) → tokens.length ≤ fuel →
    InSequence ((declarations fuel tokens).2 ≠ [])
      (Decl.Spelled ((declarations fuel tokens).2 ≠ [])) tokens (declarations fuel tokens).1
  | 0, tokens, enough => by
      have nothing : tokens = [] := List.length_eq_zero_iff.mp (Nat.le_zero.mp enough)
      subst nothing
      exact .nil
  | fuel + 1, [], _ => .nil
  | fuel + 1, token :: rest, enough => by
      rcases Rule.declaration_reads (token :: rest) with ⟨reads, blames, _⟩
      simp only [declarations]
      generalize (Rule.declaration (token :: rest)).failures = failures at reads ⊢
      cases result_eq : (Rule.declaration (token :: rest)).result with
      | ok taken =>
          rcases taken with ⟨first, behind⟩
          rcases reads result_eq with ⟨used, tokens_eq, firstSpelled⟩
          have shorter : behind.length ≤ fuel := by
            have lengths := congrArg List.length tokens_eq
            have nonempty := List.length_pos_iff.mpr firstSpelled.ne_nil
            simp only [List.length_cons, List.length_append] at lengths enough
            omega
          simp only [tokens_eq]
          refine .cons (firstSpelled.imp ?_)
            ((declarations_spelled fuel behind shorter).imp ?_ fun _ _ spelled => spelled.imp ?_)
          all_goals simp +contextual
      | error failure =>
          simp only
          split
          · rw [← List.append_nil (token :: rest)]
            exact .skip (by simp) .nil
          · rename_i notFatal
            -- A recovery that follows no progress drops a token, so the fuel is enough here too.
            have nonempty : failure.rest ≠ [] := by simpa [Failure.isFatal] using notFatal
            have shorter := Recovery.length_inProgram_lt (blames result_eq).suffix nonempty
            rcases (Recovery.inProgram_suffix _ 0 _).trans (blames result_eq).suffix with
              ⟨skipped, tokens_eq⟩
            rw [← tokens_eq]
            refine .skip (by simp)
              ((declarations_spelled fuel _ ?_).imp ?_ fun _ _ spelled => spelled.imp ?_)
            · simp only [List.length_cons] at shorter enough
              omega
            all_goals simp +contextual

/-- Every failure on the way blames one of the tokens or their end. -/
theorem declarations_blame : (fuel : Nat) → (tokens : List Token) →
    ∀ failure ∈ (declarations fuel tokens).2, failure.Blames tokens
  | 0, _ => List.forall_mem_nil _
  | fuel + 1, [] => List.forall_mem_nil _
  | fuel + 1, token :: rest => by
      rcases Rule.declaration_reads (token :: rest) with ⟨reads, blames, recovered⟩
      simp only [declarations]
      split
      · rename_i first behind result_eq
        rcases reads result_eq with ⟨used, tokens_eq, _⟩
        rw [List.forall_mem_append]
        refine ⟨recovered, fun failure member => ?_⟩
        rw [tokens_eq]
        exact (declarations_blame fuel behind failure member).of_suffix
          (List.suffix_append used behind)
      · rename_i failure result_eq
        have failed := blames result_eq
        split
        · rw [List.forall_mem_append, List.forall_mem_singleton]
          exact ⟨recovered, failed⟩
        · rw [List.forall_mem_append, List.forall_mem_cons]
          refine ⟨recovered, failed, fun inner member => ?_⟩
          exact (declarations_blame fuel _ inner member).of_suffix
            ((Recovery.inProgram_suffix _ 0 _).trans failed.suffix)

/-- All that the parser gives is spelled by the tokens; without errors, nothing was skipped. -/
theorem ofTokens_spelled (source : SourceId) (tokens : List Token) :
    InSequence ((ofTokens source tokens).errors ≠ [])
      (Decl.Spelled ((ofTokens source tokens).errors ≠ [])) tokens
      (ofTokens source tokens).program.declarations := by
  have errors_iff : (ofTokens source tokens).errors ≠ [] ↔
      (declarations tokens.length tokens).2 ≠ [] := by
    simp [ofTokens]
  rw [errors_iff]
  exact declarations_spelled tokens.length tokens (Nat.le_refl _)

end Parsed

end TypedLang
