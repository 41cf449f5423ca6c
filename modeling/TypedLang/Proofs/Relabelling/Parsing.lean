import TypedLang.Proofs.Parsing.Peeking
import TypedLang.Proofs.Parsing.Recovery
import TypedLang.Proofs.Relabelling.Rewording

/-!
# Parsing reworded tokens

The parser looks at the kinds of tokens and at nothing else of them. On reworded tokens each rule
does the same as before and gives the reworded tree; so does the recovery, and with it the parser
as a whole, with errors or without.
-/

namespace TypedLang

/-- A failure, reworded. -/
def Failure.reword (change : Rewording) (failure : Failure) : Failure :=
  { failure with rest := failure.rest.map (Token.reword change) }

theorem Failure.isFatal_reword (change : Rewording) (failure : Failure) :
    (failure.reword change).isFatal = failure.isFatal :=
  List.isEmpty_map

theorem Failure.error_reword (change : Rewording) (source : SourceId) (failure : Failure) :
    (failure.reword change).error (change.source source) =
      (failure.error source).relabel change := by
  rcases failure with ⟨rest, expected, pastEnd⟩
  cases pastEnd with
  | true => rfl
  | false =>
      cases rest with
      | nil => rfl
      | cons token rest =>
          simp only [Failure.error, Failure.reword, List.map_cons, ParseError.relabel,
            Bool.false_eq_true, ↓reduceIte, ParseErrorCause.relabel, Option.map_some,
            Token.kind_reword, Token.span_reword]

namespace Rule

variable {Result Other : Type} {change : Rewording}

/-- The outcome of a rule, reworded; how its result is reworded depends on what it is. -/
def reworded (change : Rewording) (convert : Result → Result) :
    Except Failure (Result × List Token) → Except Failure (Result × List Token)
  | .ok (value, rest) => .ok (convert value, rest.map (Token.reword change))
  | .error failure => .error (failure.reword change)

/-- A rule does on reworded tokens what another one does on the tokens themselves. -/
def Rewords (change : Rewording) (convert : Result → Result) (rule same : Rule Result) : Prop :=
  ∀ tokens, same (tokens.map (Token.reword change)) = reworded change convert (rule tokens)

namespace Rewords

variable {convert : Result → Result} {convertOther : Other → Other}

theorem succeed (value : Result) :
    Rewords change convert (Rule.succeed value) (Rule.succeed (convert value)) :=
  fun _ => rfl

theorem reject (expected : List TokenKind) :
    Rewords change convert (Rule.reject expected) (Rule.reject expected) :=
  fun _ => rfl

theorem advance : Rewords change (Token.reword change) Rule.advance Rule.advance := by
  intro tokens
  cases tokens <;> rfl

theorem seq {first same : Rule Result} {next nextSame : Result → Rule Other}
    (firstRewords : Rewords change convert first same)
    (nextRewords : ∀ value,
      Rewords change convertOther (next value) (nextSame (convert value))) :
    Rewords change convertOther (first.seq next) (same.seq nextSame) := by
  intro tokens
  simp only [Rule.seq, firstRewords tokens]
  cases first tokens with
  | error failure => rfl
  | ok taken => exact nextRewords taken.1 taken.2

theorem peeking {choose chooseSame : Option Token → Rule Result}
    (chosen : ∀ head,
      Rewords change convert (choose head) (chooseSame (head.map (Token.reword change)))) :
    Rewords change convert (Rule.peeking choose) (Rule.peeking chooseSame) := by
  intro tokens
  rw [Rule.peeking, List.head?_map]
  exact chosen tokens.head? tokens

theorem fueled {rule same : Nat → Rule Result}
    (rewords : ∀ fuel, Rewords change convert (rule fuel) (same fuel)) :
    Rewords change convert (Rule.fueled rule) (Rule.fueled same) := by
  intro tokens
  rw [Rule.fueled, List.length_map]
  exact rewords tokens.length tokens

end Rewords

@[simp]
theorem map_kind_reword (change : Rewording) (head : Option Token) :
    (head.map (Token.reword change)).map Token.kind = head.map Token.kind := by
  cases head with
  | none => rfl
  | some token => exact congrArg some (token.kind_reword change)

@[simp]
theorem bind_kind_reword {Value : Type} (change : Rewording) (head : Option Token)
    (read : TokenKind → Option Value) :
    ((head.map (Token.reword change)).bind fun token => read token.kind) =
      head.bind fun token => read token.kind := by
  cases head with
  | none => rfl
  | some token => exact congrArg read (token.kind_reword change)

theorem expect_rewords (kind : TokenKind) :
    Rewords change change.span (expect kind) (expect kind) := by
  rw [expect_eq]
  refine .peeking fun head => ?_
  rw [map_kind_reword]
  split
  · exact .seq .advance fun taken => .succeed taken.span
  · exact .reject _

theorem name_rewords : Rewords change (Name.relabel change) name name := by
  rw [name_eq]
  refine .peeking fun head => ?_
  rcases head with _ | ⟨lexeme, span⟩
  · exact .reject _
  · cases lexeme with
    | identifier key => exact .seq .advance fun taken => .succeed (Name.mk key taken.span)
    | _ => exact .reject _

section Lists

variable {element same : Rule Result} {convert : Result → Result}

theorem afterCommas_rewords (rewords : Rewords change convert element same) (fuel : Nat) :
    Rewords change (List.map convert) (afterCommas element fuel) (afterCommas same fuel) := by
  induction fuel with
  | zero => exact .succeed []
  | succ fuel ih =>
      rw [afterCommas_succ, afterCommas_succ]
      refine .peeking fun head => ?_
      rw [map_kind_reword]
      split
      · refine .seq .advance fun _ => .seq rewords fun first => .seq ih fun others => ?_
        exact .succeed (first :: others)
      · exact .succeed []

theorem closedList_rewords (rewords : Rewords change convert element same) :
    Rewords change (Prod.map (List.map convert) change.span) (closedList element)
      (closedList same) := by
  rw [closedList_eq, closedList_eq]
  refine .peeking fun head => ?_
  rw [map_kind_reword]
  split
  · exact .seq (expect_rewords _) fun close => .succeed ([], close)
  · refine .seq rewords fun first => ?_
    refine .seq (.fueled (afterCommas_rewords rewords)) fun others => ?_
    exact .seq (expect_rewords _) fun close => .succeed (first :: others, close)

end Lists

section Expressions

variable {operand same : Rule Expr}

theorem binaryTail_rewords (rewords : Rewords change (Expr.reword change) operand same)
    (operator? : TokenKind → Option BinaryOp) (fuel : Nat) (left : Expr) :
    Rewords change (Expr.reword change) (binaryTail operand operator? fuel left)
      (binaryTail same operator? fuel (left.reword change)) := by
  induction fuel generalizing left with
  | zero => exact .succeed left
  | succ fuel ih =>
      rw [binaryTail_succ, binaryTail_succ]
      refine .peeking fun head => ?_
      rw [bind_kind_reword]
      split
      · exact .succeed left
      · rename_i op _
        refine .seq .advance fun _ => .seq rewords fun right => ?_
        rw [Expr.span_reword, Expr.span_reword, ← change.combine]
        exact ih (.binary op left right (left.span.combine right.span) none)

theorem binaryLevel_rewords (rewords : Rewords change (Expr.reword change) operand same)
    (operator? : TokenKind → Option BinaryOp) :
    Rewords change (Expr.reword change) (binaryLevel operand operator?)
      (binaryLevel same operator?) := by
  rw [binaryLevel_eq, binaryLevel_eq]
  refine .seq rewords fun first => .fueled fun fuel => ?_
  exact binaryTail_rewords rewords operator? fuel first

theorem unaryLevel_rewords (rewords : Rewords change (Expr.reword change) operand same) :
    Rewords change (Expr.reword change) (unaryLevel operand) (unaryLevel same) := by
  intro tokens
  induction tokens with
  | nil => exact rewords []
  | cons token rest ih =>
      rw [List.map_cons, unaryLevel, unaryLevel, Token.kind_reword]
      cases unaryOp? token.kind with
      | none => exact rewords (token :: rest)
      | some op =>
          simp only [Rule.advance, Bind.bind, Except.bind, ih]
          cases unaryLevel operand rest with
          | error failure => rfl
          | ok taken =>
              simp only [reworded, Pure.pure, Except.pure, Expr.reword, Token.span_reword,
                Expr.span_reword, change.combine]

variable {inner sameInner : Rule Expr}

theorem callTail_rewords (rewords : Rewords change (Expr.reword change) inner sameInner)
    (fuel : Nat) (callee : Expr) :
    Rewords change (Expr.reword change) (callTail inner fuel callee)
      (callTail sameInner fuel (callee.reword change)) := by
  induction fuel generalizing callee with
  | zero => exact .succeed callee
  | succ fuel ih =>
      rw [callTail_succ, callTail_succ]
      refine .peeking fun head => ?_
      rw [map_kind_reword]
      split
      · refine .seq .advance fun _ => .seq (closedList_rewords rewords) fun list => ?_
        have call := ih (.call callee list.1 (callee.span.combine list.2) none)
        rw [Expr.reword, Expr.rewordAll_eq, change.combine, ← Expr.span_reword] at call
        exact call
      · exact .succeed callee

theorem literal_rewords (value : Literal) :
    Rewords change (Expr.reword change) (literal value) (literal (value.reword change)) := by
  rw [literal_eq, literal_eq]
  exact .seq .advance fun taken => .succeed (Expr.literal value taken.span none)

theorem primary_rewords (rewords : Rewords change (Expr.reword change) inner sameInner) :
    Rewords change (Expr.reword change) (primary inner) (primary sameInner) := by
  rw [primary_eq, primary_eq]
  refine .peeking fun head => ?_
  rcases head with _ | ⟨lexeme, span⟩
  · exact .reject _
  · cases lexeme with
    | integer value => exact literal_rewords (.integer value)
    | decimal value => exact literal_rewords (.decimal value)
    | string key => exact literal_rewords (.string key)
    | boolean value => exact literal_rewords (.boolean value)
    | identifier key =>
        exact .seq .advance fun taken => .succeed (Expr.identifier ⟨key, taken.span⟩ none none)
    | punct mark =>
        simp only [Option.map_some, Token.reword, Lexeme.mapEach, Lexeme.map]
        split
        · refine .seq .advance fun taken => .seq rewords fun value => ?_
          refine .seq (expect_rewords _) fun close => ?_
          rw [Token.span_reword, ← change.combine]
          exact .succeed (Expr.grouping value (taken.span.combine close) none)
        · exact .reject _
    | _ => exact .reject _

theorem callLevel_rewords (rewords : Rewords change (Expr.reword change) inner sameInner) :
    Rewords change (Expr.reword change) (callLevel inner) (callLevel sameInner) := by
  rw [callLevel_eq, callLevel_eq]
  refine .seq (primary_rewords rewords) fun callee => .fueled fun fuel => ?_
  exact callTail_rewords rewords fuel callee

theorem levels_rewords (rewords : Rewords change (Expr.reword change) inner sameInner) :
    Rewords change (Expr.reword change) (levels inner) (levels sameInner) := by
  have unary := unaryLevel_rewords (callLevel_rewords rewords)
  have factor := binaryLevel_rewords unary factorOp?
  have term := binaryLevel_rewords factor termOp?
  have comparison := binaryLevel_rewords term comparisonOp?
  exact binaryLevel_rewords comparison equalityOp?

theorem expressionBelow_rewords (depth : Nat) :
    Rewords change (Expr.reword change) (expressionBelow depth) (expressionBelow depth) := by
  induction depth with
  | zero => exact .reject _
  | succ depth ih => exact levels_rewords ih

theorem expression_rewords : Rewords change (Expr.reword change) expression expression :=
  .fueled fun fuel => expressionBelow_rewords (fuel + 1)

end Expressions

theorem writtenType_rewords :
    Rewords change (WrittenType.relabel change) writtenType writtenType := by
  rw [writtenType_eq]
  refine .seq (expect_rewords _) fun sign => .peeking fun head => ?_
  rw [bind_kind_reword change head fun kind => kind.type?]
  split
  · exact .reject _
  · rename_i type _
    refine .seq .advance fun taken => ?_
    rw [Token.span_reword, ← change.combine]
    exact .succeed (WrittenType.mk type (sign.combine taken.span))

theorem parameter_rewords : Rewords change (Parameter.relabel change) parameter parameter := by
  rw [parameter_eq]
  refine .seq name_rewords fun name => .seq writtenType_rewords fun type => ?_
  rw [Name.span_relabel, WrittenType.span_relabel, ← change.combine]
  exact .succeed (Parameter.mk name type none (name.span.combine type.span))

theorem initializer_rewords :
    Rewords change (Option.map (Expr.reword change)) initializer initializer := by
  rw [initializer_eq]
  refine .peeking fun head => ?_
  rw [map_kind_reword]
  split
  · exact .seq .advance fun _ => .seq expression_rewords fun value => .succeed (some value)
  · exact .succeed none

theorem letDecl_rewords (keyword : Span) :
    Rewords change (LetDecl.reword change) (letDecl keyword) (letDecl (change.span keyword)) := by
  rw [letDecl_eq, letDecl_eq]
  refine .seq name_rewords fun name => .seq writtenType_rewords fun type => ?_
  refine .seq initializer_rewords fun initializer => .seq (expect_rewords _) fun semicolon => ?_
  rw [← change.combine]
  exact .succeed (LetDecl.mk name type initializer none (keyword.combine semicolon))

theorem returnValue_rewords :
    Rewords change (Option.map (Expr.reword change)) returnValue returnValue := by
  rw [returnValue_eq]
  refine .peeking fun head => ?_
  rw [map_kind_reword]
  split
  · exact .succeed none
  · exact .seq expression_rewords fun value => .succeed (some value)

theorem statement_rewords : Rewords change (Stmt.reword change) statement statement := by
  rw [statement_eq]
  refine .peeking fun head => ?_
  rw [map_kind_reword]
  split
  · refine .seq (expect_rewords _) fun keyword => .seq (letDecl_rewords keyword) fun decl => ?_
    exact .succeed (Stmt.letDecl decl)
  split
  · refine .seq (expect_rewords _) fun keyword => .seq returnValue_rewords fun value => ?_
    refine .seq (expect_rewords _) fun semicolon => ?_
    rw [← change.combine]
    exact .succeed (Stmt.returning value (keyword.combine semicolon))
  · refine .seq expression_rewords fun value => .seq (expect_rewords _) fun semicolon => ?_
    rw [Expr.span_reword, ← change.combine]
    exact .succeed (Stmt.expression value (value.span.combine semicolon))

/-- The header of a function, reworded. -/
def FunHeader.relabel (change : Relabelling) (header : FunHeader) : FunHeader where
  name := header.name.relabel change
  parameters := header.parameters.map (Parameter.relabel change)
  returnType := header.returnType.relabel change
  opening := change.span header.opening

theorem funHeader_rewords : Rewords change (FunHeader.relabel change) funHeader funHeader := by
  rw [funHeader_eq]
  refine .seq name_rewords fun name => .seq (expect_rewords _) fun _ => ?_
  refine .seq (closedList_rewords parameter_rewords) fun list => ?_
  refine .seq writtenType_rewords fun returnType => .seq (expect_rewords _) fun opening => ?_
  exact .succeed (FunHeader.mk name list.1 returnType opening)

end Rule

namespace Recovery

variable (change : Rewording)

theorem inBlock_reword (progressed : Bool) (depth : Nat) (tokens : List Token) :
    inBlock progressed depth (tokens.map (Token.reword change)) =
      (inBlock progressed depth tokens).map (Token.reword change) := by
  induction tokens generalizing progressed depth with
  | nil => rfl
  | cons token rest ih =>
      simp only [List.map_cons, inBlock_cons, Token.kind_reword, ih,
        apply_ite (List.map (Token.reword change))]

theorem inProgram_reword (progressed : Bool) (depth : Nat) (tokens : List Token) :
    inProgram progressed depth (tokens.map (Token.reword change)) =
      (inProgram progressed depth tokens).map (Token.reword change) := by
  induction tokens generalizing progressed depth with
  | nil => rfl
  | cons token rest ih =>
      simp only [List.map_cons, inProgram_cons, Token.kind_reword, ih,
        apply_ite (List.map (Token.reword change))]

end Recovery

namespace Attempt

variable {Result Other : Type} {change : Rewording}

/-- An attempt on reworded tokens does what another one does on the tokens themselves. -/
structure Rewords (change : Rewording) (convert : Result → Result)
    (attempt same : Attempt Result) : Prop where
  failures_eq : same.failures = attempt.failures.map (Failure.reword change)
  result_eq : same.result = Rule.reworded change convert attempt.result

namespace Rewords

variable {convert : Result → Result} {convertOther : Other → Other}
  {attempt same : Attempt Result}

theorem ofResult {rule sameRule : Rule Result}
    (rewords : Rule.Rewords change convert rule sameRule) (tokens : List Token) :
    Rewords change convert (.ofResult (rule tokens))
      (.ofResult (sameRule (tokens.map (Token.reword change)))) :=
  ⟨rfl, rewords tokens⟩

theorem map (rewords : Rewords change convert attempt same) {wrap wrapSame : Result → Other}
    (commutes : ∀ value, wrapSame (convert value) = convertOther (wrap value)) :
    Rewords change convertOther (attempt.map wrap) (same.map wrapSame) := by
  refine ⟨rewords.failures_eq, ?_⟩
  rw [Attempt.map, Attempt.map, rewords.result_eq]
  rcases attempt.result with failure | ⟨value, rest⟩
  · rfl
  · simp only [Rule.reworded, Except.map, commutes]

theorem after (rewords : Rewords change convert attempt same) (failures : List Failure) :
    Rewords change convert (attempt.after failures)
      (same.after (failures.map (Failure.reword change))) := by
  refine ⟨?_, rewords.result_eq⟩
  rw [Attempt.after, Attempt.after, rewords.failures_eq, List.map_append]

theorem andThen (rewords : Rewords change convert attempt same)
    {next nextSame : Result → List Token → Attempt Other}
    (nextRewords : ∀ value rest, Rewords change convertOther (next value rest)
      (nextSame (convert value) (rest.map (Token.reword change)))) :
    Rewords change convertOther (attempt.andThen next) (same.andThen nextSame) := by
  rw [Attempt.andThen, Attempt.andThen, rewords.result_eq, rewords.failures_eq]
  rcases attempt.result with failure | ⟨value, rest⟩
  · exact ⟨rfl, rfl⟩
  · exact (nextRewords value rest).after attempt.failures

end Rewords

end Attempt

namespace Rule

variable {change : Rewording}

theorem blockRest_rewords (fuel : Nat) (tokens : List Token) :
    Attempt.Rewords change (Prod.map (Stmt.rewordAll change) change.span) (blockRest fuel tokens)
      (blockRest fuel (tokens.map (Token.reword change))) := by
  induction fuel generalizing tokens with
  | zero => exact .ofResult (.reject _) tokens
  | succ fuel ih =>
      rw [blockRest_succ, blockRest_succ, List.head?_map, map_kind_reword]
      split
      · exact .ofResult (.reject _) tokens
      split
      · exact .ofResult (.seq .advance fun close => .succeed ([], close.span)) tokens
      split
      · refine .andThen (.ofResult (expect_rewords _) tokens) fun opening rest => ?_
        refine .andThen (ih rest) fun first rest => .map (ih rest) fun others => ?_
        simp only [Prod.map, Stmt.rewordAll, Stmt.reword, change.combine]
      · rw [statement_rewords tokens]
        rcases statement tokens with failure | ⟨first, rest⟩
        · simp only [reworded, Failure.isFatal_reword]
          split
          · exact ⟨rfl, rfl⟩
          · have rest_eq : (failure.reword change).rest.length = failure.rest.length :=
              List.length_map _
            rw [rest_eq, List.length_map, Failure.reword, Recovery.inBlock_reword]
            exact (ih _).after [failure]
        · exact .map (ih rest) fun others => rfl

theorem funDecl_rewords (keyword : Span) (tokens : List Token) :
    Attempt.Rewords change (FunDecl.reword change) (funDecl keyword tokens)
      (funDecl (change.span keyword) (tokens.map (Token.reword change))) := by
  refine .andThen (.ofResult funHeader_rewords tokens) fun header rest => ?_
  rw [List.length_map]
  refine .map (blockRest_rewords rest.length rest) fun body => ?_
  simp only [Prod.map, FunHeader.relabel, FunDecl.reword, Block.reword, change.combine]

theorem declaration_rewords (tokens : List Token) :
    Attempt.Rewords change (Decl.reword change) (declaration tokens)
      (declaration (tokens.map (Token.reword change))) := by
  rw [declaration_eq, declaration_eq, List.head?_map, map_kind_reword]
  split
  · refine .andThen (.ofResult (expect_rewords _) tokens) fun keyword rest => ?_
    exact .map (funDecl_rewords keyword rest) fun _ => rfl
  split
  · refine .andThen (.ofResult (expect_rewords _) tokens) fun keyword rest => ?_
    exact .map (.ofResult (letDecl_rewords keyword) rest) fun _ => rfl
  · exact .ofResult (.reject _) tokens

end Rule

namespace Parsed

variable (change : Rewording)

theorem declarations_reword (fuel : Nat) (tokens : List Token) :
    declarations fuel (tokens.map (Token.reword change)) =
      ((declarations fuel tokens).1.map (Decl.reword change),
        (declarations fuel tokens).2.map (Failure.reword change)) := by
  induction fuel generalizing tokens with
  | zero => rfl
  | succ fuel ih =>
      cases tokens with
      | nil => rfl
      | cons token rest =>
          have first : Attempt.Rewords change _ _ _ := Rule.declaration_rewords (token :: rest)
          rw [List.map_cons] at first ⊢
          rw [declarations, declarations, first.result_eq, first.failures_eq]
          rcases (Rule.declaration (token :: rest)).result with failure | ⟨decl, behind⟩
          · simp only [Rule.reworded, Failure.isFatal_reword]
            split
            · simp only [List.map_nil, List.map_append, List.map_cons]
            · simp only [Failure.reword, List.length_map, Recovery.inProgram_reword, ih,
                List.map_append, List.map_cons]
          · simp only [Rule.reworded, ih, List.map_cons, List.map_append]

theorem spanOf_reword (tokens : List Token) :
    spanOf (tokens.map (Token.reword change)) = change.span (spanOf tokens) := by
  rw [spanOf, spanOf, List.head?_map, List.getLast?_map]
  cases tokens.head? with
  | none => exact change.single.symm
  | some first =>
      cases tokens.getLast? with
      | none => exact change.single.symm
      | some last => exact (change.combine first.span last.span).symm

/-- Parse results, reworded. -/
def reword (parsed : Parsed) : Parsed :=
  ⟨parsed.program.reword change, parsed.errors.map (ParseError.relabel change)⟩

/-- The parser gives for reworded tokens the reworded program and the reworded errors. -/
theorem reword_ofTokens (source : SourceId) (tokens : List Token) :
    ofTokens (change.source source) (tokens.map (Token.reword change)) =
      (ofTokens source tokens).reword change := by
  have errors_eq (failures : List Failure) :
      (failures.map (Failure.reword change)).map (Failure.error (change.source source)) =
        (failures.map (Failure.error source)).map (ParseError.relabel change) := by
    rw [List.map_map, List.map_map]
    exact List.map_congr_left fun failure _ => failure.error_reword change source
  simp only [ofTokens, List.length_map, declarations_reword, spanOf_reword, reword,
    Program.reword, errors_eq]

end Parsed

end TypedLang
