import TypedLang.Parsing

/-!
# Rules by the next token

Every rule decides what to do by the next token alone, and does so before it takes any. Each rule is
therefore one of two forms, or made of them: a rule and one behind it, or a choice between rules by
the token that comes next. Whatever holds of both forms holds of all rules.
-/

namespace TypedLang

namespace Rule

variable {Result Other : Type}

/-- A rule that takes nothing. -/
def succeed (value : Result) : Rule Result :=
  fun tokens => .ok (value, tokens)

/-- A rule and the one behind it. -/
abbrev seq (first : Rule Result) (next : Result → Rule Other) : Rule Other :=
  fun tokens => do
    let (value, rest) ← first tokens
    next value rest

/-- The rule that suits the next token. -/
def peeking (choose : Option Token → Rule Result) : Rule Result :=
  fun tokens => choose tokens.head? tokens

/-- A rule with fuel for as many steps as there are tokens. -/
abbrev fueled (rule : Nat → Rule Result) : Rule Result :=
  fun tokens => rule tokens.length tokens

theorem expect_eq (kind : TokenKind) :
    expect kind = peeking fun head =>
      if head.map Token.kind = some kind then advance.seq fun taken => succeed taken.span
      else reject [kind] := by
  funext tokens
  cases tokens with
  | nil => rfl
  | cons token rest =>
      by_cases same : token.kind = kind
      · simp only [expect, peeking, List.head?_cons, Option.map_some, same, if_true]
        rfl
      · simp [expect, peeking, same]

theorem name_eq :
    name = peeking fun head =>
      match head.map Token.lexeme with
      | some (.identifier key) => advance.seq fun taken => succeed ⟨key, taken.span⟩
      | _ => reject [.identifier] := by
  funext tokens
  rcases tokens with _ | ⟨⟨lexeme, span⟩, rest⟩
  · rfl
  · cases lexeme <;> rfl

section Lists

variable (element : Rule Result)

theorem afterCommas_succ (fuel : Nat) :
    afterCommas element (fuel + 1) = peeking fun head =>
      if head.map Token.kind = some (.punct .comma) then
        advance.seq fun _ => element.seq fun first =>
          (afterCommas element fuel).seq fun others => succeed (first :: others)
      else succeed [] := by
  funext tokens
  rcases tokens with _ | ⟨⟨lexeme, span⟩, rest⟩
  · rfl
  · cases lexeme with
    | punct mark => cases mark <;> rfl
    | _ => rfl

theorem closedList_eq :
    closedList element = peeking fun head =>
      if head.map Token.kind = some (.punct .rightParen) then
        (expect (.punct .rightParen)).seq fun close => succeed ([], close)
      else
        element.seq fun first => (fueled (afterCommas element)).seq fun others =>
          (expect (.punct .rightParen)).seq fun close => succeed (first :: others, close) := by
  funext tokens
  rcases tokens with _ | ⟨⟨lexeme, span⟩, rest⟩
  · rfl
  · cases lexeme with
    | punct mark => cases mark <;> rfl
    | _ => rfl

end Lists

section Expressions

variable (operand : Rule Expr) (operator? : TokenKind → Option BinaryOp)

theorem binaryTail_succ (fuel : Nat) (left : Expr) :
    binaryTail operand operator? (fuel + 1) left = peeking fun head =>
      match head.bind fun token => operator? token.kind with
      | none => succeed left
      | some op => advance.seq fun _ => operand.seq fun right =>
          binaryTail operand operator? fuel
            (.binary op left right (left.span.combine right.span) none) := by
  funext tokens
  cases tokens with
  | nil => rfl
  | cons token rest =>
      simp only [binaryTail, peeking, List.head?_cons, Option.bind_some]
      cases operator? token.kind <;> rfl

theorem binaryLevel_eq :
    binaryLevel operand operator? =
      operand.seq fun first => fueled fun fuel => binaryTail operand operator? fuel first :=
  rfl

theorem unaryLevel_eq :
    unaryLevel operand = peeking fun head =>
      match head.bind fun token => unaryOp? token.kind with
      | none => operand
      | some op => advance.seq fun mark => (unaryLevel operand).seq fun inner =>
          succeed (.unary op inner (mark.span.combine inner.span) none) := by
  funext tokens
  cases tokens with
  | nil => rfl
  | cons token rest =>
      simp only [unaryLevel, peeking, List.head?_cons, Option.bind_some]
      cases unaryOp? token.kind <;> rfl

variable (inner : Rule Expr)

theorem callTail_succ (fuel : Nat) (callee : Expr) :
    callTail inner (fuel + 1) callee = peeking fun head =>
      if head.map Token.kind = some (.punct .leftParen) then
        advance.seq fun _ => (closedList inner).seq fun list =>
          callTail inner fuel (.call callee list.1 (callee.span.combine list.2) none)
      else succeed callee := by
  funext tokens
  rcases tokens with _ | ⟨⟨lexeme, span⟩, rest⟩
  · rfl
  · cases lexeme with
    | punct mark => cases mark <;> rfl
    | _ => rfl

theorem literal_eq (value : Literal) :
    literal value = advance.seq fun taken => succeed (.literal value taken.span none) :=
  rfl

theorem primary_eq :
    primary inner = peeking fun head =>
      match head.map Token.lexeme with
      | some (.integer value) => literal (.integer value)
      | some (.decimal value) => literal (.decimal value)
      | some (.string key) => literal (.string key)
      | some (.boolean value) => literal (.boolean value)
      | some (.identifier key) => advance.seq fun taken =>
          succeed (.identifier ⟨key, taken.span⟩ none none)
      | some (.punct mark) =>
          if mark = .leftParen then
            advance.seq fun taken => inner.seq fun value =>
              (expect (.punct .rightParen)).seq fun close =>
                succeed (.grouping value (taken.span.combine close) none)
          else reject expressionStart
      | _ => reject expressionStart := by
  funext tokens
  rcases tokens with _ | ⟨⟨lexeme, span⟩, rest⟩
  · rfl
  · cases lexeme with
    | punct mark => cases mark <;> rfl
    | _ => rfl

theorem callLevel_eq :
    callLevel inner =
      (primary inner).seq fun callee => fueled fun fuel => callTail inner fuel callee :=
  rfl

end Expressions

theorem writtenType_eq :
    writtenType = (expect (.punct .atSign)).seq fun sign => peeking fun head =>
      match head.bind fun token => token.kind.type? with
      | none => reject TokenKind.typeNames
      | some type => advance.seq fun taken => succeed ⟨type, sign.combine taken.span⟩ := by
  funext tokens
  unfold writtenType seq
  congr 1
  funext ⟨sign, rest⟩
  cases rest with
  | nil => rfl
  | cons token rest =>
      simp only [peeking, List.head?_cons, Option.bind_some]
      cases token.kind.type? <;> rfl

theorem parameter_eq :
    parameter = name.seq fun name => writtenType.seq fun type =>
      succeed ⟨name, type, none, name.span.combine type.span⟩ :=
  rfl

theorem initializer_eq :
    initializer = peeking fun head =>
      if head.map Token.kind = some (.punct .equal) then
        advance.seq fun _ => expression.seq fun value => succeed (some value)
      else succeed none := by
  funext tokens
  rcases tokens with _ | ⟨⟨lexeme, span⟩, rest⟩
  · rfl
  · cases lexeme with
    | punct mark => cases mark <;> rfl
    | _ => rfl

theorem letDecl_eq (keyword : Span) :
    letDecl keyword = name.seq fun name => writtenType.seq fun type =>
      initializer.seq fun initializer => (expect (.punct .semicolon)).seq fun semicolon =>
        succeed ⟨name, type, initializer, none, keyword.combine semicolon⟩ :=
  rfl

theorem returnValue_eq :
    returnValue = peeking fun head =>
      if head.map Token.kind = some (.punct .semicolon) then succeed none
      else expression.seq fun value => succeed (some value) := by
  funext tokens
  rcases tokens with _ | ⟨⟨lexeme, span⟩, rest⟩
  · rfl
  · cases lexeme with
    | punct mark => cases mark <;> rfl
    | _ => rfl

theorem statement_eq :
    statement = peeking fun head =>
      if head.map Token.kind = some (.keyword .letWord) then
        (expect (.keyword .letWord)).seq fun keyword => (letDecl keyword).seq fun decl =>
          succeed (.letDecl decl)
      else if head.map Token.kind = some (.keyword .returnWord) then
        (expect (.keyword .returnWord)).seq fun keyword => returnValue.seq fun value =>
          (expect (.punct .semicolon)).seq fun semicolon =>
            succeed (.returning value (keyword.combine semicolon))
      else
        expression.seq fun value => (expect (.punct .semicolon)).seq fun semicolon =>
          succeed (.expression value (value.span.combine semicolon)) := by
  funext tokens
  rcases tokens with _ | ⟨⟨lexeme, span⟩, rest⟩
  · rfl
  · cases lexeme with
    | keyword word => cases word <;> rfl
    | _ => rfl

theorem funHeader_eq :
    funHeader = name.seq fun name => (expect (.punct .leftParen)).seq fun _ =>
      (closedList parameter).seq fun list => writtenType.seq fun returnType =>
        (expect (.punct .leftBrace)).seq fun opening =>
          succeed ⟨name, list.1, returnType, opening⟩ :=
  rfl

theorem blockRest_succ (fuel : Nat) (tokens : List Token) :
    blockRest (fuel + 1) tokens =
      if tokens.head?.map Token.kind = none then .ofResult (reject [.punct .rightBrace] tokens)
      else if tokens.head?.map Token.kind = some (.punct .rightBrace) then
        .ofResult ((advance.seq fun close => succeed ([], close.span)) tokens)
      else if tokens.head?.map Token.kind = some (.punct .leftBrace) then
        (Attempt.ofResult (expect (.punct .leftBrace) tokens)).andThen fun opening rest =>
          (blockRest fuel rest).andThen fun first rest => (blockRest fuel rest).map fun others =>
            (.block first.1 (opening.combine first.2) :: others.1, others.2)
      else
        match statement tokens with
        | .ok (first, rest) => (blockRest fuel rest).map fun others => (first :: others.1, others.2)
        | .error failure =>
            if failure.isFatal then .ofResult (.error failure)
            else
              (blockRest fuel (Recovery.inBlock (decide (failure.rest.length < tokens.length)) 0
                failure.rest)).after [failure] := by
  rcases tokens with _ | ⟨⟨lexeme, span⟩, rest⟩
  · rfl
  · cases lexeme with
    | punct mark => cases mark <;> rfl
    | _ => rfl

theorem declaration_eq (tokens : List Token) :
    declaration tokens =
      if tokens.head?.map Token.kind = some (.keyword .funWord) then
        (Attempt.ofResult (expect (.keyword .funWord) tokens)).andThen fun keyword rest =>
          (funDecl keyword rest).map .funDecl
      else if tokens.head?.map Token.kind = some (.keyword .letWord) then
        (Attempt.ofResult (expect (.keyword .letWord) tokens)).andThen fun keyword rest =>
          (Attempt.ofResult (letDecl keyword rest)).map .letDecl
      else .ofResult (reject [.keyword .funWord, .keyword .letWord] tokens) := by
  rcases tokens with _ | ⟨⟨lexeme, span⟩, rest⟩
  · rfl
  · cases lexeme with
    | keyword word => cases word <;> rfl
    | _ => rfl

end Rule

end TypedLang
