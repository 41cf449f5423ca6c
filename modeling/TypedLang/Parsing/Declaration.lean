import TypedLang.Parsing.Expression
import TypedLang.Parsing.Recovery

/-!
# Parsing declarations and statements

A declaration starts with its keyword, and so do all statements but blocks and expressions. A block
recovers from the failures of its statements and goes on behind them; it fails only where the input
ends before its closing brace.
-/

namespace TypedLang

namespace Rule

/-- A type behind an at sign. -/
def writtenType : Rule WrittenType := fun tokens => do
  let (sign, rest) ← expect (.punct .atSign) tokens
  match rest with
  | [] => reject TokenKind.typeNames []
  | token :: rest =>
      match token.kind.type? with
      | none => reject TokenKind.typeNames (token :: rest)
      | some type => do
          let (taken, rest) ← advance (token :: rest)
          pure (⟨type, sign.combine taken.span⟩, rest)

/-- A name and its type. -/
def parameter : Rule Parameter := fun tokens => do
  let (name, rest) ← name tokens
  let (type, rest) ← writtenType rest
  pure (⟨name, type, none, name.span.combine type.span⟩, rest)

/-- An equals sign and an expression, or nothing. -/
def initializer : Rule (Option Expr)
  | ⟨.punct .equal, sign⟩ :: rest => do
      let (_, rest) ← advance (⟨.punct .equal, sign⟩ :: rest)
      let (value, rest) ← expression rest
      pure (some value, rest)
  | tokens => .ok (none, tokens)

/-- What follows the keyword of a variable declaration, given the span of that keyword. -/
def letDecl (keyword : Span) : Rule LetDecl := fun tokens => do
  let (name, rest) ← name tokens
  let (type, rest) ← writtenType rest
  let (initializer, rest) ← initializer rest
  let (semicolon, rest) ← expect (.punct .semicolon) rest
  pure (⟨name, type, initializer, none, keyword.combine semicolon⟩, rest)

/-- The value of a return statement, which may lack. -/
def returnValue : Rule (Option Expr)
  | ⟨.punct .semicolon, semicolon⟩ :: rest => .ok (none, ⟨.punct .semicolon, semicolon⟩ :: rest)
  | tokens => do
      let (value, rest) ← expression tokens
      pure (some value, rest)

/-- A statement that is no block. -/
def statement : Rule Stmt
  | ⟨.keyword .letWord, span⟩ :: rest => do
      let (keyword, rest) ← expect (.keyword .letWord) (⟨.keyword .letWord, span⟩ :: rest)
      let (decl, rest) ← letDecl keyword rest
      pure (.letDecl decl, rest)
  | ⟨.keyword .returnWord, span⟩ :: rest => do
      let (keyword, rest) ← expect (.keyword .returnWord) (⟨.keyword .returnWord, span⟩ :: rest)
      let (value, rest) ← returnValue rest
      let (semicolon, rest) ← expect (.punct .semicolon) rest
      pure (.returning value (keyword.combine semicolon), rest)
  | tokens => do
      let (value, rest) ← expression tokens
      let (semicolon, rest) ← expect (.punct .semicolon) rest
      pure (.expression value (value.span.combine semicolon), rest)

/--
The statements of a block up to its closing brace, whose span is given with them. Every step takes a
token, so fuel for as many steps as there are tokens lasts to the end.
-/
def blockRest : (fuel : Nat) → List Token → Attempt (List Stmt × Span)
  | 0, tokens => .ofResult (reject [.punct .rightBrace] tokens)
  | fuel + 1, tokens =>
      match tokens with
      | [] => .ofResult (reject [.punct .rightBrace] [])
      | ⟨.punct .rightBrace, span⟩ :: rest => .ofResult do
          let (close, rest) ← advance (⟨.punct .rightBrace, span⟩ :: rest)
          pure (([], close.span), rest)
      | ⟨.punct .leftBrace, span⟩ :: rest =>
          let opened := expect (.punct .leftBrace) (⟨.punct .leftBrace, span⟩ :: rest)
          (Attempt.ofResult opened).andThen fun opening rest =>
            (blockRest fuel rest).andThen fun (statements, close) rest =>
              let block := Stmt.block statements (opening.combine close)
              (blockRest fuel rest).map fun (others, close) => (block :: others, close)
      | tokens =>
          match statement tokens with
          | .ok (first, rest) =>
              (blockRest fuel rest).map fun (others, close) => (first :: others, close)
          | .error failure =>
              if failure.isFatal then .ofResult (.error failure)
              else
                let progressed := decide (failure.rest.length < tokens.length)
                (blockRest fuel (Recovery.inBlock progressed 0 failure.rest)).after [failure]

/-- What a function declaration holds before its body, and the span of the opening brace. -/
structure FunHeader where
  name : Name
  parameters : List Parameter
  returnType : WrittenType
  opening : Span

/-- The name, parameters and return type of a function, and the opening brace of its body. -/
def funHeader : Rule FunHeader := fun tokens => do
  let (name, rest) ← name tokens
  let (_, rest) ← expect (.punct .leftParen) rest
  let ((parameters, _), rest) ← closedList parameter rest
  let (returnType, rest) ← writtenType rest
  let (opening, rest) ← expect (.punct .leftBrace) rest
  pure (⟨name, parameters, returnType, opening⟩, rest)

/-- What follows the keyword of a function declaration, given the span of that keyword. -/
def funDecl (keyword : Span) (tokens : List Token) : Attempt FunDecl :=
  (Attempt.ofResult (funHeader tokens)).andThen fun header rest =>
    (blockRest rest.length rest).map fun (statements, close) =>
      let body : Block := ⟨statements, header.opening.combine close⟩
      ⟨header.name, header.parameters, header.returnType, body, none, keyword.combine body.span⟩

/-- A declaration of a program. -/
def declaration : List Token → Attempt Decl
  | ⟨.keyword .funWord, span⟩ :: rest =>
      let started := expect (.keyword .funWord) (⟨.keyword .funWord, span⟩ :: rest)
      (Attempt.ofResult started).andThen fun keyword rest =>
        (funDecl keyword rest).map Decl.funDecl
  | ⟨.keyword .letWord, span⟩ :: rest =>
      let started := expect (.keyword .letWord) (⟨.keyword .letWord, span⟩ :: rest)
      (Attempt.ofResult started).andThen fun keyword rest =>
        (Attempt.ofResult (letDecl keyword rest)).map Decl.letDecl
  | tokens => .ofResult (reject [.keyword .funWord, .keyword .letWord] tokens)

end Rule

end TypedLang
