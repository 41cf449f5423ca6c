import TypedLang.Parsing.Error
import TypedLang.Scope.Resolve
import TypedLang.Token.Error
import TypedLang.Typing.Check

/-!
# Relabelling

A tree tells where its nodes stand, which keys its names and strings have and which source it is of.
None of this is its shape: a relabelling changes places, keys and sources and leaves the shape as it
is. Places that are taken together stay together, and different keys stay different, which is all
that a run relies on.
-/

namespace TypedLang

/-- Other places, keys and sources. -/
structure Relabelling where
  span : Span → Span
  key : Key → Key
  source : SourceId → SourceId
  combine : ∀ left right, span (left.combine right) = (span left).combine (span right)
  single : span (.single 0) = .single 0
  key_injective : Function.Injective key

/-- A lexeme with other texts. -/
def Lexeme.map {Text Other : Type} (convert : Text → Other) : Lexeme Text → Lexeme Other
  | identifier text => identifier (convert text)
  | integer value => integer value
  | decimal value => decimal value
  | string text => string (convert text)
  | boolean value => boolean value
  | keyword word => keyword word
  | typeName word => typeName word
  | punct mark => punct mark

@[simp]
theorem Lexeme.map_map {Text Middle Other : Type} (convert : Middle → Other)
    (first : Text → Middle) (lexeme : Lexeme Text) :
    (lexeme.map first).map convert = lexeme.map (convert ∘ first) := by
  cases lexeme <;> rfl

section

variable (change : Relabelling)

/-- A token, relabelled. -/
def Token.relabel (token : Token) : Token :=
  ⟨token.lexeme.map change.key, change.span token.span⟩

/-- A name, relabelled. -/
def Name.relabel (name : Name) : Name :=
  ⟨change.key name.key, change.span name.span⟩

@[simp]
theorem Name.span_relabel (name : Name) : (name.relabel change).span = change.span name.span :=
  rfl

/-- A written type, relabelled. -/
def WrittenType.relabel (written : WrittenType) : WrittenType :=
  { written with span := change.span written.span }

@[simp]
theorem WrittenType.span_relabel (written : WrittenType) :
    (written.relabel change).span = change.span written.span :=
  rfl

@[simp]
theorem WrittenType.type_relabel (written : WrittenType) :
    (written.relabel change).type = written.type :=
  rfl

/-- The value of a literal, relabelled. -/
def Literal.relabel : Literal → Literal
  | integer value => integer value
  | decimal value => decimal value
  | string key => string (change.key key)
  | boolean value => boolean value

mutual

/-- An expression, relabelled. -/
def Expr.relabel : Expr → Expr
  | .binary op left right span type =>
      .binary op left.relabel right.relabel (change.span span) type
  | .unary op operand span type => .unary op operand.relabel (change.span span) type
  | .call callee arguments span type =>
      .call callee.relabel (Expr.relabelAll arguments) (change.span span) type
  | .grouping inner span type => .grouping inner.relabel (change.span span) type
  | .literal value span type => .literal (value.relabel change) (change.span span) type
  | .identifier name symbol type => .identifier (name.relabel change) symbol type

/-- Several expressions, relabelled. -/
def Expr.relabelAll : List Expr → List Expr
  | [] => []
  | first :: rest => first.relabel :: Expr.relabelAll rest

end

/-- A variable declaration, relabelled. -/
def LetDecl.relabel (decl : LetDecl) : LetDecl where
  name := decl.name.relabel change
  type := decl.type.relabel change
  initializer := decl.initializer.map (Expr.relabel change)
  symbol := decl.symbol
  span := change.span decl.span

/-- A parameter, relabelled. -/
def Parameter.relabel (parameter : Parameter) : Parameter where
  name := parameter.name.relabel change
  type := parameter.type.relabel change
  symbol := parameter.symbol
  span := change.span parameter.span

mutual

/-- A statement, relabelled. -/
def Stmt.relabel : Stmt → Stmt
  | .expression value span => .expression (value.relabel change) (change.span span)
  | .letDecl decl => .letDecl (decl.relabel change)
  | .block statements span => .block (Stmt.relabelAll statements) (change.span span)
  | .returning value span => .returning (value.map (Expr.relabel change)) (change.span span)

/-- Several statements, relabelled. -/
def Stmt.relabelAll : List Stmt → List Stmt
  | [] => []
  | first :: rest => first.relabel :: Stmt.relabelAll rest

end

/-- A block, relabelled. -/
def Block.relabel (block : Block) : Block :=
  ⟨Stmt.relabelAll change block.statements, change.span block.span⟩

/-- A function declaration, relabelled. -/
def FunDecl.relabel (decl : FunDecl) : FunDecl where
  name := decl.name.relabel change
  parameters := decl.parameters.map (Parameter.relabel change)
  returnType := decl.returnType.relabel change
  body := decl.body.relabel change
  symbol := decl.symbol
  span := change.span decl.span

/-- A declaration of a program, relabelled. -/
def Decl.relabel : Decl → Decl
  | .funDecl decl => .funDecl (decl.relabel change)
  | .letDecl decl => .letDecl (decl.relabel change)

/-- A program, relabelled. -/
def Program.relabel (program : Program) : Program where
  declarations := program.declarations.map (Decl.relabel change)
  source := change.source program.source
  span := change.span program.span

/-- A signature, relabelled. -/
def Signature.relabel (signature : Signature) : Signature where
  name := signature.name.relabel change
  parameters := signature.parameters.map (WrittenType.relabel change)
  returnType := signature.returnType.relabel change
  span := change.span signature.span

/-- A symbol, relabelled. -/
def Symbol.relabel (symbol : Symbol) : Symbol where
  name := change.key symbol.name
  span := change.span symbol.span
  kind := symbol.kind
  signature := symbol.signature.map (Signature.relabel change)
  type := symbol.type

/-- An arena, relabelled. -/
def Arena.relabel (arena : Arena) : Arena :=
  ⟨arena.symbols.map (Symbol.relabel change)⟩

@[simp]
theorem Arena.size_relabel (arena : Arena) : (arena.relabel change).size = arena.size :=
  List.length_map _

@[simp]
theorem Arena.get?_relabel (arena : Arena) (id : SymbolId) :
    (arena.relabel change).get? id = (arena.get? id).map (Symbol.relabel change) :=
  List.getElem?_map

/-- A lexical error, relabelled. -/
def LexicalError.relabel (error : LexicalError) : LexicalError :=
  { error with source := change.source error.source, span := change.span error.span }

/-- The cause of a parse error, relabelled. -/
def ParseErrorCause.relabel : ParseErrorCause → ParseErrorCause
  | unexpectedToken span got expected => unexpectedToken (span.map change.span) got expected
  | unexpectedEndOfInput expected => unexpectedEndOfInput expected
  | internalEndOfInput => internalEndOfInput

/-- A parse error, relabelled. -/
def ParseError.relabel (error : ParseError) : ParseError :=
  ⟨change.source error.source, error.cause.relabel change⟩

/-- The cause of a resolution error, relabelled. -/
def ResolutionErrorCause.relabel : ResolutionErrorCause → ResolutionErrorCause
  | symbolNotFound name => symbolNotFound (name.map change.key)
  | nameAlreadyUsed name earlier =>
      nameAlreadyUsed (name.map change.key) (earlier.map change.span)
  | kindMismatch name expected found => kindMismatch (name.map change.key) expected found

/-- A resolution error, relabelled. -/
def ResolutionError.relabel (error : ResolutionError) : ResolutionError :=
  ⟨change.source error.source, change.span error.span, error.cause.relabel change⟩

/-- The cause of a type error, relabelled. -/
def TypeErrorCause.relabel : TypeErrorCause → TypeErrorCause
  | mismatch expected got declaration => mismatch expected got (declaration.map change.span)
  | arity expected got declaration => arity expected got (declaration.map change.span)
  | cause => cause

/-- A type error, relabelled. -/
def TypeError.relabel (error : TypeError) : TypeError :=
  ⟨change.source error.source, change.span error.span, error.cause.relabel change⟩

end

end TypedLang
