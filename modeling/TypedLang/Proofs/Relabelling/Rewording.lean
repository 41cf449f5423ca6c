import TypedLang.Proofs.Relabelling.Trees

/-!
# Rewording

Runs compare the keys of names with each other; what the key of a string is they never ask. A
rewording is a relabelling that gives the keys of strings to others on their own, be it to those of
names. One that treats strings as names is the relabelling itself.
-/

namespace TypedLang

/-- Other places, keys and sources, with keys of their own for strings. -/
structure Rewording extends Relabelling where
  string : Key → Key

instance : Coe Rewording Relabelling :=
  ⟨Rewording.toRelabelling⟩

/-- Strings get the keys that names would get. -/
def Relabelling.rewording (change : Relabelling) : Rewording :=
  { change with string := change.key }

/-- A lexeme with other texts, where strings have a conversion of their own. -/
def Lexeme.mapEach {Text Other : Type} (name body : Text → Other) : Lexeme Text → Lexeme Other
  | string text => string (body text)
  | lexeme => lexeme.map name

theorem Lexeme.mapEach_self {Text Other : Type} (convert : Text → Other) (lexeme : Lexeme Text) :
    lexeme.mapEach convert convert = lexeme.map convert := by
  cases lexeme <;> rfl

section

variable (change : Rewording)

/-- A token, reworded. -/
def Token.reword (token : Token) : Token :=
  ⟨token.lexeme.mapEach change.key change.string, change.span token.span⟩

@[simp]
theorem Token.kind_reword (token : Token) : (token.reword change).kind = token.kind := by
  rcases token with ⟨lexeme, span⟩
  cases lexeme <;> rfl

@[simp]
theorem Token.span_reword (token : Token) : (token.reword change).span = change.span token.span :=
  rfl

/-- The value of a literal, reworded. -/
def Literal.reword : Literal → Literal
  | string key => string (change.string key)
  | value => value

mutual

/-- An expression, reworded. -/
def Expr.reword : Expr → Expr
  | .binary op left right span type =>
      .binary op left.reword right.reword (change.span span) type
  | .unary op operand span type => .unary op operand.reword (change.span span) type
  | .call callee arguments span type =>
      .call callee.reword (Expr.rewordAll arguments) (change.span span) type
  | .grouping inner span type => .grouping inner.reword (change.span span) type
  | .literal value span type => .literal (value.reword change) (change.span span) type
  | .identifier name symbol type => .identifier (name.relabel change) symbol type

/-- Several expressions, reworded. -/
def Expr.rewordAll : List Expr → List Expr
  | [] => []
  | first :: rest => first.reword :: Expr.rewordAll rest

end

/-- A variable declaration, reworded. -/
def LetDecl.reword (decl : LetDecl) : LetDecl where
  name := decl.name.relabel change
  type := decl.type.relabel change
  initializer := decl.initializer.map (Expr.reword change)
  symbol := decl.symbol
  span := change.span decl.span

mutual

/-- A statement, reworded. -/
def Stmt.reword : Stmt → Stmt
  | .expression value span => .expression (value.reword change) (change.span span)
  | .letDecl decl => .letDecl (decl.reword change)
  | .block statements span => .block (Stmt.rewordAll statements) (change.span span)
  | .returning value span => .returning (value.map (Expr.reword change)) (change.span span)

/-- Several statements, reworded. -/
def Stmt.rewordAll : List Stmt → List Stmt
  | [] => []
  | first :: rest => first.reword :: Stmt.rewordAll rest

end

/-- A block, reworded. -/
def Block.reword (block : Block) : Block :=
  ⟨Stmt.rewordAll change block.statements, change.span block.span⟩

/-- A function declaration, reworded. -/
def FunDecl.reword (decl : FunDecl) : FunDecl where
  name := decl.name.relabel change
  parameters := decl.parameters.map (Parameter.relabel change)
  returnType := decl.returnType.relabel change
  body := decl.body.reword change
  symbol := decl.symbol
  span := change.span decl.span

/-- A declaration of a program, reworded. -/
def Decl.reword : Decl → Decl
  | .funDecl decl => .funDecl (decl.reword change)
  | .letDecl decl => .letDecl (decl.reword change)

/-- A program, reworded. -/
def Program.reword (program : Program) : Program where
  declarations := program.declarations.map (Decl.reword change)
  source := change.source program.source
  span := change.span program.span

@[simp]
theorem Expr.span_reword (value : Expr) : (value.reword change).span = change.span value.span := by
  cases value <;> rfl

@[simp]
theorem Expr.reword_withType (value : Expr) (type : Option Ty) :
    (value.withType type).reword change = (value.reword change).withType type := by
  cases value <;> rfl

theorem Expr.rewordAll_eq (values : List Expr) :
    Expr.rewordAll change values = values.map (Expr.reword change) := by
  induction values with
  | nil => rfl
  | cons first rest ih => rw [Expr.rewordAll, ih, List.map_cons]

theorem FunDecl.signature_reword (decl : FunDecl) :
    (decl.reword change).signature = decl.signature.relabel change := by
  simp only [FunDecl.signature, FunDecl.reword, Signature.relabel, List.map_map]
  rfl

end

section

variable (change : Relabelling)

theorem Token.reword_rewording (token : Token) :
    token.reword change.rewording = token.relabel change :=
  congrArg (Token.mk · (change.span token.span)) (token.lexeme.mapEach_self change.key)

theorem Literal.reword_rewording (value : Literal) :
    value.reword change.rewording = value.relabel change := by
  cases value <;> rfl

mutual

theorem Expr.reword_rewording : (value : Expr) →
    value.reword change.rewording = value.relabel change
  | .binary op left right span type => by
      rw [Expr.reword, Expr.relabel, left.reword_rewording, right.reword_rewording]
      rfl
  | .unary op operand span type => by
      rw [Expr.reword, Expr.relabel, operand.reword_rewording]
      rfl
  | .call callee arguments span type => by
      rw [Expr.reword, Expr.relabel, callee.reword_rewording, Expr.rewordAll_rewording arguments]
      rfl
  | .grouping inner span type => by
      rw [Expr.reword, Expr.relabel, inner.reword_rewording]
      rfl
  | .literal value span type => by
      rw [Expr.reword, Expr.relabel, value.reword_rewording]
      rfl
  | .identifier name symbol type => rfl

theorem Expr.rewordAll_rewording : (values : List Expr) →
    Expr.rewordAll change.rewording values = Expr.relabelAll change values
  | [] => rfl
  | first :: rest => by
      rw [Expr.rewordAll, Expr.relabelAll, first.reword_rewording, Expr.rewordAll_rewording rest]

end

theorem LetDecl.reword_rewording (decl : LetDecl) :
    decl.reword change.rewording = decl.relabel change := by
  rw [reword, relabel, funext (Expr.reword_rewording change)]
  rfl

mutual

theorem Stmt.reword_rewording : (statement : Stmt) →
    statement.reword change.rewording = statement.relabel change
  | .expression value span => by
      rw [Stmt.reword, Stmt.relabel, value.reword_rewording]
      rfl
  | .letDecl decl => congrArg Stmt.letDecl (decl.reword_rewording change)
  | .block statements span => by
      rw [Stmt.reword, Stmt.relabel, Stmt.rewordAll_rewording statements]
      rfl
  | .returning value span => by
      rw [Stmt.reword, Stmt.relabel, funext (Expr.reword_rewording change)]
      rfl

theorem Stmt.rewordAll_rewording : (statements : List Stmt) →
    Stmt.rewordAll change.rewording statements = Stmt.relabelAll change statements
  | [] => rfl
  | first :: rest => by
      rw [Stmt.rewordAll, Stmt.relabelAll, first.reword_rewording, Stmt.rewordAll_rewording rest]

end

theorem Decl.reword_rewording (decl : Decl) :
    decl.reword change.rewording = decl.relabel change := by
  cases decl with
  | funDecl decl =>
      simp only [Decl.reword, Decl.relabel, FunDecl.reword, FunDecl.relabel, Block.reword,
        Block.relabel, Stmt.rewordAll_rewording]
      rfl
  | letDecl decl => exact congrArg Decl.letDecl (decl.reword_rewording change)

theorem Program.reword_rewording (program : Program) :
    program.reword change.rewording = program.relabel change := by
  rw [reword, relabel, funext (Decl.reword_rewording change)]
  rfl

end

end TypedLang
