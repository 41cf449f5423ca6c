import TypedLang.Program.Node

/-!
# Visitors

A visitor has a handler for the parts of a program. To visit a part is to call its handler, which is
given the part and the walk over what stands below it: it may walk on at once, do something before
or behind the walk, or leave it out. A walk visits one part after the other, in the order of the
source, and stops at the first one that fails.
-/

namespace TypedLang

/--
What a visitor may visit: each node with all that it consists of. A declaration or a statement is
visited twice, first in this role and then as what it is; so is an expression.
-/
inductive Part where
  | program (program : Program)
  | declaration (decl : Decl)
  | statement (statement : Stmt)
  | expressionStatement (value : Expr) (span : Span)
  | letDecl (decl : LetDecl)
  | funDecl (decl : FunDecl)
  | parameter (parameter : Parameter)
  | block (block : Block)
  | returning (value : Option Expr) (span : Span)
  | expression (value : Expr)
  | binary (op : BinaryOp) (left right : Expr) (span : Span) (type : Option Ty)
  | unary (op : UnaryOp) (operand : Expr) (span : Span) (type : Option Ty)
  | call (callee : Expr) (arguments : List Expr) (span : Span) (type : Option Ty)
  | grouping (inner : Expr) (span : Span) (type : Option Ty)
  | literal (value : Literal) (span : Span) (type : Option Ty)
  | identifier (name : Name) (symbol : Option SymbolId) (type : Option Ty)
  | type (written : WrittenType)
  deriving Repr

/-- The node of a part. -/
def Part.node : Part → Node
  | program whole => ⟨.program, whole.span, .none⟩
  | declaration decl => ⟨.statement, decl.span, .none⟩
  | statement stmt => ⟨.statement, stmt.span, .none⟩
  | expressionStatement _ span => ⟨.expressionStatement, span, .none⟩
  | letDecl decl => ⟨.letDecl, decl.span, .name decl.name.key⟩
  | funDecl decl => ⟨.funDecl, decl.span, .name decl.name.key⟩
  | parameter declared => ⟨.parameter, declared.span, .name declared.name.key⟩
  | block body => ⟨.block, body.span, .none⟩
  | returning _ span => ⟨.returning, span, .none⟩
  | expression value => ⟨.expression, value.span, .none⟩
  | binary op _ _ span _ => ⟨op.nodeKind, span, .binaryOp op⟩
  | unary op _ span _ => ⟨.unary, span, .unaryOp op⟩
  | call _ _ span _ => ⟨.call, span, .none⟩
  | grouping _ span _ => ⟨.grouping, span, .none⟩
  | literal _ span _ => ⟨.literal, span, .none⟩
  | identifier name _ _ => ⟨.identifier, name.span, .name name.key⟩
  | type written => ⟨.type, written.span, .type written.type⟩

/--
A visitor whose handler may fail and may have effects. A part that produces nothing by itself has
the default result. Unless it is given, the handler of a part is the walk over it.
-/
structure Visitor (m : Type → Type) (Error Value : Type) where
  defaultResult : ExceptT Error m Value
  visit (part : Part) (walk : ExceptT Error m Value) : ExceptT Error m Value := walk

variable {m : Type → Type} [Monad m] {Error Value : Type} (visitor : Visitor m Error Value)

/-- Visits a written type. -/
def WrittenType.accept (written : WrittenType) : ExceptT Error m Value :=
  visitor.visit (.type written) visitor.defaultResult

mutual

/-- Visits an expression. -/
def Expr.accept : Expr → ExceptT Error m Value
  | .binary op left right span type =>
      visitor.visit (.expression (.binary op left right span type)) <|
        visitor.visit (.binary op left right span type) do
          let _ ← left.accept
          let _ ← right.accept
          visitor.defaultResult
  | .unary op operand span type =>
      visitor.visit (.expression (.unary op operand span type)) <|
        visitor.visit (.unary op operand span type) do
          let _ ← operand.accept
          visitor.defaultResult
  | .call callee arguments span type =>
      visitor.visit (.expression (.call callee arguments span type)) <|
        visitor.visit (.call callee arguments span type) do
          let _ ← callee.accept
          Expr.acceptAll arguments
          visitor.defaultResult
  | .grouping inner span type =>
      visitor.visit (.expression (.grouping inner span type)) <|
        visitor.visit (.grouping inner span type) do
          let _ ← inner.accept
          visitor.defaultResult
  | .literal value span type =>
      visitor.visit (.expression (.literal value span type)) <|
        visitor.visit (.literal value span type) visitor.defaultResult
  | .identifier name symbol type =>
      visitor.visit (.expression (.identifier name symbol type)) <|
        visitor.visit (.identifier name symbol type) visitor.defaultResult

/-- Visits several expressions. -/
def Expr.acceptAll : List Expr → ExceptT Error m Unit
  | [] => pure ()
  | first :: rest => do
      let _ ← first.accept
      Expr.acceptAll rest

end

/-- Visits the declaration of a variable. -/
def LetDecl.accept (decl : LetDecl) : ExceptT Error m Value :=
  visitor.visit (.letDecl decl) do
    let _ ← decl.type.accept visitor
    decl.initializer.forM fun value => discard (value.accept visitor)
    visitor.defaultResult

mutual

/-- Visits a statement. -/
def Stmt.accept : Stmt → ExceptT Error m Value
  | .expression value span =>
      visitor.visit (.statement (.expression value span)) <|
        visitor.visit (.expressionStatement value span) do
          let _ ← value.accept visitor
          visitor.defaultResult
  | .letDecl decl => visitor.visit (.statement (.letDecl decl)) (decl.accept visitor)
  | .block statements span =>
      visitor.visit (.statement (.block statements span)) <|
        visitor.visit (.block ⟨statements, span⟩) do
          Stmt.acceptAll statements
          visitor.defaultResult
  | .returning value span =>
      visitor.visit (.statement (.returning value span)) <|
        visitor.visit (.returning value span) do
          value.forM fun value => discard (value.accept visitor)
          visitor.defaultResult

/-- Visits several statements. -/
def Stmt.acceptAll : List Stmt → ExceptT Error m Unit
  | [] => pure ()
  | first :: rest => do
      let _ ← first.accept
      Stmt.acceptAll rest

end

/-- Visits the body of a function. -/
def Block.accept (block : Block) : ExceptT Error m Value :=
  visitor.visit (.block block) do
    Stmt.acceptAll visitor block.statements
    visitor.defaultResult

/-- Visits a parameter. -/
def Parameter.accept (parameter : Parameter) : ExceptT Error m Value :=
  visitor.visit (.parameter parameter) do
    let _ ← parameter.type.accept visitor
    visitor.defaultResult

/-- Visits the declaration of a function. -/
def FunDecl.accept (decl : FunDecl) : ExceptT Error m Value :=
  visitor.visit (.funDecl decl) do
    decl.parameters.forM fun parameter => discard (parameter.accept visitor)
    let _ ← decl.returnType.accept visitor
    let _ ← decl.body.accept visitor
    visitor.defaultResult

/-- Visits a declaration of a program. -/
def Decl.accept : Decl → ExceptT Error m Value
  | .funDecl decl => visitor.visit (.declaration (.funDecl decl)) (decl.accept visitor)
  | .letDecl decl => visitor.visit (.declaration (.letDecl decl)) (decl.accept visitor)

/-- Visits a program. -/
def Program.accept (program : Program) : ExceptT Error m Value :=
  visitor.visit (.program program) do
    program.declarations.forM fun decl => discard (decl.accept visitor)
    visitor.defaultResult

end TypedLang
