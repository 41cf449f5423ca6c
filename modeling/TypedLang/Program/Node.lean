import TypedLang.Program

/-!
# Nodes

Every part of a program that has a span is a node. The nodes form a rose tree, in which a
declaration or an expression stands below a node for its role, as statement or as value. Children
stand in source order: the type of a variable before its initializer, the parameters of a function
before its return type and its body, the callee of a call before its arguments.
-/

namespace TypedLang

/-- The kinds of nodes. -/
inductive NodeKind where
  | program | statement | expressionStatement | letDecl | funDecl | parameter | block | returning
  | expression | equality | comparison | term | factor | unary | call | grouping | literal
  | identifier | type
  deriving Repr, DecidableEq

/-- The kind of the nodes of a binary operator. -/
def BinaryOp.nodeKind : BinaryOp → NodeKind
  | equality _ => .equality
  | comparison _ => .comparison
  | term _ => .term
  | factor _ => .factor

/-- What tells a node apart from others of its kind. -/
inductive NodeDetail where
  | none
  | name (key : Key)
  | binaryOp (op : BinaryOp)
  | unaryOp (op : UnaryOp)
  | type (written : Ty)
  deriving Repr, DecidableEq

/-- A node without its children. -/
structure Node where
  kind : NodeKind
  span : Span
  detail : NodeDetail := .none
  deriving Repr, DecidableEq

/-- A node and all that stands below it. -/
inductive NodeTree where
  | mk (node : Node) (children : List NodeTree)
  deriving Repr

namespace NodeTree

/-- The node at the root. -/
def root : NodeTree → Node
  | mk node _ => node

mutual

/-- The nodes of a tree, each one before those below it. -/
def nodes : NodeTree → List Node
  | mk node children => node :: nodesOfAll children

/-- The nodes of several trees, one tree after the other. -/
def nodesOfAll : List NodeTree → List Node
  | [] => []
  | tree :: rest => nodes tree ++ nodesOfAll rest

end

end NodeTree

/-- The node of a written type. -/
def WrittenType.tree (written : WrittenType) : NodeTree :=
  .mk ⟨.type, written.span, .type written.type⟩ []

mutual

/-- The tree of an expression, below the node for its role. -/
def Expr.tree : Expr → NodeTree
  | .binary op left right span _ =>
      .mk ⟨.expression, span, .none⟩
        [.mk ⟨op.nodeKind, span, .binaryOp op⟩ [left.tree, right.tree]]
  | .unary op operand span _ =>
      .mk ⟨.expression, span, .none⟩ [.mk ⟨.unary, span, .unaryOp op⟩ [operand.tree]]
  | .call callee arguments span _ =>
      .mk ⟨.expression, span, .none⟩
        [.mk ⟨.call, span, .none⟩ (callee.tree :: Expr.trees arguments)]
  | .grouping inner span _ =>
      .mk ⟨.expression, span, .none⟩ [.mk ⟨.grouping, span, .none⟩ [inner.tree]]
  | .literal _ span _ =>
      .mk ⟨.expression, span, .none⟩ [.mk ⟨.literal, span, .none⟩ []]
  | .identifier name _ _ =>
      .mk ⟨.expression, name.span, .none⟩ [.mk ⟨.identifier, name.span, .name name.key⟩ []]

/-- The trees of several expressions. -/
def Expr.trees : List Expr → List NodeTree
  | [] => []
  | first :: rest => first.tree :: Expr.trees rest

end

/-- The tree of a variable declaration. -/
def LetDecl.tree (decl : LetDecl) : NodeTree :=
  .mk ⟨.letDecl, decl.span, .name decl.name.key⟩
    (decl.type.tree :: decl.initializer.toList.map Expr.tree)

mutual

/-- The tree of a statement, below the node for its role. -/
def Stmt.tree : Stmt → NodeTree
  | .expression value span =>
      .mk ⟨.statement, span, .none⟩ [.mk ⟨.expressionStatement, span, .none⟩ [value.tree]]
  | .letDecl decl => .mk ⟨.statement, decl.span, .none⟩ [decl.tree]
  | .block statements span =>
      .mk ⟨.statement, span, .none⟩ [.mk ⟨.block, span, .none⟩ (Stmt.trees statements)]
  | .returning value span =>
      .mk ⟨.statement, span, .none⟩
        [.mk ⟨.returning, span, .none⟩ (value.toList.map Expr.tree)]

/-- The trees of several statements. -/
def Stmt.trees : List Stmt → List NodeTree
  | [] => []
  | first :: rest => first.tree :: Stmt.trees rest

end

/-- The tree of a parameter. -/
def Parameter.tree (parameter : Parameter) : NodeTree :=
  .mk ⟨.parameter, parameter.span, .name parameter.name.key⟩ [parameter.type.tree]

/-- The tree of a function declaration. -/
def FunDecl.tree (decl : FunDecl) : NodeTree :=
  .mk ⟨.funDecl, decl.span, .name decl.name.key⟩
    (decl.parameters.map Parameter.tree ++
      [decl.returnType.tree, .mk ⟨.block, decl.body.span, .none⟩ (Stmt.trees decl.body.statements)])

/-- The tree of a declaration, below the node for its role. -/
def Decl.tree : Decl → NodeTree
  | .funDecl decl => .mk ⟨.statement, decl.span, .none⟩ [decl.tree]
  | .letDecl decl => .mk ⟨.statement, decl.span, .none⟩ [decl.tree]

/-- The tree of a program. -/
def Program.tree (program : Program) : NodeTree :=
  .mk ⟨.program, program.span, .none⟩ (program.declarations.map Decl.tree)

end TypedLang
