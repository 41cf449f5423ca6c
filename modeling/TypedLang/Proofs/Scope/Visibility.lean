import TypedLang.Scope.Resolve

/-!
# Visibility

What an identifier means is decided by the place at which it stands and by nothing else. This module
states the rules without scopes, symbols or an order of events: a context lists the declarations
around a place, and a name means the first of them that the rules allow.

Statements that hold no statements are the leaves of a program. Each leaf knows its context, and the
identifiers in it share that context.
-/

namespace TypedLang

/-- What the rules of visibility know of a declaration. -/
structure Declaration where
  kind : SymbolKind
  name : Name
  type : WrittenType
  signature : Option Signature := none
  symbol : Option SymbolId
  deriving Repr, DecidableEq

namespace Declaration

/-- Whether a declaration is one of a given name. -/
def isNamed (key : Key) (declaration : Declaration) : Bool :=
  declaration.name.key == key

/-- The first of some declarations of a name. -/
def first? (declarations : List Declaration) (key : Key) : Option Declaration :=
  declarations.find? (isNamed key)

/-- The last of some declarations of a name. -/
def latest? (declarations : List Declaration) (key : Key) : Option Declaration :=
  declarations.reverse.find? (isNamed key)

/-- The symbol that stands for a declaration as long as no type is known. -/
def entry (declaration : Declaration) : Symbol where
  name := declaration.name.key
  span := declaration.name.span
  kind := declaration.kind
  signature := declaration.signature

end Declaration

/-- A variable as a declaration, global or local. -/
def LetDecl.declaration (kind : SymbolKind) (decl : LetDecl) : Declaration where
  kind := kind
  name := decl.name
  type := decl.type
  symbol := decl.symbol

/-- A parameter as a declaration. -/
def Parameter.declaration (parameter : Parameter) : Declaration where
  kind := .parameter
  name := parameter.name
  type := parameter.type
  symbol := parameter.symbol

/-- A function as a declaration. -/
def FunDecl.declaration (decl : FunDecl) : Declaration where
  kind := .function
  name := decl.name
  type := decl.returnType
  signature := some decl.signature
  symbol := decl.symbol

/-- One of the pieces of a function that enclose a place, with what it declares before that place. -/
inductive Level where
  | block (declared : List Declaration)
  | parameters (declared : List Declaration)
  deriving Repr, DecidableEq

namespace Level

/-- The declarations of a level. -/
def declarations : Level → List Declaration
  | block declared => declared
  | parameters declared => declared

/-- What a name means by one level: a variable gives way to later ones, a parameter does not. -/
def declaration? : Level → Key → Option Declaration
  | block declared => Declaration.latest? declared
  | parameters declared => Declaration.first? declared

end Level

/--
The declarations around a place: the levels from the innermost outwards, all functions of the
program, and the global variables before the place.
-/
structure Context where
  levels : List Level := []
  functions : List Declaration
  globals : List Declaration
  deriving Repr, DecidableEq

namespace Context

/-- The context inside one more level. -/
def enter (level : Level) (context : Context) : Context :=
  { context with levels := level :: context.levels }

/-- What a name means outside of all functions: a function, or else a variable. -/
def global? (context : Context) (key : Key) : Option Declaration :=
  (Declaration.first? context.functions key).or (Declaration.first? context.globals key)

/-- What a name means: the innermost level that declares it counts. -/
def declaration? (context : Context) (key : Key) : Option Declaration :=
  (context.levels.findSome? fun level => level.declaration? key).or (context.global? key)

/-- The declarations of all levels and the global ones. -/
def declarations (context : Context) : List Declaration :=
  context.levels.flatMap Level.declarations ++ context.functions ++ context.globals

end Context

/-- An identifier with its use and its place. -/
structure Occurrence where
  name : Name
  symbol : Option SymbolId
  use : Use
  context : Context
  deriving Repr, DecidableEq

/-- The declaration that an identifier means. -/
def Occurrence.declaration? (occurrence : Occurrence) : Option Declaration :=
  occurrence.context.declaration? occurrence.name.key

mutual

/-- The identifiers in an expression that stands in a context. -/
def Expr.occurrences (context : Context) (use : Use) : Expr → List Occurrence
  | .binary _ left right _ _ =>
      left.occurrences context .value ++ right.occurrences context .value
  | .unary _ operand _ _ => operand.occurrences context .value
  | .call callee arguments _ _ =>
      callee.occurrences context .callee ++ Expr.occurrencesOfAll context arguments
  | .grouping inner _ _ => inner.occurrences context .value
  | .literal _ _ _ => []
  | .identifier name symbol _ => [⟨name, symbol, use, context⟩]

/-- The identifiers in several values. -/
def Expr.occurrencesOfAll (context : Context) : List Expr → List Occurrence
  | [] => []
  | first :: rest => first.occurrences context .value ++ Expr.occurrencesOfAll context rest

end

mutual

/-- The callees of the calls in an expression. -/
def Expr.callees : Expr → List Expr
  | .binary _ left right _ _ => left.callees ++ right.callees
  | .unary _ operand _ _ => operand.callees
  | .call callee arguments _ _ => callee :: callee.callees ++ Expr.calleesOfAll arguments
  | .grouping inner _ _ => inner.callees
  | .literal _ _ _ => []
  | .identifier _ _ _ => []

/-- The callees of the calls in several expressions. -/
def Expr.calleesOfAll : List Expr → List Expr
  | [] => []
  | first :: rest => first.callees ++ Expr.calleesOfAll rest

end

/-- The statements that hold no statements; a return knows the type that its function states. -/
inductive LeafStatement where
  | expression (value : Expr)
  | letDecl (decl : LetDecl)
  | returning (value : Option Expr) (returnType : WrittenType)
  deriving Repr

/-- The value in a leaf statement, which a declaration or a return may lack. -/
def LeafStatement.value? : LeafStatement → Option Expr
  | expression value => some value
  | letDecl decl => decl.initializer
  | returning value _ => value

/-- A leaf of a program with its context. -/
structure Leaf where
  context : Context
  statement : LeafStatement
  deriving Repr

namespace Leaf

/-- The identifiers in a leaf. -/
def occurrences (leaf : Leaf) : List Occurrence :=
  leaf.statement.value?.toList.flatMap fun value => value.occurrences leaf.context .value

/-- The callees in a leaf. -/
def callees (leaf : Leaf) : List Expr :=
  leaf.statement.value?.toList.flatMap Expr.callees

end Leaf

/-- What a statement declares in the block that it stands in. -/
def Stmt.declares : Stmt → List Declaration
  | .letDecl decl => [decl.declaration .localVariable]
  | _ => []

mutual

/-- The leaves of a statement that stands in a context. -/
def Stmt.leaves (context : Context) (returnType : WrittenType) : Stmt → List Leaf
  | .expression value _ => [⟨context, .expression value⟩]
  | .letDecl decl => [⟨context, .letDecl decl⟩]
  | .block statements _ => Stmt.leavesOfAll context returnType [] statements
  | .returning value _ => [⟨context, .returning value returnType⟩]

/-- The leaves of the statements of a block, behind those that declared some variables. -/
def Stmt.leavesOfAll (outer : Context) (returnType : WrittenType) (locals : List Declaration) :
    List Stmt → List Leaf
  | [] => []
  | first :: rest =>
      first.leaves (outer.enter (.block locals)) returnType ++
        Stmt.leavesOfAll outer returnType (locals ++ first.declares) rest

end

/-- The leaves of a function, which sees the global declarations of a context. -/
def FunDecl.leaves (context : Context) (decl : FunDecl) : List Leaf :=
  Stmt.leavesOfAll (context.enter (.parameters (decl.parameters.map Parameter.declaration)))
    decl.returnType [] decl.body.statements

/-- The leaves of some declarations, behind those that declared some global variables. -/
def Decl.leavesOfAll (functions globals : List Declaration) : List Decl → List Leaf
  | [] => []
  | .funDecl decl :: rest =>
      decl.leaves { functions := functions, globals := globals } ++
        Decl.leavesOfAll functions globals rest
  | .letDecl decl :: rest =>
      ⟨{ functions := functions, globals := globals }, .letDecl decl⟩ ::
        Decl.leavesOfAll functions (globals ++ [decl.declaration .globalVariable]) rest

/-- The function that a declaration declares, if it is one of a function. -/
def Decl.function? : Decl → Option FunDecl
  | funDecl decl => some decl
  | letDecl _ => none

/-- The variable that a declaration declares, if it is one of a variable. -/
def Decl.variable? : Decl → Option LetDecl
  | funDecl _ => none
  | letDecl decl => some decl

namespace Program

/-- The functions of a program in order. -/
def functions (program : Program) : List FunDecl :=
  program.declarations.filterMap Decl.function?

/-- The global variables of a program in order. -/
def globals (program : Program) : List LetDecl :=
  program.declarations.filterMap Decl.variable?

/-- The leaves of a program in order. -/
def leaves (program : Program) : List Leaf :=
  Decl.leavesOfAll (program.functions.map FunDecl.declaration) [] program.declarations

/-- The identifiers of a program in order. -/
def occurrences (program : Program) : List Occurrence :=
  program.leaves.flatMap Leaf.occurrences

/-- The callees of all calls of a program. -/
def callees (program : Program) : List Expr :=
  program.leaves.flatMap Leaf.callees

end Program

end TypedLang
