import TypedLang.Source
import TypedLang.Token

/-!
# Programs

The syntax tree of a program. A program is a sequence of declarations, of functions and of global
variables; a function body is a block of statements. Every node knows its span. Two kinds of
annotations are empty in a fresh tree: the symbol of a name and of a declaration, which name
resolution fills in, and the type of an expression, which type checking fills in.
-/

namespace TypedLang

/-- The number of a symbol in its arena. -/
abbrev SymbolId := Nat

/-- A name at its place. -/
structure Name where
  key : Key
  span : Span
  deriving Repr, DecidableEq

/-- A type at the place where it is written. -/
structure WrittenType where
  type : Ty
  span : Span
  deriving Repr, DecidableEq

/-- Tests for equality. -/
inductive EqualityOp where
  | equal | notEqual
  deriving Repr, DecidableEq

/-- Comparisons by size. -/
inductive ComparisonOp where
  | less | lessEqual | greater | greaterEqual
  deriving Repr, DecidableEq

/-- Sums and differences. -/
inductive TermOp where
  | add | subtract
  deriving Repr, DecidableEq

/-- Products and quotients. -/
inductive FactorOp where
  | multiply | divide
  deriving Repr, DecidableEq

/-- The binary operators, from the loosest to the tightest level. -/
inductive BinaryOp where
  | equality (op : EqualityOp)
  | comparison (op : ComparisonOp)
  | term (op : TermOp)
  | factor (op : FactorOp)
  deriving Repr, DecidableEq

namespace BinaryOp

/-- The mark that writes an operator. -/
def mark : BinaryOp → Punct
  | equality .equal => .equalEqual
  | equality .notEqual => .bangEqual
  | comparison .less => .less
  | comparison .lessEqual => .lessEqual
  | comparison .greater => .greater
  | comparison .greaterEqual => .greaterEqual
  | term .add => .plus
  | term .subtract => .minus
  | factor .multiply => .star
  | factor .divide => .slash

/-- An operator as it is written. -/
def spelling (op : BinaryOp) : String :=
  op.mark.spelling

/-- The name of the level of an operator. -/
def levelName : BinaryOp → String
  | equality _ => "Equality"
  | comparison _ => "Comparison"
  | term _ => "Term"
  | factor _ => "Factor"

end BinaryOp

/-- The unary operators. -/
inductive UnaryOp where
  | negate | complement
  deriving Repr, DecidableEq

namespace UnaryOp

/-- The mark that writes an operator. -/
def mark : UnaryOp → Punct
  | negate => .minus
  | complement => .bang

/-- An operator as it is written. -/
def spelling (op : UnaryOp) : String :=
  op.mark.spelling

end UnaryOp

/-- The value of a literal. -/
inductive Literal where
  | integer (value : UInt64)
  | decimal (value : Binary64)
  | string (key : Key)
  | boolean (value : Bool)
  deriving Repr, DecidableEq

/-- Expressions, each with its type once that is known. -/
inductive Expr where
  | binary (op : BinaryOp) (left right : Expr) (span : Span) (type : Option Ty)
  | unary (op : UnaryOp) (operand : Expr) (span : Span) (type : Option Ty)
  | call (callee : Expr) (arguments : List Expr) (span : Span) (type : Option Ty)
  | grouping (inner : Expr) (span : Span) (type : Option Ty)
  | literal (value : Literal) (span : Span) (type : Option Ty)
  | identifier (name : Name) (symbol : Option SymbolId) (type : Option Ty)
  deriving Repr

namespace Expr

/-- The span of an expression. -/
def span : Expr → Span
  | binary _ _ _ span _ => span
  | unary _ _ span _ => span
  | call _ _ span _ => span
  | grouping _ span _ => span
  | literal _ span _ => span
  | identifier name _ _ => name.span

/-- The type of an expression, once it is known. -/
def type : Expr → Option Ty
  | binary _ _ _ _ type => type
  | unary _ _ _ type => type
  | call _ _ _ type => type
  | grouping _ _ type => type
  | literal _ _ type => type
  | identifier _ _ type => type

/-- An expression with another type at its root. -/
def withType (type : Option Ty) : Expr → Expr
  | binary op left right span _ => binary op left right span type
  | unary op operand span _ => unary op operand span type
  | call callee arguments span _ => call callee arguments span type
  | grouping inner span _ => grouping inner span type
  | literal value span _ => literal value span type
  | identifier name symbol _ => identifier name symbol type

end Expr

/-- The declaration of a variable. -/
structure LetDecl where
  name : Name
  type : WrittenType
  initializer : Option Expr
  symbol : Option SymbolId
  span : Span
  deriving Repr

/-- A parameter of a function. -/
structure Parameter where
  name : Name
  type : WrittenType
  symbol : Option SymbolId
  span : Span
  deriving Repr, DecidableEq

/-- The statements of a function body. -/
inductive Stmt where
  | expression (value : Expr) (span : Span)
  | letDecl (decl : LetDecl)
  | block (statements : List Stmt) (span : Span)
  | returning (value : Option Expr) (span : Span)
  deriving Repr

/-- A sequence of statements between braces. -/
structure Block where
  statements : List Stmt
  span : Span
  deriving Repr

/-- The declaration of a function. -/
structure FunDecl where
  name : Name
  parameters : List Parameter
  returnType : WrittenType
  body : Block
  symbol : Option SymbolId
  span : Span
  deriving Repr

/-- What callers know of a function: where it is, what it takes and what it returns. -/
structure Signature where
  name : Name
  parameters : List WrittenType
  returnType : WrittenType
  span : Span
  deriving Repr, DecidableEq

/-- The signature of a declared function. -/
def FunDecl.signature (decl : FunDecl) : Signature :=
  ⟨decl.name, decl.parameters.map Parameter.type, decl.returnType, decl.span⟩

/-- The declarations of a program. -/
inductive Decl where
  | funDecl (decl : FunDecl)
  | letDecl (decl : LetDecl)
  deriving Repr

/-- The span of a declaration. -/
def Decl.span : Decl → Span
  | funDecl decl => decl.span
  | letDecl decl => decl.span

/-- The span of a statement. -/
def Stmt.span : Stmt → Span
  | expression _ span => span
  | letDecl decl => decl.span
  | block _ span => span
  | returning _ span => span

/-- A program: the declarations of one source. -/
structure Program where
  declarations : List Decl
  source : SourceId
  span : Span
  deriving Repr

end TypedLang
