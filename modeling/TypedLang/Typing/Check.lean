import TypedLang.Program.Symbols
import TypedLang.Scope.Symbol
import TypedLang.Typing.Error

/-!
# Type checking

Checking gives every expression its type, from the leaves to the root, and every symbol the type
that its declaration states. The first violation in a statement ends the check of that statement;
the nodes above it keep the type that they had, which is none in a fresh tree. The statements
behind it are checked all the same.

A call takes its types from the signature of the function and not from the type of its symbol, so
that a function may be called before its declaration was checked.
-/

namespace TypedLang

/-- The type of a binary operation, if its operands are allowed. -/
def BinaryOp.result? : BinaryOp → (left right : Ty) → Option Ty
  | equality _, left, right => left.equality? right
  | comparison _, left, right => left.comparison? right
  | term _, left, right => left.arithmetic? right
  | factor _, left, right => left.arithmetic? right

/-- The type of a unary operation, if its operand is allowed. -/
def UnaryOp.result? : UnaryOp → Ty → Option Ty
  | negate, operand => operand.negation?
  | complement, operand => operand.complement?

/-- The type of a literal, which a string lacks. -/
def Literal.type? : Literal → Option Ty
  | integer value => some (.ofInteger value)
  | decimal value => some (.ofDecimal value)
  | string _ => none
  | boolean _ => some .boolean

/-- The signature of the function that an expression names, if it names one. -/
def Expr.signature? (arena : Arena) : Expr → Option Signature
  | .identifier _ (some id) _ => (arena.get? id).bind Symbol.signature
  | _ => none

/-- The type of the variable that a name is bound to. -/
def Name.variableType (source : SourceId) (arena : Arena) (name : Name) (symbol : Option SymbolId) :
    Except TypeError Ty :=
  match symbol.bind arena.get? with
  | none => .error ⟨source, name.span, .missingSymbol⟩
  | some symbol =>
      match symbol.type with
      | none => .error ⟨source, name.span, .missingType⟩
      | some type => .ok type

/-- The error of a value whose type does not suit a declaration. -/
def WrittenType.mismatch (source : SourceId) (written : WrittenType) (span : Span)
    (got : Ty) : TypeError :=
  ⟨source, span, .mismatch (some written.type) (some got) (some written.span)⟩

/-- The first argument that cannot be assigned to its parameter. -/
def Signature.argumentError? (source : SourceId) :
    List WrittenType → List Expr → List Ty → Option TypeError
  | parameter :: parameters, argument :: arguments, type :: types =>
      if type.isAssignable parameter.type then
        argumentError? source parameters arguments types
      else some (parameter.mismatch source argument.span type)
  | _, _, _ => none

/-- The error of a call with given arguments: their number counts before their types. -/
def Signature.callError? (source : SourceId) (signature : Signature) (span : Span)
    (arguments : List Expr) (types : List Ty) : Option TypeError :=
  if types.length ≠ signature.parameters.length then
    some ⟨source, span,
      .arity signature.parameters.length types.length (some signature.name.span)⟩
  else argumentError? source signature.parameters arguments types

mutual

/-- An expression with the types found in it, and its own type or its first violation. -/
def Expr.check (source : SourceId) (arena : Arena) : Expr → Expr × Except TypeError Ty
  | .binary op left right span type =>
      match left.check source arena with
      | (left, .error error) => (.binary op left right span type, .error error)
      | (left, .ok leftType) =>
          match right.check source arena with
          | (right, .error error) => (.binary op left right span type, .error error)
          | (right, .ok rightType) =>
              match op.result? leftType rightType with
              | none =>
                  (.binary op left right span type,
                    .error ⟨source, span,
                      .invalidBinary op.spelling (some leftType) (some rightType)⟩)
              | some result => (.binary op left right span (some result), .ok result)
  | .unary op operand span type =>
      match operand.check source arena with
      | (operand, .error error) => (.unary op operand span type, .error error)
      | (operand, .ok operandType) =>
          match op.result? operandType with
          | none =>
              (.unary op operand span type,
                .error ⟨source, span, .invalidUnary op.spelling (some operandType)⟩)
          | some result => (.unary op operand span (some result), .ok result)
  | .call callee arguments span type =>
      match callee.signature? arena with
      | none =>
          (.call callee arguments span type, .error ⟨source, callee.span, .missingSymbol⟩)
      | some signature =>
          let result := signature.returnType.type
          let callee := callee.withType (some result)
          match Expr.checkAll source arena arguments with
          | (arguments, .error error) => (.call callee arguments span type, .error error)
          | (arguments, .ok types) =>
              match signature.callError? source span arguments types with
              | some error => (.call callee arguments span type, .error error)
              | none => (.call callee arguments span (some result), .ok result)
  | .grouping inner span type =>
      match inner.check source arena with
      | (inner, .error error) => (.grouping inner span type, .error error)
      | (inner, .ok result) => (.grouping inner span (some result), .ok result)
  | .literal value span type =>
      match value.type? with
      | none => (.literal value span type, .error ⟨source, span, .unsupportedLiteral⟩)
      | some result => (.literal value span (some result), .ok result)
  | .identifier name symbol type =>
      match name.variableType source arena symbol with
      | .error error => (.identifier name symbol type, .error error)
      | .ok result => (.identifier name symbol (some result), .ok result)

/-- Several expressions with the types found in them, and their types or the first violation. -/
def Expr.checkAll (source : SourceId) (arena : Arena) :
    List Expr → List Expr × Except TypeError (List Ty)
  | [] => ([], .ok [])
  | first :: rest =>
      match first.check source arena with
      | (first, .error error) => (first :: rest, .error error)
      | (first, .ok type) =>
          match Expr.checkAll source arena rest with
          | (rest, .error error) => (first :: rest, .error error)
          | (rest, .ok types) => (first :: rest, .ok (type :: types))

end

/-- A piece of a tree after checking, the symbols with their types and the errors in it. -/
structure Checked (Piece : Type) where
  piece : Piece
  arena : Arena
  errors : List TypeError
  deriving Repr

namespace Checked

variable {Piece Other : Type}

/-- A checked piece inside a larger one. -/
def map (convert : Piece → Other) (checked : Checked Piece) : Checked Other :=
  ⟨convert checked.piece, checked.arena, checked.errors⟩

/-- A checked piece behind errors that were met before. -/
def after (errors : List TypeError) (checked : Checked Piece) : Checked Piece :=
  { checked with errors := errors ++ checked.errors }

/-- Checks pieces one after the other, each with the symbols that the one before it left. -/
def all (check : Arena → Piece → Checked Piece) (arena : Arena) : List Piece → Checked (List Piece)
  | [] => ⟨[], arena, []⟩
  | first :: rest =>
      let first := check arena first
      ((all check first.arena rest).map (first.piece :: ·)).after first.errors

end Checked

/-- The symbols after a declaration was given its type, or the defect that prevents it. -/
def Arena.declareType (source : SourceId) (arena : Arena) (symbol : Option SymbolId) (span : Span)
    (type : Ty) : Except TypeError Arena :=
  match symbol with
  | none => .error ⟨source, span, .missingSymbol⟩
  | some id =>
      match arena.assignType id type with
      | (true, arena) => .ok arena
      | (false, _) => .error ⟨source, span, .typeAlreadyAssigned⟩

/-- A variable declaration, checked: its type counts even if its initializer is wrong. -/
def LetDecl.check (source : SourceId) (arena : Arena) (decl : LetDecl) : Checked LetDecl :=
  match arena.declareType source decl.symbol decl.name.span decl.type.type with
  | .error error => ⟨decl, arena, [error]⟩
  | .ok arena =>
      match decl.initializer with
      | none => ⟨decl, arena, []⟩
      | some value =>
          match value.check source arena with
          | (value, .error error) => ⟨{ decl with initializer := some value }, arena, [error]⟩
          | (value, .ok type) =>
              let errors :=
                if type.isAssignable decl.type.type then []
                else [decl.type.mismatch source value.span type]
              ⟨{ decl with initializer := some value }, arena, errors⟩

/-- The error of a value, if it has one. -/
def TypeError.ofResult : Except TypeError Ty → List TypeError
  | .error error => [error]
  | .ok _ => []

/-- The errors of a returned value, whose type has to be exactly the one that is declared. -/
def WrittenType.returnErrors (source : SourceId) (returnType : WrittenType) (span : Span) :
    Except TypeError Ty → List TypeError
  | .error error => [error]
  | .ok type => if type = returnType.type then [] else [returnType.mismatch source span type]

mutual

/-- A statement in a function of a given return type, checked. -/
def Stmt.check (source : SourceId) (returnType : WrittenType) (arena : Arena) :
    Stmt → Checked Stmt
  | .expression value span =>
      let (value, result) := value.check source arena
      ⟨.expression value span, arena, TypeError.ofResult result⟩
  | .letDecl decl => (decl.check source arena).map .letDecl
  | .block statements span =>
      (Stmt.checkAll source returnType arena statements).map fun statements =>
        .block statements span
  | .returning none span => ⟨.returning none span, arena, []⟩
  | .returning (some value) span =>
      let (value, result) := value.check source arena
      ⟨.returning (some value) span, arena, returnType.returnErrors source value.span result⟩

/-- Statements in order, checked. -/
def Stmt.checkAll (source : SourceId) (returnType : WrittenType) (arena : Arena) :
    List Stmt → Checked (List Stmt)
  | [] => ⟨[], arena, []⟩
  | first :: rest =>
      let first := first.check source returnType arena
      ((Stmt.checkAll source returnType first.arena rest).map (first.piece :: ·)).after first.errors

end

/-- The symbols after parameters were given their types in order, up to the first defect. -/
def Parameter.declareTypes (source : SourceId) (arena : Arena) :
    List Parameter → Arena × Option TypeError
  | [] => (arena, none)
  | first :: rest =>
      match arena.declareType source first.symbol first.name.span first.type.type with
      | .error error => (arena, some error)
      | .ok arena => declareTypes source arena rest

/-- A function declaration, checked; a defect in its header ends the check of all of it. -/
def FunDecl.check (source : SourceId) (arena : Arena) (decl : FunDecl) : Checked FunDecl :=
  match arena.declareType source decl.symbol decl.name.span decl.returnType.type with
  | .error error => ⟨decl, arena, [error]⟩
  | .ok arena =>
      match Parameter.declareTypes source arena decl.parameters with
      | (arena, some error) => ⟨decl, arena, [error]⟩
      | (arena, none) =>
          (Stmt.checkAll source decl.returnType arena decl.body.statements).map fun statements =>
            { decl with body := { decl.body with statements := statements } }

/-- A declaration, checked. -/
def Decl.check (source : SourceId) (arena : Arena) : Decl → Checked Decl
  | .funDecl decl => (decl.check source arena).map .funDecl
  | .letDecl decl => (decl.check source arena).map .letDecl

/-- A program, checked, all of whose symbols are known to the arena. -/
def Program.checkKnown (program : Program) (arena : Arena) : Checked Program :=
  (Checked.all (Decl.check program.source) arena program.declarations).map fun declarations =>
    { program with declarations := declarations }

/-- A program, checked; refused if it is bound to a symbol that the arena does not know. -/
def Program.check (program : Program) (arena : Arena) : Except Fault (Checked Program) :=
  if program.symbols.all (· < arena.size) then .ok (program.checkKnown arena)
  else .error .unknownSymbol

end TypedLang
