import TypedLang.Scope.Error
import TypedLang.Scope.Table

/-!
# Name resolution

Resolution binds every declaration to a new symbol and every identifier to the symbol of the
declaration that it means. Functions are declared first, so that every body sees all of them; all
other declarations are visible from their own end on. A global name is declared once, and so is a
parameter; a local variable may take over a name, even in its own block.

Errors are collected and resolution goes on: a declaration that is refused and an identifier that is
not found keep the symbol that they had, which is none in a fresh tree.
-/

namespace TypedLang

/-- The use of an expression: as a value, or as the callee of a call. -/
inductive Use where
  | value | callee
  deriving Repr, DecidableEq

namespace Use

/-- Whether a symbol of some kind suits a use. -/
def suits : Use → SymbolKind → Bool
  | value, kind => kind.isVariable
  | callee, kind => !kind.isVariable

/-- What is needed for a use, in messages. -/
def needed : Use → String
  | value => "variable"
  | callee => "function"

end Use

/-- The errors of an identifier with a given binding. -/
def Name.useErrors (source : SourceId) (use : Use) (name : Name) :
    Option Binding → List ResolutionError
  | none => [⟨source, name.span, .symbolNotFound (some name.key)⟩]
  | some binding =>
      if use.suits binding.kind then []
      else [⟨source, name.span, .kindMismatch (some name.key) use.needed binding.kind.name⟩]

/-- The error of a callee that is no identifier and so denotes no function. -/
def Expr.calleeErrors (source : SourceId) : Expr → List ResolutionError
  | .identifier _ _ _ => []
  | callee => [⟨source, callee.span, .kindMismatch none "function" "an expression"⟩]

mutual

/-- An expression with its identifiers bound, and the errors in it from left to right. -/
def Expr.resolve (source : SourceId) (scopes : ScopeStack) (use : Use) :
    Expr → Expr × List ResolutionError
  | .binary op left right span type =>
      let (left, leftErrors) := left.resolve source scopes .value
      let (right, rightErrors) := right.resolve source scopes .value
      (.binary op left right span type, leftErrors ++ rightErrors)
  | .unary op operand span type =>
      let (operand, errors) := operand.resolve source scopes .value
      (.unary op operand span type, errors)
  | .call callee arguments span type =>
      let (resolved, calleeErrors) := callee.resolve source scopes .callee
      let (arguments, argumentErrors) := Expr.resolveAll source scopes arguments
      (.call resolved arguments span type,
        calleeErrors ++ callee.calleeErrors source ++ argumentErrors)
  | .grouping inner span type =>
      let (inner, errors) := inner.resolve source scopes .value
      (.grouping inner span type, errors)
  | .literal value span type => (.literal value span type, [])
  | .identifier name symbol type =>
      let binding := scopes.lookup name.key
      (.identifier name ((binding.map Binding.id).or symbol) type,
        name.useErrors source use binding)

/-- Several values with their identifiers bound, and the errors in them. -/
def Expr.resolveAll (source : SourceId) (scopes : ScopeStack) :
    List Expr → List Expr × List ResolutionError
  | [] => ([], [])
  | first :: rest =>
      let (first, firstErrors) := first.resolve source scopes .value
      let (rest, restErrors) := Expr.resolveAll source scopes rest
      (first :: rest, firstErrors ++ restErrors)

end

/-- A value that may lack, with its identifiers bound, and the errors in it. -/
def Expr.resolveOption (source : SourceId) (scopes : ScopeStack) :
    Option Expr → Option Expr × List ResolutionError
  | none => (none, [])
  | some value =>
      let (value, errors) := value.resolve source scopes .value
      (some value, errors)

/-- The error of a refused declaration. -/
def Redeclaration.error (source : SourceId) (conflict : Redeclaration) : ResolutionError :=
  ⟨source, conflict.other, .nameAlreadyUsed (some conflict.name) (some conflict.earlier)⟩

/-- A piece of a tree after resolution, the symbol table behind it and the errors in it. -/
structure Resolved (Piece : Type) where
  piece : Piece
  table : SymbolTable
  errors : List ResolutionError

namespace Resolved

variable {Piece Other : Type}

/-- A resolved piece inside a larger one. -/
def map (convert : Piece → Other) (resolved : Resolved Piece) : Resolved Other :=
  ⟨convert resolved.piece, resolved.table, resolved.errors⟩

/-- A resolved piece behind errors that were met before. -/
def after (errors : List ResolutionError) (resolved : Resolved Piece) : Resolved Piece :=
  { resolved with errors := errors ++ resolved.errors }

/-- A resolved piece whose scopes are closed down to those that were open before it. -/
def closing (scopes : ScopeStack) (resolved : Resolved Piece) : Resolved Piece :=
  { resolved with table := { resolved.table with scopes := scopes } }

/-- Resolves pieces one after the other, each with the table that the one before it left. -/
def all (resolve : SymbolTable → Piece → Resolved Piece) (table : SymbolTable) :
    List Piece → Resolved (List Piece)
  | [] => ⟨[], table, []⟩
  | first :: rest =>
      let first := resolve table first
      ((all resolve first.table rest).map (first.piece :: ·)).after first.errors

/--
Declares a symbol. The piece is told the number of the symbol, or the number that it had before if
the declaration is refused.
-/
def declaring (source : SourceId) (table : SymbolTable) (symbol : Symbol) (shadow : Bool)
    (previous : Option SymbolId) (piece : Option SymbolId → Piece) : Resolved Piece :=
  match table.insert symbol shadow with
  | (.ok id, table) => ⟨piece (some id), table, []⟩
  | (.error conflict, table) => ⟨piece previous, table, [conflict.error source]⟩

end Resolved

/-- A variable declaration, resolved: its initializer does not see the variable. -/
def LetDecl.resolve (source : SourceId) (table : SymbolTable) (decl : LetDecl) :
    Resolved LetDecl :=
  let (initializer, errors) := Expr.resolveOption source table.scopes decl.initializer
  let isGlobal := table.scopes.isGlobal
  let kind : SymbolKind := if isGlobal then .globalVariable else .localVariable
  (Resolved.declaring source table { name := decl.name.key, span := decl.name.span, kind := kind }
    (!isGlobal) decl.symbol
    fun symbol => { decl with initializer := initializer, symbol := symbol }).after errors

mutual

/-- A statement, resolved. -/
def Stmt.resolve (source : SourceId) (table : SymbolTable) : Stmt → Resolved Stmt
  | .expression value span =>
      let (value, errors) := value.resolve source table.scopes .value
      ⟨.expression value span, table, errors⟩
  | .letDecl decl => (decl.resolve source table).map .letDecl
  | .block statements span =>
      ((Stmt.resolveAll source table.enter statements).map fun statements =>
        Stmt.block statements span).closing table.scopes
  | .returning value span =>
      let (value, errors) := Expr.resolveOption source table.scopes value
      ⟨.returning value span, table, errors⟩

/-- Statements in order, resolved. -/
def Stmt.resolveAll (source : SourceId) (table : SymbolTable) : List Stmt → Resolved (List Stmt)
  | [] => ⟨[], table, []⟩
  | first :: rest =>
      let first := first.resolve source table
      ((Stmt.resolveAll source first.table rest).map (first.piece :: ·)).after first.errors

end

/-- A parameter, resolved. -/
def Parameter.resolve (source : SourceId) (table : SymbolTable) (parameter : Parameter) :
    Resolved Parameter :=
  Resolved.declaring source table
    { name := parameter.name.key, span := parameter.name.span, kind := .parameter } false
    parameter.symbol fun symbol => { parameter with symbol := symbol }

/-- The parameters and the body of a function, resolved in scopes of their own. -/
def FunDecl.resolve (source : SourceId) (table : SymbolTable) (decl : FunDecl) :
    Resolved FunDecl :=
  let parameters := Resolved.all (Parameter.resolve source) table.enter decl.parameters
  let body := Stmt.resolveAll source parameters.table.enter decl.body.statements
  ((body.map fun statements =>
    { decl with
      parameters := parameters.piece
      body := { decl.body with statements := statements } }).after parameters.errors).closing
    table.scopes

/-- A declaration of a function, declared ahead of all bodies; any other one is left for later. -/
def Decl.declareFunction (source : SourceId) (table : SymbolTable) : Decl → Resolved Decl
  | .funDecl decl =>
      Resolved.declaring source table
        { name := decl.name.key, span := decl.name.span, kind := .function,
          signature := some decl.signature }
        false decl.symbol fun symbol => .funDecl { decl with symbol := symbol }
  | .letDecl decl => ⟨.letDecl decl, table, []⟩

/-- A declaration, resolved after all functions are declared. -/
def Decl.resolve (source : SourceId) (table : SymbolTable) : Decl → Resolved Decl
  | .funDecl decl => (decl.resolve source table).map .funDecl
  | .letDecl decl => (decl.resolve source table).map .letDecl

/-- A program after resolution, with all symbols and all errors. -/
structure Resolution where
  program : Program
  arena : Arena
  errors : List ResolutionError
  deriving Repr

/-- A program, resolved; its symbols are added to the arena. -/
def Program.resolve (program : Program) (arena : Arena) : Resolution :=
  let declared := Resolved.all (Decl.declareFunction program.source) (.ofArena arena)
    program.declarations
  let resolved := Resolved.all (Decl.resolve program.source) declared.table declared.piece
  ⟨{ program with declarations := resolved.piece }, resolved.table.arena,
    declared.errors ++ resolved.errors⟩

end TypedLang
