import TypedLang.Scope.Resolve

/-!
# Guarded resolution

Resolution as a run performs it. Nothing is taken for granted here: the kind and the place of a
symbol are asked of the arena, which refuses a number that it did not give, and a scope is left by
closing it, which the global scope refuses. A value is judged by the symbol that its node carries in
the end, even if that is an old one; a callee is judged by what was found.
-/

namespace TypedLang

/-- The error of a name whose symbol does not suit its use. -/
def Name.kindErrors (source : SourceId) (use : Use) (name : Name) (kind : SymbolKind) :
    List ResolutionError :=
  if use.suits kind then []
  else [⟨source, name.span, .kindMismatch (some name.key) use.needed kind.name⟩]

/-- The symbol by which the use of an identifier is judged: an old one counts for values only. -/
def Use.judged (found old : Option SymbolId) : Use → Option SymbolId
  | value => found.or old
  | callee => found

/-- The errors of an identifier for which a symbol was found, or none. -/
def Name.tryUse (source : SourceId) (arena : Arena) (use : Use) (name : Name)
    (found old : Option SymbolId) : Except Fault (List ResolutionError) := do
  let missing := match found with
    | none => [⟨source, name.span, .symbolNotFound (some name.key)⟩]
    | some _ => []
  match use.judged found old with
  | none => pure missing
  | some id =>
      let symbol ← arena.get id
      pure (missing ++ name.kindErrors source use symbol.kind)

mutual

/-- An expression with its identifiers bound, and the errors in it from left to right. -/
def Expr.tryResolve (source : SourceId) (table : SymbolTable) (use : Use) :
    Expr → Except Fault (Expr × List ResolutionError)
  | .binary op left right span type => do
      let (left, leftErrors) ← left.tryResolve source table .value
      let (right, rightErrors) ← right.tryResolve source table .value
      pure (.binary op left right span type, leftErrors ++ rightErrors)
  | .unary op operand span type => do
      let (operand, errors) ← operand.tryResolve source table .value
      pure (.unary op operand span type, errors)
  | .call callee arguments span type => do
      let (resolved, calleeErrors) ← callee.tryResolve source table .callee
      let (arguments, argumentErrors) ← Expr.tryResolveAll source table arguments
      pure (.call resolved arguments span type,
        calleeErrors ++ callee.calleeErrors source ++ argumentErrors)
  | .grouping inner span type => do
      let (inner, errors) ← inner.tryResolve source table .value
      pure (.grouping inner span type, errors)
  | .literal value span type => pure (.literal value span type, [])
  | .identifier name symbol type => do
      let found := (table.scopes.lookup name.key).map Binding.id
      let errors ← name.tryUse source table.arena use found symbol
      pure (.identifier name (found.or symbol) type, errors)

/-- Several values with their identifiers bound, and the errors in them. -/
def Expr.tryResolveAll (source : SourceId) (table : SymbolTable) :
    List Expr → Except Fault (List Expr × List ResolutionError)
  | [] => pure ([], [])
  | first :: rest => do
      let (first, firstErrors) ← first.tryResolve source table .value
      let (rest, restErrors) ← Expr.tryResolveAll source table rest
      pure (first :: rest, firstErrors ++ restErrors)

end

/-- A value that may lack, with its identifiers bound, and the errors in it. -/
def Expr.tryResolveOption (source : SourceId) (table : SymbolTable) :
    Option Expr → Except Fault (Option Expr × List ResolutionError)
  | none => pure (none, [])
  | some value => do
      let (value, errors) ← value.tryResolve source table .value
      pure (some value, errors)

/-- Declares a symbol; the place of an earlier one is asked of the arena. -/
def SymbolTable.tryInsert (table : SymbolTable) (symbol : Symbol) (shadow : Bool) :
    Except Fault (Except Redeclaration SymbolId × SymbolTable) :=
  match shadow, table.scopes.innermost.find? symbol.name with
  | false, some binding => do
      let earlier ← table.arena.get binding.id
      pure (.error ⟨symbol.name, earlier.span, symbol.span⟩, table)
  | _, _ => pure ((table.declare symbol).map .ok id)

namespace Resolved

variable {Piece : Type}

/-- Resolves pieces one after the other, each with the table that the one before it left. -/
def tryAll (resolve : SymbolTable → Piece → Except Fault (Resolved Piece)) (table : SymbolTable) :
    List Piece → Except Fault (Resolved (List Piece))
  | [] => pure ⟨[], table, []⟩
  | first :: rest => do
      let first ← resolve table first
      let rest ← tryAll resolve first.table rest
      pure ((rest.map (first.piece :: ·)).after first.errors)

/-- Declares a symbol and tells its number to the piece. -/
def tryDeclaring (source : SourceId) (table : SymbolTable) (symbol : Symbol) (shadow : Bool)
    (previous : Option SymbolId) (piece : Option SymbolId → Piece) :
    Except Fault (Resolved Piece) := do
  match ← table.tryInsert symbol shadow with
  | (.ok id, table) => pure ⟨piece (some id), table, []⟩
  | (.error conflict, table) => pure ⟨piece previous, table, [conflict.error source]⟩

/-- Closes the innermost scope behind a piece. -/
def exit (resolved : Resolved Piece) : Except Fault (Resolved Piece) := do
  let table ← resolved.table.exit
  pure { resolved with table := table }

end Resolved

/-- A variable declaration, resolved. -/
def LetDecl.tryResolve (source : SourceId) (table : SymbolTable) (decl : LetDecl) :
    Except Fault (Resolved LetDecl) := do
  let (initializer, errors) ← Expr.tryResolveOption source table decl.initializer
  let isGlobal := table.scopes.isGlobal
  let kind : SymbolKind := if isGlobal then .globalVariable else .localVariable
  let resolved ← Resolved.tryDeclaring source table
    { name := decl.name.key, span := decl.name.span, kind := kind } (!isGlobal) decl.symbol
    fun symbol => { decl with initializer := initializer, symbol := symbol }
  pure (resolved.after errors)

mutual

/-- A statement, resolved. -/
def Stmt.tryResolve (source : SourceId) (table : SymbolTable) :
    Stmt → Except Fault (Resolved Stmt)
  | .expression value span => do
      let (value, errors) ← value.tryResolve source table .value
      pure ⟨.expression value span, table, errors⟩
  | .letDecl decl => do
      let resolved ← decl.tryResolve source table
      pure (resolved.map .letDecl)
  | .block statements span => do
      let inside ← Stmt.tryResolveAll source table.enter statements
      (inside.map fun statements => Stmt.block statements span).exit
  | .returning value span => do
      let (value, errors) ← Expr.tryResolveOption source table value
      pure ⟨.returning value span, table, errors⟩

/-- Statements in order, resolved. -/
def Stmt.tryResolveAll (source : SourceId) (table : SymbolTable) :
    List Stmt → Except Fault (Resolved (List Stmt))
  | [] => pure ⟨[], table, []⟩
  | first :: rest => do
      let first ← first.tryResolve source table
      let rest ← Stmt.tryResolveAll source first.table rest
      pure ((rest.map (first.piece :: ·)).after first.errors)

end

/-- A parameter, resolved. -/
def Parameter.tryResolve (source : SourceId) (table : SymbolTable) (parameter : Parameter) :
    Except Fault (Resolved Parameter) :=
  Resolved.tryDeclaring source table
    { name := parameter.name.key, span := parameter.name.span, kind := .parameter } false
    parameter.symbol fun symbol => { parameter with symbol := symbol }

/-- The parameters and the body of a function, each resolved in a scope of its own. -/
def FunDecl.tryResolve (source : SourceId) (table : SymbolTable) (decl : FunDecl) :
    Except Fault (Resolved FunDecl) := do
  let parameters ← Resolved.tryAll (Parameter.tryResolve source) table.enter decl.parameters
  let inside ← Stmt.tryResolveAll source parameters.table.enter decl.body.statements
  let body ← inside.exit
  ((body.map fun statements =>
    { decl with
      parameters := parameters.piece
      body := { decl.body with statements := statements } }).after parameters.errors).exit

/-- A declaration of a function, declared ahead of all bodies. -/
def Decl.tryDeclareFunction (source : SourceId) (table : SymbolTable) :
    Decl → Except Fault (Resolved Decl)
  | .funDecl decl =>
      Resolved.tryDeclaring source table
        { name := decl.name.key, span := decl.name.span, kind := .function,
          signature := some decl.signature }
        false decl.symbol fun symbol => .funDecl { decl with symbol := symbol }
  | .letDecl decl => pure ⟨.letDecl decl, table, []⟩

/-- A declaration, resolved after all functions are declared. -/
def Decl.tryResolve (source : SourceId) (table : SymbolTable) : Decl → Except Fault (Resolved Decl)
  | .funDecl decl => do
      let resolved ← decl.tryResolve source table
      pure (resolved.map .funDecl)
  | .letDecl decl => do
      let resolved ← decl.tryResolve source table
      pure (resolved.map .letDecl)

/-- A program, resolved; its symbols are added to the arena. -/
def Program.tryResolve (program : Program) (arena : Arena) : Except Fault Resolution := do
  let declared ← Resolved.tryAll (Decl.tryDeclareFunction program.source) (.ofArena arena)
    program.declarations
  let resolved ← Resolved.tryAll (Decl.tryResolve program.source) declared.table declared.piece
  pure ⟨{ program with declarations := resolved.piece }, resolved.table.arena,
    declared.errors ++ resolved.errors⟩

end TypedLang
