import TypedLang.Scope.Symbol

/-!
# Symbol tables

A symbol table is a stack of scopes over an arena. A scope binds names to symbols; a name is
looked up from the innermost scope outwards, and within a scope the latest binding counts. The
global scope at the bottom of the stack is never left.
-/

namespace TypedLang

/-- A symbol that a name is bound to. -/
structure Binding where
  name : Key
  id : SymbolId
  span : Span
  kind : SymbolKind
  deriving Repr, DecidableEq

/-- The bindings of one scope, the latest first. -/
abbrev Scope := List Binding

/-- The latest binding of a name in a scope. -/
def Scope.find? (scope : Scope) (name : Key) : Option Binding :=
  List.find? (fun binding => binding.name == name) scope

/-- The open scopes, the innermost one apart from those around it. -/
structure ScopeStack where
  innermost : Scope := []
  enclosing : List Scope := []
  deriving Repr, DecidableEq

namespace ScopeStack

/-- The global scope alone. -/
def empty : ScopeStack := {}

/-- Whether only the global scope is open. -/
def isGlobal (scopes : ScopeStack) : Bool :=
  scopes.enclosing.isEmpty

/-- Opens a scope without bindings. -/
def enter (scopes : ScopeStack) : ScopeStack :=
  ⟨[], scopes.innermost :: scopes.enclosing⟩

/-- Closes the innermost scope, refused for the global one. -/
def exit (scopes : ScopeStack) : Except Fault ScopeStack :=
  match scopes.enclosing with
  | [] => .error .exitGlobalScope
  | outer :: rest => .ok ⟨outer, rest⟩

/-- The binding that a name has in the innermost scope that binds it. -/
def lookup (scopes : ScopeStack) (name : Key) : Option Binding :=
  (scopes.innermost :: scopes.enclosing).findSome? fun scope => scope.find? name

/-- Binds a name in the innermost scope. -/
def bind (scopes : ScopeStack) (binding : Binding) : ScopeStack :=
  { scopes with innermost := binding :: scopes.innermost }

end ScopeStack

/-- A declaration that was refused because its scope binds the name already. -/
structure Redeclaration where
  name : Key
  earlier : Span
  other : Span
  deriving Repr, DecidableEq

/-- Open scopes over an arena. -/
structure SymbolTable where
  arena : Arena := {}
  scopes : ScopeStack := {}
  deriving Repr, DecidableEq

namespace SymbolTable

/-- A table with only the global scope open. -/
def ofArena (arena : Arena) : SymbolTable :=
  ⟨arena, .empty⟩

/-- Opens a scope. -/
def enter (table : SymbolTable) : SymbolTable :=
  { table with scopes := table.scopes.enter }

/-- Closes the innermost scope, refused for the global one. -/
def exit (table : SymbolTable) : Except Fault SymbolTable :=
  table.scopes.exit.map fun scopes => { table with scopes := scopes }

/-- Adds a symbol to the arena and binds its name to it in the innermost scope. -/
def declare (table : SymbolTable) (symbol : Symbol) : SymbolId × SymbolTable :=
  let (id, arena) := table.arena.add symbol
  (id, ⟨arena, table.scopes.bind ⟨symbol.name, id, symbol.span, symbol.kind⟩⟩)

/--
Declares a symbol. A name that the innermost scope binds already is taken over if shadowing is
allowed; otherwise the symbol is refused and nothing changes.
-/
def insert (table : SymbolTable) (symbol : Symbol) (shadow : Bool) :
    Except Redeclaration SymbolId × SymbolTable :=
  match shadow, table.scopes.innermost.find? symbol.name with
  | false, some binding => (.error ⟨symbol.name, binding.span, symbol.span⟩, table)
  | _, _ => ((table.declare symbol).map .ok id)

end SymbolTable

end TypedLang
