import TypedLang.Program

/-!
# Symbols

A symbol stands for one declaration. The arena owns all symbols of a run and numbers them in the
order in which they were added. Of a symbol only the type is filled in later, and only once.
-/

namespace TypedLang

/-- What a symbol stands for. -/
inductive SymbolKind where
  | localVariable | globalVariable | parameter | function
  deriving Repr, DecidableEq

namespace SymbolKind

/-- The name of a kind in messages. -/
def name : SymbolKind → String
  | localVariable => "local variable"
  | globalVariable => "global variable"
  | parameter => "parameter"
  | function => "function"

/-- Whether a symbol of a kind holds a value. -/
def isVariable : SymbolKind → Bool
  | function => false
  | _ => true

end SymbolKind

/-- A declared name. A function that was declared in a program carries its signature. -/
structure Symbol where
  name : Key
  span : Span
  kind : SymbolKind
  signature : Option Signature := none
  type : Option Ty := none
  deriving Repr, DecidableEq

/-- Whether a symbol holds a value. -/
def Symbol.isVariable (symbol : Symbol) : Bool :=
  symbol.kind.isVariable

/-- The symbols of a run, the symbol with number `k` at position `k`. -/
structure Arena where
  symbols : List Symbol := []
  deriving Repr, DecidableEq

namespace Arena

/-- The arena without symbols. -/
def empty : Arena := {}

/-- The number of symbols. -/
def size (arena : Arena) : Nat :=
  arena.symbols.length

/-- The number of a new symbol and the arena that holds it. -/
def add (arena : Arena) (symbol : Symbol) : SymbolId × Arena :=
  (arena.size, ⟨arena.symbols ++ [symbol]⟩)

/-- The symbol with a number, if that number was given. -/
def get? (arena : Arena) (id : SymbolId) : Option Symbol :=
  arena.symbols[id]?

/-- The symbol with a number, refused for a number that was not given. -/
def get (arena : Arena) (id : SymbolId) : Except Fault Symbol :=
  match arena.get? id with
  | some symbol => .ok symbol
  | none => .error .unknownSymbol

/--
Gives a symbol its type. Whether that worked is told along with the arena: a symbol that has a type
keeps it.
-/
def assignType (arena : Arena) (id : SymbolId) (type : Ty) : Bool × Arena :=
  match arena.get? id with
  | none => (false, arena)
  | some symbol =>
      match symbol.type with
      | some _ => (false, arena)
      | none => (true, ⟨arena.symbols.set id { symbol with type := some type }⟩)

end Arena

end TypedLang
