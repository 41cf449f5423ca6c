import TypedLang.Program

/-!
# Symbols in a program

The symbols that the declarations and identifiers of a program are bound to, in source order. A
symbol occurs once for every node that is bound to it.
-/

namespace TypedLang

mutual

/-- The symbols in an expression. -/
def Expr.symbols : Expr → List SymbolId
  | .binary _ left right _ _ => left.symbols ++ right.symbols
  | .unary _ operand _ _ => operand.symbols
  | .call callee arguments _ _ => callee.symbols ++ Expr.symbolsOfAll arguments
  | .grouping inner _ _ => inner.symbols
  | .literal _ _ _ => []
  | .identifier _ symbol _ => symbol.toList

/-- The symbols in several expressions. -/
def Expr.symbolsOfAll : List Expr → List SymbolId
  | [] => []
  | first :: rest => first.symbols ++ Expr.symbolsOfAll rest

end

/-- The symbols in an expression that may lack. -/
def Expr.symbolsOfOption : Option Expr → List SymbolId
  | none => []
  | some value => value.symbols

/-- The symbols in a variable declaration, its own one first. -/
def LetDecl.symbols (decl : LetDecl) : List SymbolId :=
  decl.symbol.toList ++ Expr.symbolsOfOption decl.initializer

mutual

/-- The symbols in a statement. -/
def Stmt.symbols : Stmt → List SymbolId
  | .expression value _ => value.symbols
  | .letDecl decl => decl.symbols
  | .block statements _ => Stmt.symbolsOfAll statements
  | .returning value _ => Expr.symbolsOfOption value

/-- The symbols in several statements. -/
def Stmt.symbolsOfAll : List Stmt → List SymbolId
  | [] => []
  | first :: rest => first.symbols ++ Stmt.symbolsOfAll rest

end

/-- The symbols in a function declaration: its own, those of the parameters, those of the body. -/
def FunDecl.symbols (decl : FunDecl) : List SymbolId :=
  decl.symbol.toList ++ decl.parameters.flatMap (fun parameter => parameter.symbol.toList) ++
    Stmt.symbolsOfAll decl.body.statements

/-- The symbols in a declaration. -/
def Decl.symbols : Decl → List SymbolId
  | .funDecl decl => decl.symbols
  | .letDecl decl => decl.symbols

/-- The symbols in a program. -/
def Program.symbols (program : Program) : List SymbolId :=
  program.declarations.flatMap Decl.symbols

end TypedLang
