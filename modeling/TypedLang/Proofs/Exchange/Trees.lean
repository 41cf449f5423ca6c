import TypedLang.Proofs.Scope.Coverage

/-!
# Programs in another order

Two functions that stand one right behind the other may change places. This changes the order in
which symbols are numbered, so that trees are compared up to a renumbering: other numbers for the
same symbols, on declarations and on identifiers alike.
-/

namespace TypedLang

/-- Declarations of which the one at a position changes places with the one behind it. -/
def Decl.exchange : (position : Nat) → List Decl → List Decl
  | 0, first :: second :: rest => second :: first :: rest
  | position + 1, first :: rest => first :: Decl.exchange position rest
  | _, declarations => declarations

/-- A program of which the declaration at a position changes places with the one behind it. -/
def Program.exchange (position : Nat) (program : Program) : Program :=
  { program with declarations := Decl.exchange position program.declarations }

/-- Two functions stand next to each other, the first one at a position. -/
inductive Decl.Neighbours : (position : Nat) → List Decl → Prop where
  | here {first second : FunDecl} {rest : List Decl} :
      Neighbours 0 (.funDecl first :: .funDecl second :: rest)
  | behind {decl : Decl} {position : Nat} {rest : List Decl} :
      Neighbours position rest → Neighbours (position + 1) (decl :: rest)

namespace Decl

theorem exchange_perm : (position : Nat) → (declarations : List Decl) →
    (exchange position declarations).Perm declarations
  | 0, [] => .nil
  | 0, [_] => .refl _
  | 0, first :: second :: rest => .swap first second rest
  | _ + 1, [] => .nil
  | position + 1, _ :: rest => (exchange_perm position rest).cons _

theorem map_exchange (convert : Decl → Decl) : (position : Nat) → (declarations : List Decl) →
    (exchange position declarations).map convert = exchange position (declarations.map convert)
  | 0, [] => rfl
  | 0, [_] => rfl
  | 0, _ :: _ :: _ => rfl
  | _ + 1, [] => rfl
  | position + 1, _ :: rest => congrArg _ (map_exchange convert position rest)

namespace Neighbours

variable {position : Nat} {declarations : List Decl}

theorem isFunction (neighbours : Neighbours position declarations) :
    (declarations[position]?.bind function?).isSome ∧
      (declarations[position + 1]?.bind function?).isSome := by
  induction neighbours with
  | here => exact ⟨rfl, rfl⟩
  | behind _ ih => exact ih

theorem of_isFunction (first : (declarations[position]?.bind function?).isSome)
    (second : (declarations[position + 1]?.bind function?).isSome) :
    Neighbours position declarations := by
  induction position generalizing declarations with
  | zero =>
      rcases declarations with _ | ⟨_ | _, rest⟩
      · cases first
      · rcases rest with _ | ⟨_ | _, rest⟩
        · cases second
        · exact .here
        · cases second
      · cases first
  | succ position ih =>
      rcases declarations with _ | ⟨head, rest⟩
      · cases first
      · exact .behind (ih first second)

theorem of_withoutSymbols (neighbours : Neighbours position (declarations.map withoutSymbols)) :
    Neighbours position declarations := by
  have same (index : Nat) : ((declarations.map withoutSymbols)[index]?.bind function?).isSome =
      (declarations[index]?.bind function?).isSome := by
    rw [List.getElem?_map]
    rcases declarations[index]? with _ | _ | _ <;> rfl
  rcases neighbours.isFunction with ⟨first, second⟩
  rw [same] at first second
  exact of_isFunction first second

/-- The variables stay in order. -/
theorem variables_exchange (neighbours : Neighbours position declarations) :
    (exchange position declarations).filterMap Decl.variable? =
      declarations.filterMap Decl.variable? := by
  induction neighbours with
  | here => rfl
  | @behind decl _ _ _ ih => simp only [exchange, List.filterMap_cons, ih]

/-- A function has the same leaves wherever it stands between the same variables. -/
theorem leavesOfAll_perm (functions : List Declaration)
    (neighbours : Neighbours position declarations) : (globals : List Declaration) →
      (leavesOfAll functions globals (exchange position declarations)).Perm
        (leavesOfAll functions globals declarations) := by
  induction neighbours with
  | here =>
      intro globals
      exact List.perm_append_comm_assoc _ _ _
  | @behind decl _ _ _ ih =>
      intro globals
      cases decl with
      | funDecl decl => exact (ih globals).append_left _
      | letDecl decl => exact (ih _).cons _

end Neighbours

end Decl

namespace Program

variable {position : Nat} {program : Program}

theorem globals_exchange (neighbours : Decl.Neighbours position program.declarations) :
    (program.exchange position).globals = program.globals :=
  neighbours.variables_exchange

theorem functions_exchange_perm (position : Nat) (program : Program) :
    (program.exchange position).functions.Perm program.functions :=
  (Decl.exchange_perm position program.declarations).filterMap _

theorem symbols_exchange (position : Nat) (fresh : program.symbols = []) :
    (program.exchange position).symbols = [] := by
  rw [symbols, List.flatMap_eq_nil_iff] at fresh ⊢
  intro decl member
  exact fresh decl ((Decl.exchange_perm position program.declarations).mem_iff.mp member)

theorem withoutSymbols_exchange (position : Nat) (program : Program) :
    (program.exchange position).withoutSymbols = program.withoutSymbols.exchange position := by
  simp only [withoutSymbols, exchange, Decl.map_exchange]

end Program

section Renumbering

variable (numbering : SymbolId → SymbolId)

mutual

/-- An expression with other numbers for its symbols. -/
def Expr.renumber : Expr → Expr
  | .binary op left right span type => .binary op left.renumber right.renumber span type
  | .unary op operand span type => .unary op operand.renumber span type
  | .call callee arguments span type =>
      .call callee.renumber (Expr.renumberAll arguments) span type
  | .grouping inner span type => .grouping inner.renumber span type
  | .literal value span type => .literal value span type
  | .identifier name symbol type => .identifier name (symbol.map numbering) type

/-- Several expressions with other numbers for their symbols. -/
def Expr.renumberAll : List Expr → List Expr
  | [] => []
  | first :: rest => first.renumber :: Expr.renumberAll rest

end

/-- A variable declaration with other numbers for its symbols. -/
def LetDecl.renumber (decl : LetDecl) : LetDecl :=
  { decl with
    initializer := decl.initializer.map (Expr.renumber numbering)
    symbol := decl.symbol.map numbering }

mutual

/-- A statement with other numbers for its symbols. -/
def Stmt.renumber : Stmt → Stmt
  | .expression value span => .expression (value.renumber numbering) span
  | .letDecl decl => .letDecl (decl.renumber numbering)
  | .block statements span => .block (Stmt.renumberAll statements) span
  | .returning value span => .returning (value.map (Expr.renumber numbering)) span

/-- Several statements with other numbers for their symbols. -/
def Stmt.renumberAll : List Stmt → List Stmt
  | [] => []
  | first :: rest => first.renumber :: Stmt.renumberAll rest

end

/-- A parameter with another number for its symbol. -/
def Parameter.renumber (parameter : Parameter) : Parameter :=
  { parameter with symbol := parameter.symbol.map numbering }

/-- A function declaration with other numbers for its symbols. -/
def FunDecl.renumber (decl : FunDecl) : FunDecl :=
  { decl with
    parameters := decl.parameters.map (Parameter.renumber numbering)
    body := { decl.body with statements := Stmt.renumberAll numbering decl.body.statements }
    symbol := decl.symbol.map numbering }

/-- A declaration of a program with other numbers for its symbols. -/
def Decl.renumber : Decl → Decl
  | .funDecl decl => .funDecl (decl.renumber numbering)
  | .letDecl decl => .letDecl (decl.renumber numbering)

/-- A program with other numbers for its symbols. -/
def Program.renumber (program : Program) : Program :=
  { program with declarations := program.declarations.map (Decl.renumber numbering) }

/-- A declaration with another number for its symbol. -/
def Declaration.renumber (declaration : Declaration) : Declaration :=
  { declaration with symbol := declaration.symbol.map numbering }

theorem FunDecl.declaration_renumber (decl : FunDecl) :
    (decl.renumber numbering).declaration = decl.declaration.renumber numbering := by
  simp only [declaration, signature, renumber, Declaration.renumber, List.map_map]
  rfl

mutual

theorem Stmt.declarations_renumber : (statement : Stmt) →
    (statement.renumber numbering).declarations =
      statement.declarations.map (Declaration.renumber numbering)
  | .expression _ _ => rfl
  | .letDecl _ => rfl
  | .block statements _ => Stmt.declarationsOfAll_renumberAll statements
  | .returning _ _ => rfl

theorem Stmt.declarationsOfAll_renumberAll : (statements : List Stmt) →
    Stmt.declarationsOfAll (Stmt.renumberAll numbering statements) =
      (Stmt.declarationsOfAll statements).map (Declaration.renumber numbering)
  | [] => rfl
  | first :: rest => by
      simp only [Stmt.renumberAll, Stmt.declarationsOfAll, List.map_append,
        first.declarations_renumber, Stmt.declarationsOfAll_renumberAll rest]

end

theorem Decl.typings_renumber (decl : Decl) : (decl.renumber numbering).typings =
    decl.typings.map (Declaration.renumber numbering) := by
  cases decl with
  | funDecl decl =>
      have body := Stmt.declarationsOfAll_renumberAll numbering decl.body.statements
      simp only [Decl.renumber, typings, List.map_cons, decl.declaration_renumber]
      congr 1
      simp only [FunDecl.declarations, FunDecl.renumber, body, List.map_append, List.map_map]
      rfl
  | letDecl decl => rfl

theorem Program.typings_renumber (program : Program) :
    (program.renumber numbering).declarations.flatMap Decl.typings =
      (program.declarations.flatMap Decl.typings).map (Declaration.renumber numbering) := by
  simp only [renumber, List.flatMap_map, Decl.typings_renumber, List.map_flatMap]

theorem SymbolId.toList_map (symbol : Option SymbolId) :
    (symbol.map numbering).toList = symbol.toList.map numbering := by
  cases symbol <;> rfl

mutual

theorem Expr.symbols_renumber : (value : Expr) →
    (value.renumber numbering).symbols = value.symbols.map numbering
  | .binary op left right span type => by
      simp only [Expr.renumber, Expr.symbols, List.map_append, left.symbols_renumber,
        right.symbols_renumber]
  | .unary op operand span type => operand.symbols_renumber
  | .call callee arguments span type => by
      simp only [Expr.renumber, Expr.symbols, List.map_append, callee.symbols_renumber,
        Expr.symbolsOfAll_renumberAll arguments]
  | .grouping inner span type => inner.symbols_renumber
  | .literal value span type => rfl
  | .identifier name symbol type => SymbolId.toList_map numbering symbol

theorem Expr.symbolsOfAll_renumberAll : (values : List Expr) →
    Expr.symbolsOfAll (Expr.renumberAll numbering values) =
      (Expr.symbolsOfAll values).map numbering
  | [] => rfl
  | first :: rest => by
      simp only [Expr.renumberAll, Expr.symbolsOfAll, List.map_append, first.symbols_renumber,
        Expr.symbolsOfAll_renumberAll rest]

end

theorem Expr.symbolsOfOption_renumber (value : Option Expr) :
    Expr.symbolsOfOption (value.map (Expr.renumber numbering)) =
      (Expr.symbolsOfOption value).map numbering := by
  cases value with
  | none => rfl
  | some value => exact value.symbols_renumber numbering

theorem LetDecl.symbols_renumber (decl : LetDecl) :
    (decl.renumber numbering).symbols = decl.symbols.map numbering := by
  simp only [LetDecl.symbols, LetDecl.renumber, SymbolId.toList_map,
    Expr.symbolsOfOption_renumber, List.map_append]

mutual

theorem Stmt.symbols_renumber : (statement : Stmt) →
    (statement.renumber numbering).symbols = statement.symbols.map numbering
  | .expression value _ => value.symbols_renumber numbering
  | .letDecl decl => decl.symbols_renumber numbering
  | .block statements _ => Stmt.symbolsOfAll_renumberAll statements
  | .returning value _ => Expr.symbolsOfOption_renumber numbering value

theorem Stmt.symbolsOfAll_renumberAll : (statements : List Stmt) →
    Stmt.symbolsOfAll (Stmt.renumberAll numbering statements) =
      (Stmt.symbolsOfAll statements).map numbering
  | [] => rfl
  | first :: rest => by
      simp only [Stmt.renumberAll, Stmt.symbolsOfAll, List.map_append, first.symbols_renumber,
        Stmt.symbolsOfAll_renumberAll rest]

end

theorem Decl.symbols_renumber (decl : Decl) :
    (decl.renumber numbering).symbols = decl.symbols.map numbering := by
  cases decl with
  | funDecl decl =>
      simp only [Decl.renumber, Decl.symbols, FunDecl.symbols, FunDecl.renumber,
        SymbolId.toList_map, Stmt.symbolsOfAll_renumberAll, List.map_append,
        List.flatMap_map, List.map_flatMap, Parameter.renumber]
  | letDecl decl => exact decl.symbols_renumber numbering

theorem Program.symbols_renumber (program : Program) :
    (program.renumber numbering).symbols = program.symbols.map numbering := by
  simp only [symbols, renumber, List.flatMap_map, Decl.symbols_renumber, List.map_flatMap]

end Renumbering

end TypedLang
