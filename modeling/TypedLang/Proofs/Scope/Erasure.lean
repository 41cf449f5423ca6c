import TypedLang.Program.Symbols
import TypedLang.Proofs.Scope.Visibility

/-!
# Programs without symbols

Erasing the symbols of a tree gives back the tree that name resolution started from: resolution adds
symbols and changes nothing else. Visibility does not depend on symbols, so all that it says of a
tree carries over to the erased one.
-/

namespace TypedLang

mutual

/-- An expression whose identifiers are bound to nothing. -/
def Expr.withoutSymbols : Expr → Expr
  | .binary op left right span type =>
      .binary op left.withoutSymbols right.withoutSymbols span type
  | .unary op operand span type => .unary op operand.withoutSymbols span type
  | .call callee arguments span type =>
      .call callee.withoutSymbols (Expr.withoutSymbolsOfAll arguments) span type
  | .grouping inner span type => .grouping inner.withoutSymbols span type
  | .literal value span type => .literal value span type
  | .identifier name _ type => .identifier name none type

/-- Several expressions whose identifiers are bound to nothing. -/
def Expr.withoutSymbolsOfAll : List Expr → List Expr
  | [] => []
  | first :: rest => first.withoutSymbols :: Expr.withoutSymbolsOfAll rest

end

/-- A variable declaration without symbols. -/
def LetDecl.withoutSymbols (decl : LetDecl) : LetDecl :=
  { decl with initializer := decl.initializer.map Expr.withoutSymbols, symbol := none }

mutual

/-- A statement without symbols. -/
def Stmt.withoutSymbols : Stmt → Stmt
  | .expression value span => .expression value.withoutSymbols span
  | .letDecl decl => .letDecl decl.withoutSymbols
  | .block statements span => .block (Stmt.withoutSymbolsOfAll statements) span
  | .returning value span => .returning (value.map Expr.withoutSymbols) span

/-- Several statements without symbols. -/
def Stmt.withoutSymbolsOfAll : List Stmt → List Stmt
  | [] => []
  | first :: rest => first.withoutSymbols :: Stmt.withoutSymbolsOfAll rest

end

/-- A parameter without its symbol. -/
def Parameter.withoutSymbol (parameter : Parameter) : Parameter :=
  { parameter with symbol := none }

/-- A function declaration without symbols. -/
def FunDecl.withoutSymbols (decl : FunDecl) : FunDecl :=
  { decl with
    parameters := decl.parameters.map Parameter.withoutSymbol
    body := { decl.body with statements := Stmt.withoutSymbolsOfAll decl.body.statements }
    symbol := none }

/-- A declaration of a program without symbols. -/
def Decl.withoutSymbols : Decl → Decl
  | .funDecl decl => .funDecl decl.withoutSymbols
  | .letDecl decl => .letDecl decl.withoutSymbols

/-- A program without symbols. -/
def Program.withoutSymbols (program : Program) : Program :=
  { program with declarations := program.declarations.map Decl.withoutSymbols }

/-- A declaration without its symbol. -/
def Declaration.withoutSymbol (declaration : Declaration) : Declaration :=
  { declaration with symbol := none }

/-- A level whose declarations have no symbols. -/
def Level.withoutSymbols : Level → Level
  | block declared => .block (declared.map Declaration.withoutSymbol)
  | parameters declared => .parameters (declared.map Declaration.withoutSymbol)

/-- A context whose declarations have no symbols. -/
def Context.withoutSymbols (context : Context) : Context where
  levels := context.levels.map Level.withoutSymbols
  functions := context.functions.map Declaration.withoutSymbol
  globals := context.globals.map Declaration.withoutSymbol

/-- An identifier that is bound to nothing, with its use and its place. -/
def Occurrence.withoutSymbols (occurrence : Occurrence) : Occurrence :=
  { occurrence with symbol := none, context := occurrence.context.withoutSymbols }

/-- A leaf statement without symbols. -/
def LeafStatement.withoutSymbols : LeafStatement → LeafStatement
  | expression value => .expression value.withoutSymbols
  | letDecl decl => .letDecl decl.withoutSymbols
  | returning value returnType => .returning (value.map Expr.withoutSymbols) returnType

/-- A leaf without symbols. -/
def Leaf.withoutSymbols (leaf : Leaf) : Leaf where
  context := leaf.context.withoutSymbols
  statement := leaf.statement.withoutSymbols

mutual

theorem Expr.withoutSymbols_of_fresh : (value : Expr) → value.symbols = [] →
    value.withoutSymbols = value
  | .binary op left right span type, fresh => by
      simp only [Expr.symbols, List.append_eq_nil_iff] at fresh
      simp only [Expr.withoutSymbols, left.withoutSymbols_of_fresh fresh.1,
        right.withoutSymbols_of_fresh fresh.2]
  | .unary op operand span type, fresh => by
      simp only [Expr.symbols] at fresh
      simp only [Expr.withoutSymbols, operand.withoutSymbols_of_fresh fresh]
  | .call callee arguments span type, fresh => by
      simp only [Expr.symbols, List.append_eq_nil_iff] at fresh
      simp only [Expr.withoutSymbols, callee.withoutSymbols_of_fresh fresh.1,
        Expr.withoutSymbolsOfAll_of_fresh arguments fresh.2]
  | .grouping inner span type, fresh => by
      simp only [Expr.symbols] at fresh
      simp only [Expr.withoutSymbols, inner.withoutSymbols_of_fresh fresh]
  | .literal value span type, _ => rfl
  | .identifier name symbol type, fresh => by
      simp only [Expr.symbols, Option.toList_eq_nil_iff] at fresh
      simp only [Expr.withoutSymbols, fresh]

theorem Expr.withoutSymbolsOfAll_of_fresh : (values : List Expr) →
    Expr.symbolsOfAll values = [] → Expr.withoutSymbolsOfAll values = values
  | [], _ => rfl
  | first :: rest, fresh => by
      simp only [Expr.symbolsOfAll, List.append_eq_nil_iff] at fresh
      simp only [Expr.withoutSymbolsOfAll, first.withoutSymbols_of_fresh fresh.1,
        Expr.withoutSymbolsOfAll_of_fresh rest fresh.2]

end

theorem Expr.map_withoutSymbols_of_fresh {value : Option Expr}
    (fresh : Expr.symbolsOfOption value = []) : value.map Expr.withoutSymbols = value := by
  cases value with
  | none => rfl
  | some value => exact congrArg some (value.withoutSymbols_of_fresh fresh)

theorem LetDecl.withoutSymbols_of_fresh (decl : LetDecl) (fresh : decl.symbols = []) :
    decl.withoutSymbols = decl := by
  simp only [LetDecl.symbols, List.append_eq_nil_iff, Option.toList_eq_nil_iff] at fresh
  simp only [LetDecl.withoutSymbols, Expr.map_withoutSymbols_of_fresh fresh.2, ← fresh.1]

mutual

theorem Stmt.withoutSymbols_of_fresh : (statement : Stmt) → statement.symbols = [] →
    statement.withoutSymbols = statement
  | .expression value span, fresh => by
      simp only [Stmt.withoutSymbols, value.withoutSymbols_of_fresh fresh]
  | .letDecl decl, fresh => by
      simp only [Stmt.withoutSymbols, decl.withoutSymbols_of_fresh fresh]
  | .block statements span, fresh => by
      simp only [Stmt.withoutSymbols, Stmt.withoutSymbolsOfAll_of_fresh statements fresh]
  | .returning value span, fresh => by
      simp only [Stmt.withoutSymbols, Expr.map_withoutSymbols_of_fresh fresh]

theorem Stmt.withoutSymbolsOfAll_of_fresh : (statements : List Stmt) →
    Stmt.symbolsOfAll statements = [] → Stmt.withoutSymbolsOfAll statements = statements
  | [], _ => rfl
  | first :: rest, fresh => by
      simp only [Stmt.symbolsOfAll, List.append_eq_nil_iff] at fresh
      simp only [Stmt.withoutSymbolsOfAll, first.withoutSymbols_of_fresh fresh.1,
        Stmt.withoutSymbolsOfAll_of_fresh rest fresh.2]

end

theorem Parameter.map_withoutSymbol_of_fresh {parameters : List Parameter}
    (fresh : ∀ parameter ∈ parameters, parameter.symbol = none) :
    parameters.map Parameter.withoutSymbol = parameters := by
  have unchanged : ∀ parameter ∈ parameters, parameter.withoutSymbol = id parameter := by
    intro parameter member
    simp only [Parameter.withoutSymbol, ← fresh parameter member, id]
  rw [List.map_congr_left unchanged, List.map_id]

theorem FunDecl.withoutSymbols_of_fresh (decl : FunDecl) (fresh : decl.symbols = []) :
    decl.withoutSymbols = decl := by
  simp only [FunDecl.symbols, List.append_eq_nil_iff, Option.toList_eq_nil_iff,
    List.flatMap_eq_nil_iff] at fresh
  rcases fresh with ⟨⟨symbol, parameters⟩, body⟩
  simp only [FunDecl.withoutSymbols, Parameter.map_withoutSymbol_of_fresh parameters,
    Stmt.withoutSymbolsOfAll_of_fresh _ body, ← symbol]

theorem Decl.withoutSymbols_of_fresh (decl : Decl) (fresh : decl.symbols = []) :
    decl.withoutSymbols = decl := by
  cases decl with
  | funDecl decl => exact congrArg Decl.funDecl (decl.withoutSymbols_of_fresh fresh)
  | letDecl decl => exact congrArg Decl.letDecl (decl.withoutSymbols_of_fresh fresh)

theorem Program.withoutSymbols_of_fresh (program : Program) (fresh : program.symbols = []) :
    program.withoutSymbols = program := by
  simp only [Program.symbols, List.flatMap_eq_nil_iff] at fresh
  have unchanged : ∀ decl ∈ program.declarations, decl.withoutSymbols = id decl := by
    intro decl member
    exact decl.withoutSymbols_of_fresh (fresh decl member)
  simp only [Program.withoutSymbols, List.map_congr_left unchanged, List.map_id]

mutual

theorem Expr.withoutSymbols_resolve (source : SourceId) (scopes : ScopeStack) :
    (use : Use) → (value : Expr) →
      (value.resolve source scopes use).1.withoutSymbols = value.withoutSymbols
  | _, .binary op left right span type => by
      simp only [Expr.resolve, Expr.withoutSymbols, left.withoutSymbols_resolve,
        right.withoutSymbols_resolve]
  | _, .unary op operand span type => by
      simp only [Expr.resolve, Expr.withoutSymbols, operand.withoutSymbols_resolve]
  | _, .call callee arguments span type => by
      simp only [Expr.resolve, Expr.withoutSymbols, callee.withoutSymbols_resolve,
        Expr.withoutSymbolsOfAll_resolveAll]
  | _, .grouping inner span type => by
      simp only [Expr.resolve, Expr.withoutSymbols, inner.withoutSymbols_resolve]
  | _, .literal value span type => rfl
  | _, .identifier name symbol type => rfl

theorem Expr.withoutSymbolsOfAll_resolveAll (source : SourceId) (scopes : ScopeStack) :
    (values : List Expr) →
      Expr.withoutSymbolsOfAll (Expr.resolveAll source scopes values).1 =
        Expr.withoutSymbolsOfAll values
  | [] => rfl
  | first :: rest => by
      simp only [Expr.resolveAll, Expr.withoutSymbolsOfAll, first.withoutSymbols_resolve,
        Expr.withoutSymbolsOfAll_resolveAll source scopes rest]

end

theorem Expr.map_withoutSymbols_resolveOption (source : SourceId) (scopes : ScopeStack)
    (value : Option Expr) :
    (Expr.resolveOption source scopes value).1.map Expr.withoutSymbols =
      value.map Expr.withoutSymbols := by
  cases value with
  | none => rfl
  | some value => exact congrArg some (value.withoutSymbols_resolve source scopes .value)

theorem Resolved.piece_declaring {Piece : Type} (source : SourceId) (table : SymbolTable)
    (symbol : Symbol) (shadow : Bool) (previous : Option SymbolId)
    (piece : Option SymbolId → Piece) :
    ∃ id, (Resolved.declaring source table symbol shadow previous piece).piece = piece id := by
  rw [Resolved.declaring]
  split
  · exact ⟨_, rfl⟩
  · exact ⟨_, rfl⟩

theorem Resolved.map_piece_all {Piece Other : Type}
    {resolve : SymbolTable → Piece → Resolved Piece} (erase : Piece → Other)
    (unchanged : ∀ table piece, erase (resolve table piece).piece = erase piece) :
    ∀ (table : SymbolTable) (pieces : List Piece),
      (Resolved.all resolve table pieces).piece.map erase = pieces.map erase
  | _, [] => rfl
  | table, first :: rest => by
      simp only [Resolved.all, Resolved.after, Resolved.map, List.map_cons, unchanged,
        Resolved.map_piece_all erase unchanged]

theorem LetDecl.withoutSymbols_resolve (source : SourceId) (table : SymbolTable)
    (decl : LetDecl) : (decl.resolve source table).piece.withoutSymbols = decl.withoutSymbols := by
  simp only [LetDecl.resolve, Resolved.after]
  rcases Resolved.piece_declaring source table _ _ decl.symbol _ with ⟨id, piece_eq⟩
  rw [piece_eq]
  simp only [LetDecl.withoutSymbols, Expr.map_withoutSymbols_resolveOption]

mutual

theorem Stmt.withoutSymbols_resolve (source : SourceId) :
    (table : SymbolTable) → (statement : Stmt) →
      (statement.resolve source table).piece.withoutSymbols = statement.withoutSymbols
  | table, .expression value span => by
      simp only [Stmt.resolve, Stmt.withoutSymbols, value.withoutSymbols_resolve]
  | table, .letDecl decl => by
      simp only [Stmt.resolve, Resolved.map, Stmt.withoutSymbols, decl.withoutSymbols_resolve]
  | table, .block statements span => by
      simp only [Stmt.resolve, Resolved.closing, Resolved.map, Stmt.withoutSymbols,
        Stmt.withoutSymbolsOfAll_resolveAll source table.enter statements]
  | table, .returning value span => by
      simp only [Stmt.resolve, Stmt.withoutSymbols, Expr.map_withoutSymbols_resolveOption]

theorem Stmt.withoutSymbolsOfAll_resolveAll (source : SourceId) :
    (table : SymbolTable) → (statements : List Stmt) →
      Stmt.withoutSymbolsOfAll (Stmt.resolveAll source table statements).piece =
        Stmt.withoutSymbolsOfAll statements
  | _, [] => rfl
  | table, first :: rest => by
      simp only [Stmt.resolveAll, Resolved.after, Resolved.map, Stmt.withoutSymbolsOfAll,
        first.withoutSymbols_resolve, Stmt.withoutSymbolsOfAll_resolveAll source _ rest]

end

theorem Parameter.withoutSymbol_resolve (source : SourceId) (table : SymbolTable)
    (parameter : Parameter) :
    (parameter.resolve source table).piece.withoutSymbol = parameter.withoutSymbol := by
  simp only [Parameter.resolve]
  rcases Resolved.piece_declaring source table _ _ parameter.symbol _ with ⟨id, piece_eq⟩
  rw [piece_eq]
  rfl

theorem FunDecl.withoutSymbols_resolve (source : SourceId) (table : SymbolTable)
    (decl : FunDecl) : (decl.resolve source table).piece.withoutSymbols = decl.withoutSymbols := by
  simp only [FunDecl.resolve, Resolved.closing, Resolved.after, Resolved.map,
    FunDecl.withoutSymbols, Stmt.withoutSymbolsOfAll_resolveAll,
    Resolved.map_piece_all _ (Parameter.withoutSymbol_resolve source)]

theorem Decl.withoutSymbols_declareFunction (source : SourceId) (table : SymbolTable)
    (decl : Decl) :
    (decl.declareFunction source table).piece.withoutSymbols = decl.withoutSymbols := by
  cases decl with
  | funDecl decl =>
      simp only [Decl.declareFunction]
      rcases Resolved.piece_declaring source table _ _ decl.symbol _ with ⟨id, piece_eq⟩
      rw [piece_eq]
      rfl
  | letDecl decl => rfl

theorem Decl.withoutSymbols_resolve (source : SourceId) (table : SymbolTable) (decl : Decl) :
    (decl.resolve source table).piece.withoutSymbols = decl.withoutSymbols := by
  cases decl with
  | funDecl decl => exact congrArg Decl.funDecl (decl.withoutSymbols_resolve source table)
  | letDecl decl => exact congrArg Decl.letDecl (decl.withoutSymbols_resolve source table)

theorem Program.withoutSymbols_resolve (program : Program) (arena : Arena) :
    (program.resolve arena).program.withoutSymbols = program.withoutSymbols := by
  simp only [Program.resolve, Program.withoutSymbols,
    Resolved.map_piece_all _ (Decl.withoutSymbols_resolve program.source),
    Resolved.map_piece_all _ (Decl.withoutSymbols_declareFunction program.source)]

theorem Declaration.isNamed_withoutSymbol (key : Key) :
    Declaration.isNamed key ∘ Declaration.withoutSymbol = Declaration.isNamed key :=
  rfl

theorem Declaration.first?_withoutSymbol (declarations : List Declaration) (key : Key) :
    Declaration.first? (declarations.map Declaration.withoutSymbol) key =
      (Declaration.first? declarations key).map Declaration.withoutSymbol := by
  simp only [Declaration.first?, List.find?_map, Declaration.isNamed_withoutSymbol]

theorem Declaration.latest?_withoutSymbol (declarations : List Declaration) (key : Key) :
    Declaration.latest? (declarations.map Declaration.withoutSymbol) key =
      (Declaration.latest? declarations key).map Declaration.withoutSymbol := by
  simp only [Declaration.latest?, ← List.map_reverse, List.find?_map,
    Declaration.isNamed_withoutSymbol]

theorem Level.declaration?_withoutSymbols (level : Level) (key : Key) :
    level.withoutSymbols.declaration? key =
      (level.declaration? key).map Declaration.withoutSymbol := by
  cases level with
  | block declared => exact Declaration.latest?_withoutSymbol declared key
  | parameters declared => exact Declaration.first?_withoutSymbol declared key

theorem Context.declaration?_withoutSymbols (context : Context) (key : Key) :
    context.withoutSymbols.declaration? key =
      (context.declaration? key).map Declaration.withoutSymbol := by
  simp only [Context.declaration?, Context.global?, Context.withoutSymbols,
    Declaration.first?_withoutSymbol, List.findSome?_map, Function.comp_def,
    Level.declaration?_withoutSymbols, Option.map_or, List.map_findSome?]

mutual

theorem Expr.occurrences_withoutSymbols (context : Context) : (use : Use) → (value : Expr) →
    value.withoutSymbols.occurrences context.withoutSymbols use =
      (value.occurrences context use).map Occurrence.withoutSymbols
  | _, .binary op left right span type => by
      simp only [Expr.withoutSymbols, Expr.occurrences, List.map_append,
        left.occurrences_withoutSymbols, right.occurrences_withoutSymbols]
  | _, .unary op operand span type => by
      simp only [Expr.withoutSymbols, Expr.occurrences, operand.occurrences_withoutSymbols]
  | _, .call callee arguments span type => by
      simp only [Expr.withoutSymbols, Expr.occurrences, List.map_append,
        callee.occurrences_withoutSymbols, Expr.occurrencesOfAll_withoutSymbols context arguments]
  | _, .grouping inner span type => by
      simp only [Expr.withoutSymbols, Expr.occurrences, inner.occurrences_withoutSymbols]
  | _, .literal value span type => rfl
  | _, .identifier name symbol type => rfl

theorem Expr.occurrencesOfAll_withoutSymbols (context : Context) : (values : List Expr) →
    Expr.occurrencesOfAll context.withoutSymbols (Expr.withoutSymbolsOfAll values) =
      (Expr.occurrencesOfAll context values).map Occurrence.withoutSymbols
  | [] => rfl
  | first :: rest => by
      simp only [Expr.withoutSymbolsOfAll, Expr.occurrencesOfAll, List.map_append,
        first.occurrences_withoutSymbols, Expr.occurrencesOfAll_withoutSymbols context rest]

end

mutual

theorem Expr.callees_withoutSymbols : (value : Expr) →
    value.withoutSymbols.callees = value.callees.map Expr.withoutSymbols
  | .binary op left right span type => by
      simp only [Expr.withoutSymbols, Expr.callees, List.map_append,
        left.callees_withoutSymbols, right.callees_withoutSymbols]
  | .unary op operand span type => by
      simp only [Expr.withoutSymbols, Expr.callees, operand.callees_withoutSymbols]
  | .call callee arguments span type => by
      simp only [Expr.withoutSymbols, Expr.callees, List.map_append, List.map_cons,
        callee.callees_withoutSymbols, Expr.calleesOfAll_withoutSymbols arguments]
  | .grouping inner span type => by
      simp only [Expr.withoutSymbols, Expr.callees, inner.callees_withoutSymbols]
  | .literal value span type => rfl
  | .identifier name symbol type => rfl

theorem Expr.calleesOfAll_withoutSymbols : (values : List Expr) →
    Expr.calleesOfAll (Expr.withoutSymbolsOfAll values) =
      (Expr.calleesOfAll values).map Expr.withoutSymbols
  | [] => rfl
  | first :: rest => by
      simp only [Expr.withoutSymbolsOfAll, Expr.calleesOfAll, List.map_append,
        first.callees_withoutSymbols, Expr.calleesOfAll_withoutSymbols rest]

end

theorem LeafStatement.value?_withoutSymbols (statement : LeafStatement) :
    statement.withoutSymbols.value? = statement.value?.map Expr.withoutSymbols := by
  cases statement with
  | expression value => rfl
  | letDecl decl => rfl
  | returning value returnType => rfl

theorem Leaf.occurrences_withoutSymbols (leaf : Leaf) :
    leaf.withoutSymbols.occurrences = leaf.occurrences.map Occurrence.withoutSymbols := by
  simp only [Leaf.occurrences, Leaf.withoutSymbols, LeafStatement.value?_withoutSymbols]
  cases leaf.statement.value? with
  | none => rfl
  | some value =>
      simp only [Option.map_some, Option.toList_some, List.flatMap_singleton,
        value.occurrences_withoutSymbols]

theorem Leaf.callees_withoutSymbols (leaf : Leaf) :
    leaf.withoutSymbols.callees = leaf.callees.map Expr.withoutSymbols := by
  simp only [Leaf.callees, Leaf.withoutSymbols, LeafStatement.value?_withoutSymbols]
  cases leaf.statement.value? with
  | none => rfl
  | some value =>
      simp only [Option.map_some, Option.toList_some, List.flatMap_singleton,
        value.callees_withoutSymbols]

theorem Stmt.declares_withoutSymbols (statement : Stmt) :
    statement.withoutSymbols.declares = statement.declares.map Declaration.withoutSymbol := by
  cases statement with
  | expression value span => rfl
  | letDecl decl => rfl
  | block statements span => rfl
  | returning value span => rfl

theorem Context.withoutSymbols_enter (context : Context) (level : Level) :
    (context.enter level).withoutSymbols = context.withoutSymbols.enter level.withoutSymbols :=
  rfl

mutual

theorem Stmt.leaves_withoutSymbols (returnType : WrittenType) : (context : Context) →
    (statement : Stmt) → statement.withoutSymbols.leaves context.withoutSymbols returnType =
      (statement.leaves context returnType).map Leaf.withoutSymbols
  | _, .expression _ _ => rfl
  | _, .letDecl _ => rfl
  | context, .block statements _ =>
      Stmt.leavesOfAll_withoutSymbols returnType context [] statements
  | _, .returning _ _ => rfl

theorem Stmt.leavesOfAll_withoutSymbols (returnType : WrittenType) : (outer : Context) →
    (locals : List Declaration) → (statements : List Stmt) →
      Stmt.leavesOfAll outer.withoutSymbols returnType
          (locals.map Declaration.withoutSymbol) (Stmt.withoutSymbolsOfAll statements) =
        (Stmt.leavesOfAll outer returnType locals statements).map Leaf.withoutSymbols
  | _, _, [] => rfl
  | outer, locals, first :: rest => by
      have entered := first.leaves_withoutSymbols returnType (outer.enter (.block locals))
      rw [Context.withoutSymbols_enter, Level.withoutSymbols] at entered
      simp only [Stmt.withoutSymbolsOfAll, Stmt.leavesOfAll, List.map_append, entered,
        Stmt.declares_withoutSymbols, ← Stmt.leavesOfAll_withoutSymbols returnType outer _ rest]

end

theorem LetDecl.declaration_withoutSymbols (kind : SymbolKind) (decl : LetDecl) :
    decl.withoutSymbols.declaration kind = (decl.declaration kind).withoutSymbol :=
  rfl

theorem Parameter.declaration_withoutSymbol (parameter : Parameter) :
    parameter.withoutSymbol.declaration = parameter.declaration.withoutSymbol :=
  rfl

theorem FunDecl.signature_withoutSymbols (decl : FunDecl) :
    decl.withoutSymbols.signature = decl.signature := by
  simp only [FunDecl.signature, FunDecl.withoutSymbols, List.map_map]
  rfl

theorem FunDecl.declaration_withoutSymbols (decl : FunDecl) :
    decl.withoutSymbols.declaration = decl.declaration.withoutSymbol := by
  simp only [FunDecl.declaration, FunDecl.signature_withoutSymbols]
  rfl

theorem FunDecl.leaves_withoutSymbols (context : Context) (decl : FunDecl) :
    decl.withoutSymbols.leaves context.withoutSymbols =
      (decl.leaves context).map Leaf.withoutSymbols := by
  rw [FunDecl.leaves, FunDecl.leaves, ← Stmt.leavesOfAll_withoutSymbols,
    Context.withoutSymbols_enter, Level.withoutSymbols, List.map_map]
  simp only [FunDecl.withoutSymbols, List.map_map, List.map_nil]
  rfl

theorem Decl.leavesOfAll_withoutSymbols (functions : List Declaration) :
    (globals : List Declaration) → (declarations : List Decl) →
      Decl.leavesOfAll (functions.map Declaration.withoutSymbol)
          (globals.map Declaration.withoutSymbol) (declarations.map Decl.withoutSymbols) =
        (Decl.leavesOfAll functions globals declarations).map Leaf.withoutSymbols
  | _, [] => rfl
  | globals, .funDecl decl :: rest => by
      have body := decl.leaves_withoutSymbols { functions := functions, globals := globals }
      simp only [Context.withoutSymbols, List.map_nil] at body
      simp only [List.map_cons, Decl.withoutSymbols, Decl.leavesOfAll, List.map_append, body,
        Decl.leavesOfAll_withoutSymbols functions globals rest]
  | globals, .letDecl decl :: rest => by
      have others := Decl.leavesOfAll_withoutSymbols functions
        (globals ++ [decl.declaration .globalVariable]) rest
      rw [List.map_append] at others
      simp only [List.map_cons, Decl.withoutSymbols, Decl.leavesOfAll, ← others]
      rfl

/-- What is selected from erased declarations is what is selected from them, erased. -/
theorem Decl.filterMap_erase {Piece : Type} {erase : Decl → Decl} {select : Decl → Option Piece}
    {erasePiece : Piece → Piece}
    (commutes : ∀ decl, select (erase decl) = (select decl).map erasePiece)
    (declarations : List Decl) :
    (declarations.map erase).filterMap select =
      (declarations.filterMap select).map erasePiece := by
  rw [List.filterMap_map, List.map_filterMap]
  exact congrArg (List.filterMap · declarations) (funext commutes)

theorem Program.functions_withoutSymbols (program : Program) :
    program.withoutSymbols.functions = program.functions.map FunDecl.withoutSymbols := by
  apply Decl.filterMap_erase
  intro decl
  cases decl <;> rfl

theorem Program.globals_withoutSymbols (program : Program) :
    program.withoutSymbols.globals = program.globals.map LetDecl.withoutSymbols := by
  apply Decl.filterMap_erase
  intro decl
  cases decl <;> rfl

theorem Program.leaves_withoutSymbols (program : Program) :
    program.withoutSymbols.leaves = program.leaves.map Leaf.withoutSymbols := by
  rw [Program.leaves, Program.leaves, ← Decl.leavesOfAll_withoutSymbols,
    Program.functions_withoutSymbols, List.map_map, List.map_map]
  simp only [Function.comp_def, FunDecl.declaration_withoutSymbols]
  rfl

end TypedLang
