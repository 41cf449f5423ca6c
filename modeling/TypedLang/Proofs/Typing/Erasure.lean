import TypedLang.Proofs.Scope.Coverage
import TypedLang.Typing.Check

/-!
# Programs without types

Erasing the types of the expressions in a tree gives back the tree that the checker started from:
checking adds types and changes nothing else. What a piece of a program declares is written in it,
so that it stays the same as well, and so do the identifiers with their symbols.
-/

namespace TypedLang

mutual

/-- An expression none of whose nodes has a type. -/
def Expr.withoutTypes : Expr → Expr
  | .binary op left right span _ => .binary op left.withoutTypes right.withoutTypes span none
  | .unary op operand span _ => .unary op operand.withoutTypes span none
  | .call callee arguments span _ =>
      .call callee.withoutTypes (Expr.withoutTypesOfAll arguments) span none
  | .grouping inner span _ => .grouping inner.withoutTypes span none
  | .literal value span _ => .literal value span none
  | .identifier name symbol _ => .identifier name symbol none

/-- Several expressions none of whose nodes has a type. -/
def Expr.withoutTypesOfAll : List Expr → List Expr
  | [] => []
  | first :: rest => first.withoutTypes :: Expr.withoutTypesOfAll rest

end

/-- A variable declaration without types in its initializer. -/
def LetDecl.withoutTypes (decl : LetDecl) : LetDecl :=
  { decl with initializer := decl.initializer.map Expr.withoutTypes }

mutual

/-- A statement without types in its expressions. -/
def Stmt.withoutTypes : Stmt → Stmt
  | .expression value span => .expression value.withoutTypes span
  | .letDecl decl => .letDecl decl.withoutTypes
  | .block statements span => .block (Stmt.withoutTypesOfAll statements) span
  | .returning value span => .returning (value.map Expr.withoutTypes) span

/-- Several statements without types in their expressions. -/
def Stmt.withoutTypesOfAll : List Stmt → List Stmt
  | [] => []
  | first :: rest => first.withoutTypes :: Stmt.withoutTypesOfAll rest

end

/-- A function declaration without types in the expressions of its body. -/
def FunDecl.withoutTypes (decl : FunDecl) : FunDecl :=
  { decl with
    body := { decl.body with statements := Stmt.withoutTypesOfAll decl.body.statements } }

/-- A declaration of a program without types in its expressions. -/
def Decl.withoutTypes : Decl → Decl
  | .funDecl decl => .funDecl decl.withoutTypes
  | .letDecl decl => .letDecl decl.withoutTypes

/-- A program without types in its expressions. -/
def Program.withoutTypes (program : Program) : Program :=
  { program with declarations := program.declarations.map Decl.withoutTypes }

theorem Expr.withoutTypes_withType (value : Expr) (type : Option Ty) :
    (value.withType type).withoutTypes = value.withoutTypes := by
  cases value <;> rfl

section Checking

variable (source : SourceId)

mutual

theorem Expr.withoutTypes_check (arena : Arena) : (value : Expr) →
    (value.check source arena).1.withoutTypes = value.withoutTypes
  | .binary op left right span type => by
      have leftErased := left.withoutTypes_check arena
      have rightErased := right.withoutTypes_check arena
      rw [Expr.check]
      generalize left.check source arena = leftChecked at leftErased ⊢
      generalize right.check source arena = rightChecked at rightErased ⊢
      rcases leftChecked with ⟨newLeft, _ | leftType⟩
      · simp only [Expr.withoutTypes, leftErased]
      · rcases rightChecked with ⟨newRight, _ | rightType⟩
        · simp only [Expr.withoutTypes, leftErased, rightErased]
        · dsimp only
          split <;> simp only [Expr.withoutTypes, leftErased, rightErased]
  | .unary op operand span type => by
      have operandErased := operand.withoutTypes_check arena
      rw [Expr.check]
      generalize operand.check source arena = checked at operandErased ⊢
      rcases checked with ⟨newOperand, _ | operandType⟩
      · simp only [Expr.withoutTypes, operandErased]
      · dsimp only
        split <;> simp only [Expr.withoutTypes, operandErased]
  | .call callee arguments span type => by
      have argumentsErased := Expr.withoutTypesOfAll_checkAll arena arguments
      rw [Expr.check]
      generalize Expr.checkAll source arena arguments = checked at argumentsErased ⊢
      cases callee.signature? arena with
      | none => rfl
      | some signature =>
          rcases checked with ⟨newArguments, _ | types⟩
          · simp only [Expr.withoutTypes, Expr.withoutTypes_withType, argumentsErased]
          · dsimp only
            split <;> simp only [Expr.withoutTypes, Expr.withoutTypes_withType, argumentsErased]
  | .grouping inner span type => by
      have innerErased := inner.withoutTypes_check arena
      rw [Expr.check]
      generalize inner.check source arena = checked at innerErased ⊢
      rcases checked with ⟨newInner, _ | innerType⟩ <;> simp only [Expr.withoutTypes, innerErased]
  | .literal value span type => by
      rw [Expr.check]
      cases value.type? <;> rfl
  | .identifier name symbol type => by
      rw [Expr.check]
      cases name.variableType source arena symbol <;> rfl

theorem Expr.withoutTypesOfAll_checkAll (arena : Arena) : (values : List Expr) →
    Expr.withoutTypesOfAll (Expr.checkAll source arena values).1 = Expr.withoutTypesOfAll values
  | [] => rfl
  | first :: rest => by
      have firstErased := first.withoutTypes_check arena
      have restErased := Expr.withoutTypesOfAll_checkAll arena rest
      rw [Expr.checkAll]
      generalize first.check source arena = firstChecked at firstErased ⊢
      generalize Expr.checkAll source arena rest = restChecked at restErased ⊢
      rcases firstChecked with ⟨newFirst, _ | type⟩
      · simp only [Expr.withoutTypesOfAll, firstErased]
      · rcases restChecked with ⟨newRest, _ | types⟩ <;>
          simp only [Expr.withoutTypesOfAll, firstErased, restErased]

end

theorem LetDecl.withoutTypes_check (arena : Arena) (decl : LetDecl) :
    (decl.check source arena).piece.withoutTypes = decl.withoutTypes := by
  rw [LetDecl.check]
  split
  · rfl
  · rename_i final _
    split
    · rfl
    · rename_i value value_eq
      have erased := value.withoutTypes_check source final
      generalize value.check source final = checked at erased ⊢
      rcases checked with ⟨newValue, _ | type⟩ <;>
        simp only [LetDecl.withoutTypes, value_eq, Option.map_some, erased]

mutual

theorem Stmt.withoutTypes_check (returnType : WrittenType) : (arena : Arena) →
    (statement : Stmt) →
      (statement.check source returnType arena).piece.withoutTypes = statement.withoutTypes
  | arena, .expression value span => by
      simp only [Stmt.check, Stmt.withoutTypes, value.withoutTypes_check]
  | arena, .letDecl decl => by
      simp only [Stmt.check, Checked.map, Stmt.withoutTypes, decl.withoutTypes_check]
  | arena, .block statements span => by
      simp only [Stmt.check, Checked.map, Stmt.withoutTypes,
        Stmt.withoutTypesOfAll_checkAll returnType arena statements]
  | arena, .returning none span => by simp only [Stmt.check]
  | arena, .returning (some value) span => by
      simp only [Stmt.check, Stmt.withoutTypes, Option.map_some, value.withoutTypes_check]

theorem Stmt.withoutTypesOfAll_checkAll (returnType : WrittenType) : (arena : Arena) →
    (statements : List Stmt) →
      Stmt.withoutTypesOfAll (Stmt.checkAll source returnType arena statements).piece =
        Stmt.withoutTypesOfAll statements
  | _, [] => rfl
  | arena, first :: rest => by
      simp only [Stmt.checkAll, Checked.after, Checked.map, Stmt.withoutTypesOfAll,
        first.withoutTypes_check returnType arena,
        Stmt.withoutTypesOfAll_checkAll returnType _ rest]

end

theorem FunDecl.withoutTypes_check (arena : Arena) (decl : FunDecl) :
    (decl.check source arena).piece.withoutTypes = decl.withoutTypes := by
  rw [FunDecl.check]
  split
  · rfl
  · split
    · rfl
    · simp only [Checked.map, FunDecl.withoutTypes, Stmt.withoutTypesOfAll_checkAll]

theorem Decl.withoutTypes_check (arena : Arena) (decl : Decl) :
    (decl.check source arena).piece.withoutTypes = decl.withoutTypes := by
  cases decl with
  | funDecl decl => exact congrArg Decl.funDecl (decl.withoutTypes_check source arena)
  | letDecl decl => exact congrArg Decl.letDecl (decl.withoutTypes_check source arena)

theorem Checked.map_piece_all {Piece Other : Type} {check : Arena → Piece → Checked Piece}
    (erase : Piece → Other)
    (unchanged : ∀ arena piece, erase (check arena piece).piece = erase piece) :
    ∀ (arena : Arena) (pieces : List Piece),
      (Checked.all check arena pieces).piece.map erase = pieces.map erase
  | _, [] => rfl
  | arena, first :: rest => by
      simp only [Checked.all, Checked.after, Checked.map, List.map_cons, unchanged,
        Checked.map_piece_all erase unchanged]

end Checking

theorem Program.withoutTypes_checkKnown (program : Program) (arena : Arena) :
    (program.checkKnown arena).piece.withoutTypes = program.withoutTypes := by
  simp only [Program.checkKnown, Checked.map, Program.withoutTypes,
    Checked.map_piece_all _ (Decl.withoutTypes_check program.source)]

theorem LetDecl.declaration_check (source : SourceId) (arena : Arena) (kind : SymbolKind)
    (decl : LetDecl) :
    (decl.check source arena).piece.declaration kind = decl.declaration kind := by
  change (decl.check source arena).piece.withoutTypes.declaration kind = _
  rw [decl.withoutTypes_check]
  rfl

theorem Stmt.declares_withoutTypes (statement : Stmt) :
    statement.withoutTypes.declares = statement.declares := by
  cases statement <;> rfl

theorem Stmt.declares_check (source : SourceId) (returnType : WrittenType) (arena : Arena)
    (statement : Stmt) :
    (statement.check source returnType arena).piece.declares = statement.declares := by
  rw [← Stmt.declares_withoutTypes, statement.withoutTypes_check, Stmt.declares_withoutTypes]

theorem Stmt.leavesOfAll_checkAll_cons (source : SourceId) (returnType : WrittenType)
    (arena : Arena) (outer : Context) (locals : List Declaration) (first : Stmt)
    (rest : List Stmt) :
    Stmt.leavesOfAll outer returnType locals
        (Stmt.checkAll source returnType arena (first :: rest)).piece =
      (first.check source returnType arena).piece.leaves (outer.enter (.block locals)) returnType ++
        Stmt.leavesOfAll outer returnType (locals ++ first.declares)
          (Stmt.checkAll source returnType
            (first.check source returnType arena).arena rest).piece := by
  rw [← first.declares_check source returnType arena, Stmt.checkAll]
  rfl

theorem Decl.leavesOfAll_check_letDecl (source : SourceId) (arena : Arena)
    (functions globals : List Declaration) (decl : LetDecl) (rest : List Decl) :
    Decl.leavesOfAll functions globals
        (Checked.all (Decl.check source) arena (.letDecl decl :: rest)).piece =
      ⟨{ functions := functions, globals := globals }, .letDecl (decl.check source arena).piece⟩ ::
        Decl.leavesOfAll functions (globals ++ [decl.declaration .globalVariable])
          (Checked.all (Decl.check source) (decl.check source arena).arena rest).piece := by
  rw [← decl.declaration_check source arena, Checked.all]
  rfl

theorem Program.functions_withoutTypes (program : Program) :
    program.withoutTypes.functions = program.functions.map FunDecl.withoutTypes := by
  apply Decl.filterMap_erase
  intro decl
  cases decl <;> rfl

theorem Program.functionDeclarations_withoutTypes (program : Program) :
    program.withoutTypes.functions.map FunDecl.declaration =
      program.functions.map FunDecl.declaration := by
  rw [Program.functions_withoutTypes, List.map_map]
  rfl

theorem Program.functionDeclarations_checkKnown (program : Program) (arena : Arena) :
    (program.checkKnown arena).piece.functions.map FunDecl.declaration =
      program.functions.map FunDecl.declaration := by
  rw [← Program.functionDeclarations_withoutTypes, program.withoutTypes_checkKnown,
    Program.functionDeclarations_withoutTypes]

mutual

theorem Stmt.declarations_withoutTypes : (statement : Stmt) →
    statement.withoutTypes.declarations = statement.declarations
  | .expression _ _ => rfl
  | .letDecl _ => rfl
  | .block statements _ => Stmt.declarationsOfAll_withoutTypes statements
  | .returning _ _ => rfl

theorem Stmt.declarationsOfAll_withoutTypes : (statements : List Stmt) →
    Stmt.declarationsOfAll (Stmt.withoutTypesOfAll statements) = Stmt.declarationsOfAll statements
  | [] => rfl
  | first :: rest => by
      simp only [Stmt.withoutTypesOfAll, Stmt.declarationsOfAll, first.declarations_withoutTypes,
        Stmt.declarationsOfAll_withoutTypes rest]

end

theorem Decl.typings_withoutTypes (decl : Decl) : decl.withoutTypes.typings = decl.typings := by
  cases decl with
  | funDecl decl =>
      have body := Stmt.declarationsOfAll_withoutTypes decl.body.statements
      simp only [Decl.withoutTypes, Decl.typings, FunDecl.declarations, FunDecl.withoutTypes, body]
      rfl
  | letDecl decl => rfl

theorem Program.typings_withoutTypes (program : Program) :
    program.withoutTypes.declarations.flatMap Decl.typings =
      program.declarations.flatMap Decl.typings := by
  simp only [withoutTypes, List.flatMap_map, Decl.typings_withoutTypes]

mutual

theorem Expr.symbols_withoutTypes : (value : Expr) → value.withoutTypes.symbols = value.symbols
  | .binary op left right span type => by
      simp only [Expr.withoutTypes, Expr.symbols, left.symbols_withoutTypes,
        right.symbols_withoutTypes]
  | .unary op operand span type => operand.symbols_withoutTypes
  | .call callee arguments span type => by
      simp only [Expr.withoutTypes, Expr.symbols, callee.symbols_withoutTypes,
        Expr.symbolsOfAll_withoutTypes arguments]
  | .grouping inner span type => inner.symbols_withoutTypes
  | .literal value span type => rfl
  | .identifier name symbol type => rfl

theorem Expr.symbolsOfAll_withoutTypes : (values : List Expr) →
    Expr.symbolsOfAll (Expr.withoutTypesOfAll values) = Expr.symbolsOfAll values
  | [] => rfl
  | first :: rest => by
      simp only [Expr.withoutTypesOfAll, Expr.symbolsOfAll, first.symbols_withoutTypes,
        Expr.symbolsOfAll_withoutTypes rest]

end

theorem Expr.symbolsOfOption_withoutTypes (value : Option Expr) :
    Expr.symbolsOfOption (value.map Expr.withoutTypes) = Expr.symbolsOfOption value := by
  cases value with
  | none => rfl
  | some value => exact value.symbols_withoutTypes

theorem LetDecl.symbols_withoutTypes (decl : LetDecl) :
    decl.withoutTypes.symbols = decl.symbols := by
  simp only [LetDecl.symbols, LetDecl.withoutTypes, Expr.symbolsOfOption_withoutTypes]

mutual

theorem Stmt.symbols_withoutTypes : (statement : Stmt) →
    statement.withoutTypes.symbols = statement.symbols
  | .expression value _ => value.symbols_withoutTypes
  | .letDecl decl => decl.symbols_withoutTypes
  | .block statements _ => Stmt.symbolsOfAll_withoutTypes statements
  | .returning value _ => Expr.symbolsOfOption_withoutTypes value

theorem Stmt.symbolsOfAll_withoutTypes : (statements : List Stmt) →
    Stmt.symbolsOfAll (Stmt.withoutTypesOfAll statements) = Stmt.symbolsOfAll statements
  | [] => rfl
  | first :: rest => by
      simp only [Stmt.withoutTypesOfAll, Stmt.symbolsOfAll, first.symbols_withoutTypes,
        Stmt.symbolsOfAll_withoutTypes rest]

end

theorem Decl.symbols_withoutTypes (decl : Decl) : decl.withoutTypes.symbols = decl.symbols := by
  cases decl with
  | funDecl decl =>
      simp only [Decl.withoutTypes, Decl.symbols, FunDecl.symbols, FunDecl.withoutTypes,
        Stmt.symbolsOfAll_withoutTypes]
  | letDecl decl => exact decl.symbols_withoutTypes

theorem Program.symbols_withoutTypes (program : Program) :
    program.withoutTypes.symbols = program.symbols := by
  simp only [symbols, withoutTypes, List.flatMap_map, Decl.symbols_withoutTypes]

mutual

theorem Expr.occurrences_withoutTypes (context : Context) : (use : Use) → (value : Expr) →
    value.withoutTypes.occurrences context use = value.occurrences context use
  | _, .binary op left right span type => by
      simp only [Expr.withoutTypes, Expr.occurrences, left.occurrences_withoutTypes,
        right.occurrences_withoutTypes]
  | _, .unary op operand span type => operand.occurrences_withoutTypes context .value
  | _, .call callee arguments span type => by
      simp only [Expr.withoutTypes, Expr.occurrences, callee.occurrences_withoutTypes,
        Expr.occurrencesOfAll_withoutTypes context arguments]
  | _, .grouping inner span type => inner.occurrences_withoutTypes context .value
  | _, .literal value span type => rfl
  | _, .identifier name symbol type => rfl

theorem Expr.occurrencesOfAll_withoutTypes (context : Context) : (values : List Expr) →
    Expr.occurrencesOfAll context (Expr.withoutTypesOfAll values) =
      Expr.occurrencesOfAll context values
  | [] => rfl
  | first :: rest => by
      simp only [Expr.withoutTypesOfAll, Expr.occurrencesOfAll, first.occurrences_withoutTypes,
        Expr.occurrencesOfAll_withoutTypes context rest]

end

theorem Leaf.occurrences_withoutTypes {context : Context} {statement erased : LeafStatement}
    (value_eq : erased.value? = statement.value?.map Expr.withoutTypes) :
    Leaf.occurrences ⟨context, erased⟩ = Leaf.occurrences ⟨context, statement⟩ := by
  simp only [Leaf.occurrences, value_eq]
  cases statement.value? with
  | none => rfl
  | some value =>
      simp only [Option.map_some, Option.toList_some, List.flatMap_singleton,
        value.occurrences_withoutTypes]

mutual

theorem Stmt.occurrences_withoutTypes (returnType : WrittenType) : (context : Context) →
    (statement : Stmt) →
      (statement.withoutTypes.leaves context returnType).flatMap Leaf.occurrences =
        (statement.leaves context returnType).flatMap Leaf.occurrences
  | _, .expression _ _ => by
      simp only [Stmt.withoutTypes, Stmt.leaves, List.flatMap_singleton]
      exact Leaf.occurrences_withoutTypes rfl
  | _, .letDecl _ => by
      simp only [Stmt.withoutTypes, Stmt.leaves, List.flatMap_singleton]
      exact Leaf.occurrences_withoutTypes rfl
  | context, .block statements _ =>
      Stmt.occurrencesOfAll_withoutTypes returnType context [] statements
  | _, .returning _ _ => by
      simp only [Stmt.withoutTypes, Stmt.leaves, List.flatMap_singleton]
      exact Leaf.occurrences_withoutTypes rfl

theorem Stmt.occurrencesOfAll_withoutTypes (returnType : WrittenType) (outer : Context) :
    (locals : List Declaration) → (statements : List Stmt) →
      (Stmt.leavesOfAll outer returnType locals (Stmt.withoutTypesOfAll statements)).flatMap
          Leaf.occurrences =
        (Stmt.leavesOfAll outer returnType locals statements).flatMap Leaf.occurrences
  | _, [] => rfl
  | locals, first :: rest => by
      simp only [Stmt.withoutTypesOfAll, Stmt.leavesOfAll, List.flatMap_append,
        first.occurrences_withoutTypes, Stmt.declares_withoutTypes,
        Stmt.occurrencesOfAll_withoutTypes returnType outer _ rest]

end

theorem Decl.occurrencesOfAll_withoutTypes (functions : List Declaration) :
    (globals : List Declaration) → (declarations : List Decl) →
      (leavesOfAll functions globals (declarations.map withoutTypes)).flatMap Leaf.occurrences =
        (leavesOfAll functions globals declarations).flatMap Leaf.occurrences
  | _, [] => rfl
  | globals, .funDecl decl :: rest => by
      have body := Stmt.occurrencesOfAll_withoutTypes decl.returnType
        (Context.enter (.parameters (decl.parameters.map Parameter.declaration))
          { functions := functions, globals := globals }) [] decl.body.statements
      simp only [List.map_cons, withoutTypes, leavesOfAll, List.flatMap_append,
        Decl.occurrencesOfAll_withoutTypes functions globals rest]
      exact congrArg (· ++ _) body
  | globals, .letDecl decl :: rest => by
      have others := Decl.occurrencesOfAll_withoutTypes functions
        (globals ++ [decl.declaration .globalVariable]) rest
      have own : Leaf.occurrences
          ⟨{ functions := functions, globals := globals }, .letDecl decl.withoutTypes⟩ =
          Leaf.occurrences ⟨{ functions := functions, globals := globals }, .letDecl decl⟩ :=
        Leaf.occurrences_withoutTypes rfl
      simp only [List.map_cons, withoutTypes, leavesOfAll, List.flatMap_cons, own, ← others]
      rfl

theorem Program.occurrences_withoutTypes (program : Program) :
    program.withoutTypes.occurrences = program.occurrences := by
  rw [occurrences, leaves, functionDeclarations_withoutTypes]
  exact Decl.occurrencesOfAll_withoutTypes _ [] program.declarations

end TypedLang
