import Mathlib.Logic.Equiv.Basic
import TypedLang.Proofs.Exchange.Violations

/-!
# Bindings in another order

A tree in which every identifier carries the symbol of what it means is determined by its shape and
by the symbols of its declarations. Two such trees of one shape therefore are the same up to the
numbers of their symbols, once the names mean corresponding declarations in both. In a program that
keeps the scope rules no two functions have the same name, so that names mean the same whatever the
order of the functions.
-/

namespace TypedLang

/-- An identifier carries the symbol of the declaration that it means. -/
def Occurrence.IsNumbered (occurrence : Occurrence) : Prop :=
  occurrence.symbol = occurrence.declaration?.bind Declaration.symbol

/-- All identifiers in a leaf carry the symbols of what they mean. -/
def Leaf.IsNumbered (leaf : Leaf) : Prop :=
  ∀ occurrence ∈ leaf.occurrences, occurrence.IsNumbered

theorem Occurrence.IsBound.isNumbered {arena : Arena} {occurrence : Occurrence}
    (bound : occurrence.IsBound arena) : occurrence.IsNumbered := by
  rw [Occurrence.IsBound] at bound
  rw [Occurrence.IsNumbered]
  generalize occurrence.symbol = symbol at bound ⊢
  generalize occurrence.declaration? = declaration? at bound ⊢
  cases bound with
  | some means => exact means.1.symm
  | none => rfl

theorem Leaf.IsBound.isNumbered {arena : Arena} {leaf : Leaf} (bound : leaf.IsBound arena) :
    leaf.IsNumbered :=
  fun occurrence member => (bound occurrence member).isNumbered

mutual

theorem Stmt.declarations_withoutSymbols : (statement : Stmt) →
    statement.withoutSymbols.declarations = statement.declarations.map Declaration.withoutSymbol
  | .expression _ _ => rfl
  | .letDecl _ => rfl
  | .block statements _ => Stmt.declarationsOfAll_withoutSymbols statements
  | .returning _ _ => rfl

theorem Stmt.declarationsOfAll_withoutSymbols : (statements : List Stmt) →
    Stmt.declarationsOfAll (Stmt.withoutSymbolsOfAll statements) =
      (Stmt.declarationsOfAll statements).map Declaration.withoutSymbol
  | [] => rfl
  | first :: rest => by
      simp only [Stmt.withoutSymbolsOfAll, Stmt.declarationsOfAll, List.map_append,
        first.declarations_withoutSymbols, Stmt.declarationsOfAll_withoutSymbols rest]

end

theorem Decl.declarations_withoutSymbols (decl : Decl) :
    decl.withoutSymbols.declarations = decl.declarations.map Declaration.withoutSymbol := by
  cases decl with
  | funDecl decl =>
      have body := Stmt.declarationsOfAll_withoutSymbols decl.body.statements
      simp only [Decl.declarations, Decl.withoutSymbols, FunDecl.declarations,
        FunDecl.withoutSymbols, body, List.map_append, List.map_map]
      rfl
  | letDecl decl => rfl

theorem Program.allDeclarations_withoutSymbols (program : Program) :
    program.withoutSymbols.allDeclarations =
      program.allDeclarations.map Declaration.withoutSymbol := by
  simp only [allDeclarations, functions_withoutSymbols, List.map_append, List.map_map,
    Function.comp_def, FunDecl.declaration_withoutSymbols]
  simp only [withoutSymbols, List.flatMap_map, Decl.declarations_withoutSymbols, List.map_flatMap]

section Renumbering

variable {numbering : SymbolId → SymbolId}

theorem Declaration.first?_renumber (declarations : List Declaration) (key : Key) :
    first? (declarations.map (renumber numbering)) key =
      (first? declarations key).map (renumber numbering) :=
  List.find?_map ..

theorem Declaration.latest?_renumber (declarations : List Declaration) (key : Key) :
    latest? (declarations.map (renumber numbering)) key =
      (latest? declarations key).map (renumber numbering) := by
  rw [latest?, ← List.map_reverse]
  exact List.find?_map ..

theorem Stmt.declares_renumber (statement : Stmt) :
    (statement.renumber numbering).declares =
      statement.declares.map (Declaration.renumber numbering) := by
  cases statement <;> rfl

/-- A declaration is determined by what is written there and by its symbol. -/
theorem Declaration.eq_renumber {declaration other : Declaration}
    (shape : other.withoutSymbol = declaration.withoutSymbol)
    (symbol_eq : other.symbol = declaration.symbol.map numbering) :
    other = declaration.renumber numbering := by
  cases declaration
  cases other
  simp only [withoutSymbol, mk.injEq] at shape
  rcases shape with ⟨rfl, rfl, rfl, rfl, _⟩
  exact congrArg _ symbol_eq

theorem Declaration.map_eq_renumber : {declarations others : List Declaration} →
    others.map withoutSymbol = declarations.map withoutSymbol →
    others.map symbol = (declarations.map symbol).map (Option.map numbering) →
      others = declarations.map (renumber numbering)
  | [], [], _, _ => rfl
  | [], _ :: _, shape, _ => by cases shape
  | _ :: _, [], shape, _ => by cases shape
  | first :: rest, other :: others, shape, symbols_eq => by
      simp only [List.map_cons, List.cons.injEq] at shape symbols_eq ⊢
      exact ⟨eq_renumber shape.1 symbols_eq.1, map_eq_renumber shape.2 symbols_eq.2⟩

section Expressions

variable {context otherContext : Context}

theorem Occurrence.IsNumbered.symbol_eq
    (agree : Context.Agree (Declaration.renumber numbering) id context otherContext) {name : Name}
    {symbol otherSymbol : Option SymbolId} {use : Use}
    (own : Occurrence.IsNumbered ⟨name, symbol, use, context⟩)
    (otherOwn : Occurrence.IsNumbered ⟨name, otherSymbol, use, otherContext⟩) :
    otherSymbol = symbol.map numbering := by
  have means := agree name.key
  simp only [Occurrence.IsNumbered, Occurrence.declaration?] at own otherOwn
  rw [Option.map_id_fun, id] at means
  rw [own, otherOwn, means]
  cases context.declaration? name.key <;> rfl

mutual

theorem Expr.eq_renumber
    (agree : Context.Agree (Declaration.renumber numbering) id context otherContext) :
    (use : Use) → (value other : Expr) → other.withoutSymbols = value.withoutSymbols →
    (∀ occurrence ∈ value.occurrences context use, occurrence.IsNumbered) →
    (∀ occurrence ∈ other.occurrences otherContext use, occurrence.IsNumbered) →
      other = value.renumber numbering
  | _, .binary op left right span type, other, shape, own, otherOwn => by
      cases other with
      | binary otherOp otherLeft otherRight otherSpan otherType =>
          simp only [Expr.withoutSymbols, Expr.binary.injEq] at shape
          simp only [Expr.occurrences, List.forall_mem_append] at own otherOwn
          rcases shape with ⟨rfl, leftShape, rightShape, rfl, rfl⟩
          rw [Expr.renumber, ← left.eq_renumber agree .value otherLeft leftShape own.1 otherOwn.1,
            ← right.eq_renumber agree .value otherRight rightShape own.2 otherOwn.2]
      | _ => cases shape
  | _, .unary op operand span type, other, shape, own, otherOwn => by
      cases other with
      | unary otherOp otherOperand otherSpan otherType =>
          simp only [Expr.withoutSymbols, Expr.unary.injEq] at shape
          rcases shape with ⟨rfl, operandShape, rfl, rfl⟩
          rw [Expr.renumber,
            ← operand.eq_renumber agree .value otherOperand operandShape own otherOwn]
      | _ => cases shape
  | _, .call callee arguments span type, other, shape, own, otherOwn => by
      cases other with
      | call otherCallee otherArguments otherSpan otherType =>
          simp only [Expr.withoutSymbols, Expr.call.injEq] at shape
          simp only [Expr.occurrences, List.forall_mem_append] at own otherOwn
          rcases shape with ⟨calleeShape, argumentsShape, rfl, rfl⟩
          rw [Expr.renumber,
            ← callee.eq_renumber agree .callee otherCallee calleeShape own.1 otherOwn.1,
            ← Expr.all_eq_renumberAll agree arguments otherArguments argumentsShape own.2
              otherOwn.2]
      | _ => cases shape
  | _, .grouping inner span type, other, shape, own, otherOwn => by
      cases other with
      | grouping otherInner otherSpan otherType =>
          simp only [Expr.withoutSymbols, Expr.grouping.injEq] at shape
          rcases shape with ⟨innerShape, rfl, rfl⟩
          rw [Expr.renumber, ← inner.eq_renumber agree .value otherInner innerShape own otherOwn]
      | _ => cases shape
  | _, .literal value span type, other, shape, _, _ => by
      cases other with
      | literal otherValue otherSpan otherType => exact shape
      | _ => cases shape
  | use, .identifier name symbol type, other, shape, own, otherOwn => by
      cases other with
      | identifier otherName otherSymbol otherType =>
          simp only [Expr.withoutSymbols, Expr.identifier.injEq] at shape
          simp only [Expr.occurrences, List.forall_mem_singleton] at own otherOwn
          rcases shape with ⟨rfl, _, rfl⟩
          rw [Expr.renumber, Occurrence.IsNumbered.symbol_eq agree own otherOwn]
      | _ => cases shape

theorem Expr.all_eq_renumberAll
    (agree : Context.Agree (Declaration.renumber numbering) id context otherContext) :
    (values others : List Expr) →
    Expr.withoutSymbolsOfAll others = Expr.withoutSymbolsOfAll values →
    (∀ occurrence ∈ Expr.occurrencesOfAll context values, occurrence.IsNumbered) →
    (∀ occurrence ∈ Expr.occurrencesOfAll otherContext others, occurrence.IsNumbered) →
      others = Expr.renumberAll numbering values
  | [], [], _, _, _ => rfl
  | [], _ :: _, shape, _, _ => by cases shape
  | _ :: _, [], shape, _, _ => by cases shape
  | first :: rest, other :: others, shape, own, otherOwn => by
      simp only [Expr.withoutSymbolsOfAll, List.cons.injEq] at shape
      simp only [Expr.occurrencesOfAll, List.forall_mem_append] at own otherOwn
      rw [Expr.renumberAll, ← first.eq_renumber agree .value other shape.1 own.1 otherOwn.1,
        ← Expr.all_eq_renumberAll agree rest others shape.2 own.2 otherOwn.2]

end

theorem Expr.option_eq_renumber
    (agree : Context.Agree (Declaration.renumber numbering) id context otherContext)
    {value other : Option Expr}
    (shape : other.map Expr.withoutSymbols = value.map Expr.withoutSymbols)
    (own : ∀ occurrence ∈ value.toList.flatMap fun value => value.occurrences context .value,
      occurrence.IsNumbered)
    (otherOwn : ∀ occurrence ∈
      other.toList.flatMap fun value => value.occurrences otherContext .value,
      occurrence.IsNumbered) :
    other = value.map (Expr.renumber numbering) := by
  cases value with
  | none => exact Option.map_eq_none_iff.mp shape
  | some value =>
      rcases Option.map_eq_some_iff.mp shape with ⟨other, rfl, valueShape⟩
      simp only [Option.toList_some, List.flatMap_singleton] at own otherOwn
      rw [Option.map_some, ← value.eq_renumber agree .value other valueShape own otherOwn]

theorem LetDecl.eq_renumber
    (agree : Context.Agree (Declaration.renumber numbering) id context otherContext)
    {decl other : LetDecl} (shape : other.withoutSymbols = decl.withoutSymbols)
    (symbol_eq : other.symbol = decl.symbol.map numbering)
    (own : Leaf.IsNumbered ⟨context, .letDecl decl⟩)
    (otherOwn : Leaf.IsNumbered ⟨otherContext, .letDecl other⟩) :
    other = decl.renumber numbering := by
  rcases decl with ⟨name, type, initializer, symbol, span⟩
  rcases other with ⟨otherName, otherType, otherInitializer, otherSymbol, otherSpan⟩
  simp only [LetDecl.withoutSymbols, LetDecl.mk.injEq] at shape
  rcases shape with ⟨rfl, rfl, initializerShape, _, rfl⟩
  simp only [LetDecl.renumber, LetDecl.mk.injEq, true_and, and_true]
  exact ⟨Expr.option_eq_renumber agree initializerShape own otherOwn, symbol_eq⟩

end Expressions

theorem Stmt.length_declarations_of_shape {statement other : Stmt}
    (shape : other.withoutSymbols = statement.withoutSymbols) :
    other.declarations.length = statement.declarations.length := by
  have lengths := congrArg (fun piece => piece.declarations.length) shape
  simpa only [declarations_withoutSymbols, List.length_map] using lengths

theorem Level.declaration?_block_renumber (declared : List Declaration) (key : Key) :
    ((Level.block (declared.map (Declaration.renumber numbering))).declaration? key).map id =
      ((Level.block declared).declaration? key).map (Declaration.renumber numbering) := by
  rw [Option.map_id_fun]
  exact Declaration.latest?_renumber declared key

theorem Level.declaration?_parameters_renumber (declared : List Declaration) (key : Key) :
    ((Level.parameters (declared.map (Declaration.renumber numbering))).declaration? key).map id =
      ((Level.parameters declared).declaration? key).map (Declaration.renumber numbering) := by
  rw [Option.map_id_fun]
  exact Declaration.first?_renumber declared key

mutual

theorem Stmt.eq_renumber (returnType : WrittenType) : {context otherContext : Context} →
    Context.Agree (Declaration.renumber numbering) id context otherContext →
    (statement other : Stmt) → other.withoutSymbols = statement.withoutSymbols →
    other.declarations = statement.declarations.map (Declaration.renumber numbering) →
    (∀ leaf ∈ statement.leaves context returnType, leaf.IsNumbered) →
    (∀ leaf ∈ other.leaves otherContext returnType, leaf.IsNumbered) →
      other = statement.renumber numbering
  | _, _, agree, .expression value span, other, shape, _, own, otherOwn => by
      cases other with
      | expression otherValue otherSpan =>
          simp only [Stmt.withoutSymbols, Stmt.expression.injEq] at shape
          rcases shape with ⟨valueShape, rfl⟩
          have someShape : (some otherValue).map Expr.withoutSymbols =
              (some value).map Expr.withoutSymbols := congrArg some valueShape
          have values_eq := Expr.option_eq_renumber agree someShape (own _ List.mem_cons_self)
            (otherOwn _ List.mem_cons_self)
          rw [Stmt.renumber, Option.some.inj values_eq]
      | _ => cases shape
  | _, _, agree, .letDecl decl, other, shape, declared, own, otherOwn => by
      cases other with
      | letDecl otherDecl =>
          have symbol_eq := congrArg Declaration.symbol (List.cons.inj declared).1
          rw [Stmt.renumber, ← LetDecl.eq_renumber agree (Stmt.letDecl.inj shape) symbol_eq
            (own _ List.mem_cons_self) (otherOwn _ List.mem_cons_self)]
      | _ => cases shape
  | _, _, agree, .block statements span, other, shape, declared, own, otherOwn => by
      cases other with
      | block otherStatements otherSpan =>
          simp only [Stmt.withoutSymbols, Stmt.block.injEq] at shape
          rcases shape with ⟨statementsShape, rfl⟩
          rw [Stmt.renumber, ← Stmt.all_eq_renumberAll returnType agree [] statements
            otherStatements statementsShape declared own otherOwn]
      | _ => cases shape
  | _, _, agree, .returning value span, other, shape, _, own, otherOwn => by
      cases other with
      | returning otherValue otherSpan =>
          simp only [Stmt.withoutSymbols, Stmt.returning.injEq] at shape
          rcases shape with ⟨valueShape, rfl⟩
          rw [Stmt.renumber, Expr.option_eq_renumber agree valueShape
            (own _ List.mem_cons_self) (otherOwn _ List.mem_cons_self)]
      | _ => cases shape

theorem Stmt.all_eq_renumberAll (returnType : WrittenType) : {outer otherOuter : Context} →
    Context.Agree (Declaration.renumber numbering) id outer otherOuter →
    (locals : List Declaration) → (statements others : List Stmt) →
    Stmt.withoutSymbolsOfAll others = Stmt.withoutSymbolsOfAll statements →
    Stmt.declarationsOfAll others =
      (Stmt.declarationsOfAll statements).map (Declaration.renumber numbering) →
    (∀ leaf ∈ Stmt.leavesOfAll outer returnType locals statements, leaf.IsNumbered) →
    (∀ leaf ∈ Stmt.leavesOfAll otherOuter returnType
      (locals.map (Declaration.renumber numbering)) others, leaf.IsNumbered) →
      others = Stmt.renumberAll numbering statements
  | _, _, _, _, [], [], _, _, _, _ => rfl
  | _, _, _, _, [], _ :: _, shape, _, _, _ => by cases shape
  | _, _, _, _, _ :: _, [], shape, _, _, _ => by cases shape
  | _, _, agree, locals, first :: rest, other :: others, shape, declared, own, otherOwn => by
      simp only [Stmt.withoutSymbolsOfAll, List.cons.injEq] at shape
      simp only [Stmt.declarationsOfAll, List.map_append] at declared
      simp only [Stmt.leavesOfAll, List.forall_mem_append] at own otherOwn
      have lengths := (Stmt.length_declarations_of_shape shape.1).trans
        (List.length_map (Declaration.renumber numbering)).symm
      rcases List.append_inj declared lengths with ⟨firstDeclared, restDeclared⟩
      have entered := agree.enter (Level.declaration?_block_renumber locals)
      have first_eq := first.eq_renumber returnType entered other shape.1 firstDeclared own.1
        otherOwn.1
      have otherOwnRest := otherOwn.2
      rw [first_eq, Stmt.declares_renumber, ← List.map_append] at otherOwnRest
      rw [Stmt.renumberAll, ← first_eq, ← Stmt.all_eq_renumberAll returnType agree _ rest others
        shape.2 restDeclared own.2 otherOwnRest]

end

theorem Parameter.all_eq_renumber : {parameters others : List Parameter} →
    others.map withoutSymbol = parameters.map withoutSymbol →
    others.map declaration = (parameters.map declaration).map (Declaration.renumber numbering) →
      others = parameters.map (renumber numbering)
  | [], [], _, _ => rfl
  | [], _ :: _, shape, _ => by cases shape
  | _ :: _, [], shape, _ => by cases shape
  | ⟨_, _, _, _⟩ :: _, ⟨_, _, _, _⟩ :: _, shape, declared => by
      simp only [List.map_cons, List.cons.injEq, withoutSymbol, mk.injEq] at shape declared ⊢
      rcases shape with ⟨⟨rfl, rfl, _, rfl⟩, restShape⟩
      have symbol_eq := congrArg Declaration.symbol declared.1
      exact ⟨congrArg (Parameter.mk _ _ · _) symbol_eq, all_eq_renumber restShape declared.2⟩

theorem FunDecl.eq_renumber {context otherContext : Context}
    (agree : Context.Agree (Declaration.renumber numbering) id context otherContext)
    {decl other : FunDecl} (shape : other.withoutSymbols = decl.withoutSymbols)
    (symbol_eq : other.symbol = decl.symbol.map numbering)
    (declared : other.declarations = decl.declarations.map (Declaration.renumber numbering))
    (own : ∀ leaf ∈ decl.leaves context, leaf.IsNumbered)
    (otherOwn : ∀ leaf ∈ other.leaves otherContext, leaf.IsNumbered) :
    other = decl.renumber numbering := by
  rcases decl with ⟨name, parameters, returnType, ⟨statements, bodySpan⟩, symbol, span⟩
  rcases other with ⟨_, others, _, ⟨otherStatements, _⟩, otherSymbol, _⟩
  simp only [FunDecl.withoutSymbols, FunDecl.mk.injEq, Block.mk.injEq] at shape
  rcases shape with ⟨rfl, parametersShape, rfl, ⟨bodyShape, rfl⟩, _, rfl⟩
  simp only [FunDecl.declarations, List.map_append] at declared
  have lengths : (others.map Parameter.declaration).length =
      ((parameters.map Parameter.declaration).map (Declaration.renumber numbering)).length := by
    simpa only [List.length_map] using congrArg List.length parametersShape
  rcases List.append_inj declared lengths with ⟨parametersDeclared, bodyDeclared⟩
  simp only [FunDecl.leaves] at own otherOwn
  rw [parametersDeclared] at otherOwn
  have entered := agree.enter
    (Level.declaration?_parameters_renumber (parameters.map Parameter.declaration))
  have body_eq := Stmt.all_eq_renumberAll _ entered [] statements otherStatements bodyShape
    bodyDeclared own otherOwn
  simp only [FunDecl.renumber, FunDecl.mk.injEq, Block.mk.injEq, true_and, and_true]
  exact ⟨Parameter.all_eq_renumber parametersShape parametersDeclared, body_eq, symbol_eq⟩

theorem Decl.length_declarations_of_shape {decl other : Decl}
    (shape : other.withoutSymbols = decl.withoutSymbols) :
    other.declarations.length = decl.declarations.length := by
  have lengths := congrArg (fun piece => piece.declarations.length) shape
  simpa only [declarations_withoutSymbols, List.length_map] using lengths

/-- Declarations of one shape, the functions of which are the given ones in some order. -/
theorem Decl.all_eq_renumber {functions others : List Declaration}
    (same : ∀ key, (Declaration.first? others key).map id =
      (Declaration.first? functions key).map (Declaration.renumber numbering)) :
    (globals : List Declaration) → (declarations piece : List Decl) →
    piece.map withoutSymbols = declarations.map withoutSymbols →
    (piece.filterMap function?).map FunDecl.declaration =
      ((declarations.filterMap function?).map FunDecl.declaration).map
        (Declaration.renumber numbering) →
    piece.flatMap Decl.declarations =
      (declarations.flatMap Decl.declarations).map (Declaration.renumber numbering) →
    (∀ leaf ∈ leavesOfAll functions globals declarations, leaf.IsNumbered) →
    (∀ leaf ∈ leavesOfAll others (globals.map (Declaration.renumber numbering)) piece,
      leaf.IsNumbered) →
      piece = declarations.map (renumber numbering)
  | _, [], [], _, _, _, _, _ => rfl
  | _, [], _ :: _, shape, _, _, _, _ => by cases shape
  | _, _ :: _, [], shape, _, _, _, _ => by cases shape
  | globals, .funDecl decl :: rest, other :: others, shape, named, declared, own, otherOwn => by
      cases other with
      | letDecl _ => cases shape
      | funDecl other =>
          simp only [List.map_cons, List.cons.injEq] at shape
          simp only [List.filterMap_cons, function?, List.map_cons, List.cons.injEq] at named
          simp only [List.flatMap_cons, List.map_append] at declared
          simp only [leavesOfAll, List.forall_mem_append] at own otherOwn
          have lengths := (length_declarations_of_shape shape.1).trans
            (List.length_map (Declaration.renumber numbering)).symm
          rcases List.append_inj declared lengths with ⟨firstDeclared, restDeclared⟩
          have agree := Context.Agree.of_global same
            (Level.declaration?_parameters_renumber globals)
          have first_eq := FunDecl.eq_renumber agree (Decl.funDecl.inj shape.1)
            (congrArg Declaration.symbol named.1) firstDeclared own.1 otherOwn.1
          have rest_eq := Decl.all_eq_renumber same globals rest others shape.2 named.2 restDeclared
            own.2 otherOwn.2
          rw [List.map_cons, renumber, ← first_eq, ← rest_eq]
  | globals, .letDecl decl :: rest, other :: others, shape, named, declared, own, otherOwn => by
      cases other with
      | funDecl _ => cases shape
      | letDecl other =>
          simp only [List.map_cons, List.cons.injEq] at shape
          simp only [List.flatMap_cons, List.map_append] at declared
          simp only [leavesOfAll, List.forall_mem_cons] at own otherOwn
          rcases List.cons.inj declared with ⟨firstDeclared, restDeclared⟩
          have agree := Context.Agree.of_global same
            (Level.declaration?_parameters_renumber globals)
          have first_eq := LetDecl.eq_renumber agree (Decl.letDecl.inj shape.1)
            (congrArg Declaration.symbol firstDeclared) own.1 otherOwn.1
          have globals_eq : globals.map (Declaration.renumber numbering) ++
              [other.declaration .globalVariable] =
              (globals ++ [decl.declaration .globalVariable]).map
                (Declaration.renumber numbering) := by
            rw [firstDeclared, List.map_append, List.map_singleton]
          have otherOwnRest := otherOwn.2
          rw [globals_eq] at otherOwnRest
          have rest_eq := Decl.all_eq_renumber same _ rest others shape.2 named restDeclared own.2
            otherOwnRest
          rw [List.map_cons, renumber, ← first_eq, ← rest_eq]

end Renumbering

namespace Declaration

/-- Where no name is repeated, the first declaration of a name is the only one. -/
theorem first?_eq_some_iff {declarations : List Declaration}
    (distinct : (declarations.map (·.name.key)).Nodup) (key : Key) (declaration : Declaration) :
    first? declarations key = some declaration ↔
      declaration ∈ declarations ∧ declaration.name.key = key := by
  constructor
  · intro found
    exact ⟨List.mem_of_find?_eq_some found, key_of_first? found⟩
  · rintro ⟨member, rfl⟩
    cases found : first? declarations declaration.name.key with
    | none =>
        have unused := (first?_eq_none_iff _ _).mp found
        exact absurd (List.mem_map_of_mem member) unused
    | some other =>
        have same := List.inj_on_of_nodup_map distinct (List.mem_of_find?_eq_some found) member
          (key_of_first? found)
        rw [same]

theorem first?_eq_of_perm {declarations others : List Declaration} (perm : declarations.Perm others)
    (distinct : (declarations.map (·.name.key)).Nodup) (key : Key) :
    first? declarations key = first? others key := by
  have otherDistinct := (perm.map (·.name.key)).nodup_iff.mp distinct
  apply Option.ext
  intro declaration
  rw [first?_eq_some_iff distinct, first?_eq_some_iff otherDistinct, perm.mem_iff]

end Declaration

/-- Two lists of different numbers can be carried over into each other. -/
theorem exists_numbering {numbers others : List SymbolId} (distinct : numbers.Nodup)
    (otherDistinct : others.Nodup) (lengths : numbers.length = others.length) :
    ∃ numbering : Equiv.Perm SymbolId, numbers.map numbering = others := by
  induction numbers generalizing others with
  | nil => exact ⟨.refl SymbolId, (List.length_eq_zero_iff.mp lengths.symm).symm⟩
  | cons first rest ih =>
      rcases others with _ | ⟨other, others⟩
      · cases lengths
      · rw [List.nodup_cons] at distinct otherDistinct
        rcases ih distinct.2 otherDistinct.2 (Nat.succ.inj lengths) with ⟨numbering, rest_eq⟩
        -- The rest has its numbers already; the first number is brought to its place afterwards.
        refine ⟨numbering.trans (Equiv.swap (numbering first) other), ?_⟩
        rw [List.map_cons]
        congr 1
        · exact Equiv.swap_apply_left _ _
        · rw [← rest_eq]
          refine List.map_congr_left fun number member => ?_
          apply Equiv.swap_apply_of_ne_of_ne
          · intro same
            exact distinct.1 (numbering.injective same ▸ member)
          · intro same
            exact otherDistinct.1 (rest_eq ▸ same ▸ List.mem_map_of_mem member)

/-- If all declarations have symbols, none is left out when the symbols are listed. -/
theorem Declaration.map_some_symbols {declarations : List Declaration}
    (accepted : ∀ declaration ∈ declarations, declaration.symbol ≠ none) :
    (declarations.filterMap symbol).map some = declarations.map symbol := by
  induction declarations with
  | nil => rfl
  | cons first rest ih =>
      rw [List.forall_mem_cons] at accepted
      rcases Option.ne_none_iff_exists'.mp accepted.1 with ⟨id, own⟩
      rw [List.filterMap_cons_some own, List.map_cons, List.map_cons, own, ih accepted.2]

/-- All declarations have symbols of their own, which the identifiers that mean them carry. -/
structure Program.IsNumbered (program : Program) : Prop where
  accepted : ∀ declaration ∈ program.allDeclarations, declaration.symbol ≠ none
  distinct : (program.allDeclarations.filterMap Declaration.symbol).Nodup
  own : ∀ leaf ∈ program.leaves, leaf.IsNumbered

theorem Program.isNumbered_resolve {program : Program} (fresh : program.symbols = [])
    (clean : (program.resolve .empty).errors = []) :
    (program.resolve .empty).program.IsNumbered := by
  rcases program.resolve_conforms .empty fresh with ⟨records, bound, _⟩
  exact ⟨(resolve_accepts fresh clean).2, records.symbols_nodup,
    fun leaf member => (bound leaf member).isNumbered⟩

namespace Program

variable {position : Nat} {program : Program}

theorem allDeclarations_exchange_perm (position : Nat) (program : Program) :
    (program.exchange position).allDeclarations.Perm program.allDeclarations := by
  refine (allDeclarations_perm _).trans (.trans ?_ program.allDeclarations_perm.symm)
  exact (Decl.exchange_perm position program.declarations).flatMap_right _

/-- A program is determined by its shape and the symbols of its declarations. -/
theorem eq_renumber {numbering : SymbolId → SymbolId} {other : Program}
    (neighbours : Decl.Neighbours position program.declarations) (wellScoped : program.WellScoped)
    (shape : other.withoutSymbols = (program.exchange position).withoutSymbols)
    (declared : other.allDeclarations =
      (program.exchange position).allDeclarations.map (Declaration.renumber numbering))
    (own : ∀ leaf ∈ program.leaves, leaf.IsNumbered)
    (otherOwn : ∀ leaf ∈ other.leaves, leaf.IsNumbered) :
    other = (program.exchange position).renumber numbering := by
  have functionsShape : other.functions.map FunDecl.withoutSymbols =
      (program.exchange position).functions.map FunDecl.withoutSymbols := by
    rw [← functions_withoutSymbols, shape, functions_withoutSymbols]
  have lengths : (other.functions.map FunDecl.declaration).length =
      (((program.exchange position).functions.map FunDecl.declaration).map
        (Declaration.renumber numbering)).length := by
    simpa only [List.length_map] using congrArg List.length functionsShape
  rw [allDeclarations, allDeclarations, List.map_append] at declared
  rcases List.append_inj declared lengths with ⟨named, inside⟩
  have distinct : ((program.functions.map FunDecl.declaration).map (·.name.key)).Nodup := by
    have globals := wellScoped.globals
    rw [globalDeclarations, List.map_append] at globals
    exact globals.of_append_left
  have same : ∀ key, (Declaration.first? (other.functions.map FunDecl.declaration) key).map id =
      (Declaration.first? (program.functions.map FunDecl.declaration) key).map
        (Declaration.renumber numbering) := by
    intro key
    have perm := (functions_exchange_perm position program).symm.map FunDecl.declaration
    rw [Option.map_id_fun, id, named, Declaration.first?_renumber,
      Declaration.first?_eq_of_perm perm distinct]
  have leaves := neighbours.leavesOfAll_perm (program.functions.map FunDecl.declaration) []
  have declarations_eq := Decl.all_eq_renumber same [] (program.exchange position).declarations
    other.declarations (congrArg declarations shape) named inside
    (fun leaf member => own leaf (leaves.mem_iff.mp member)) otherOwn
  have source_eq := congrArg source shape
  have span_eq := congrArg span shape
  rcases other with ⟨otherDeclarations, otherSource, otherSpan⟩
  exact congr (congr (congrArg Program.mk declarations_eq) source_eq) span_eq

/-- Two programs of one shape, in which all is numbered, differ by a renumbering. -/
theorem exists_renumber {other : Program}
    (neighbours : Decl.Neighbours position program.declarations) (wellScoped : program.WellScoped)
    (shape : other.withoutSymbols = (program.exchange position).withoutSymbols)
    (numbers : program.IsNumbered) (otherNumbers : other.IsNumbered) :
    ∃ numbering : Equiv.Perm SymbolId,
      other = (program.exchange position).renumber numbering := by
  have exchanged := allDeclarations_exchange_perm position program
  have distinct := (exchanged.filterMap Declaration.symbol).nodup_iff.mpr numbers.distinct
  have symbols_eq := Declaration.map_some_symbols fun declaration member =>
    numbers.accepted declaration (exchanged.mem_iff.mp member)
  have otherSymbols_eq := Declaration.map_some_symbols otherNumbers.accepted
  have declarationsShape := congrArg allDeclarations shape
  rw [allDeclarations_withoutSymbols, allDeclarations_withoutSymbols] at declarationsShape
  have lengths : ((program.exchange position).allDeclarations.filterMap Declaration.symbol).length =
      (other.allDeclarations.filterMap Declaration.symbol).length := by
    have fewer := congrArg List.length symbols_eq
    have otherFewer := congrArg List.length otherSymbols_eq
    have same := congrArg List.length declarationsShape
    simp only [List.length_map] at fewer otherFewer same
    rw [fewer, otherFewer, same]
  rcases exists_numbering distinct otherNumbers.distinct lengths with ⟨numbering, numbering_eq⟩
  refine ⟨numbering, eq_renumber neighbours wellScoped shape ?_ numbers.own otherNumbers.own⟩
  apply Declaration.map_eq_renumber declarationsShape
  rw [← symbols_eq, ← otherSymbols_eq, ← numbering_eq, List.map_map, List.map_map]
  rfl

/-- A program that keeps the scope rules is bound the same in another order, up to the numbers. -/
theorem resolve_exchange (fresh : program.symbols = [])
    (neighbours : Decl.Neighbours position program.declarations)
    (clean : (program.resolve .empty).errors = [])
    (otherClean : ((program.exchange position).resolve .empty).errors = []) :
    ∃ numbering : Equiv.Perm SymbolId, ((program.exchange position).resolve .empty).program =
      ((program.resolve .empty).program.exchange position).renumber numbering := by
  have otherFresh := symbols_exchange position fresh
  have shape := program.withoutSymbols_resolve .empty
  have otherShape := (program.exchange position).withoutSymbols_resolve .empty
  have kept : (program.resolve .empty).program.declarations.map Decl.withoutSymbols =
      program.declarations := by
    rw [program.withoutSymbols_of_fresh fresh] at shape
    exact congrArg declarations shape
  have stillNeighbours := Decl.Neighbours.of_withoutSymbols (kept.symm ▸ neighbours)
  apply exists_renumber stillNeighbours (resolve_accepts fresh clean).1
  · rw [otherShape, withoutSymbols_exchange, withoutSymbols_exchange, shape]
  · exact isNumbered_resolve fresh clean
  · exact isNumbered_resolve otherFresh otherClean

end Program

end TypedLang
