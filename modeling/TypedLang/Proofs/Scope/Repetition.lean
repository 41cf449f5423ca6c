import TypedLang.Proofs.Exchange.Trees
import TypedLang.Proofs.Scope.Guard
import TypedLang.Proofs.Typing.Erasure

/-!
# Resolution of a tree that is bound already

A tree may be resolved once more, over an arena that holds other symbols by then. The second run
opens and closes the same scopes as the first one did and binds the same names in them, to other
numbers. A name that is found now was found then, and a name that is not found now has no symbol from
then either, so that no old symbol is ever consulted. The tables of both runs are compared step by
step, and the trees come out the same up to the numbers.
-/

namespace TypedLang

/-- A binding to the symbol with another number. -/
def Binding.renumber (numbering : SymbolId → SymbolId) (binding : Binding) : Binding :=
  { binding with id := numbering binding.id }

/-- Open scopes that bind the same names, to other numbers. -/
def ScopeStack.renumber (numbering : SymbolId → SymbolId) (scopes : ScopeStack) : ScopeStack where
  innermost := scopes.innermost.map (Binding.renumber numbering)
  enclosing := scopes.enclosing.map (List.map (Binding.renumber numbering))

theorem Scope.find?_renumber (numbering : SymbolId → SymbolId) (scope : Scope) (name : Key) :
    Scope.find? (scope.map (Binding.renumber numbering)) name =
      (scope.find? name).map (Binding.renumber numbering) :=
  List.find?_map ..

theorem ScopeStack.lookup_renumber (numbering : SymbolId → SymbolId) (scopes : ScopeStack)
    (name : Key) : (scopes.renumber numbering).lookup name =
      (scopes.lookup name).map (Binding.renumber numbering) := by
  simp only [lookup, renumber, ← List.map_cons, List.findSome?_map, Function.comp_def,
    Scope.find?_renumber]
  induction scopes.innermost :: scopes.enclosing with
  | nil => rfl
  | cons scope rest ih =>
      rw [List.findSome?_cons, List.findSome?_cons, ih]
      cases scope.find? name <;> rfl

theorem ScopeStack.isGlobal_renumber (numbering : SymbolId → SymbolId) (scopes : ScopeStack) :
    (scopes.renumber numbering).isGlobal = scopes.isGlobal :=
  List.isEmpty_map

/-- Numbers above one arena are sent to the numbers above another one, in order. -/
def Arena.Shifts (before other : Arena) (numbering : SymbolId → SymbolId) : Prop :=
  ∀ added, numbering (before.size + added) = other.size + added

/--
The table of a second run beside that of the first one. The same names are bound, and the same
symbols were added to the arenas.
-/
structure SymbolTable.InStep (before other : Arena) (numbering : SymbolId → SymbolId)
    (table later : SymbolTable) : Prop where
  scopes : later.scopes = table.scopes.renumber numbering
  added : ∃ added, table.arena.symbols = before.symbols ++ added ∧
    later.arena.symbols = other.symbols ++ added
  sound : later.Sound

section Repeating

variable (source : SourceId) {before other : Arena} {numbering : SymbolId → SymbolId}
  {table later : SymbolTable}

namespace SymbolTable.InStep

theorem ofArena (before other : Arena) (numbering : SymbolId → SymbolId) :
    InStep before other numbering (.ofArena before) (.ofArena other) where
  scopes := rfl
  added := ⟨[], (List.append_nil _).symm, (List.append_nil _).symm⟩
  sound := Sound.ofArena other

theorem enter (inStep : InStep before other numbering table later) :
    InStep before other numbering table.enter later.enter where
  scopes := by
    rw [SymbolTable.enter, inStep.scopes]
    rfl
  added := inStep.added
  sound := inStep.sound.enter

theorem lookup_eq (inStep : InStep before other numbering table later) (name : Key) :
    later.scopes.lookup name = (table.scopes.lookup name).map (Binding.renumber numbering) := by
  rw [inStep.scopes, ScopeStack.lookup_renumber]

theorem isGlobal_eq (inStep : InStep before other numbering table later) :
    later.scopes.isGlobal = table.scopes.isGlobal := by
  rw [inStep.scopes, ScopeStack.isGlobal_renumber]

theorem size_eq (shifts : before.Shifts other numbering)
    (inStep : InStep before other numbering table later) :
    later.arena.size = numbering table.arena.size := by
  rcases inStep.added with ⟨added, symbols_eq, laterSymbols_eq⟩
  have shifted := shifts added.length
  simp only [Arena.size, symbols_eq, laterSymbols_eq, List.length_append] at shifted ⊢
  exact shifted.symm

theorem declare (shifts : before.Shifts other numbering)
    (inStep : InStep before other numbering table later) (symbol : Symbol) :
    InStep before other numbering (table.declare symbol).2 (later.declare symbol).2 where
  scopes := by
    simp only [SymbolTable.declare, Arena.add, inStep.size_eq shifts, inStep.scopes]
    rfl
  added := by
    rcases inStep.added with ⟨added, symbols_eq, laterSymbols_eq⟩
    refine ⟨added ++ [symbol], ?_, ?_⟩
    · simp only [SymbolTable.declare, Arena.add, symbols_eq, List.append_assoc]
    · simp only [SymbolTable.declare, Arena.add, laterSymbols_eq, List.append_assoc]
  sound := inStep.sound.declare symbol

/-- A symbol is refused in both tables, or it is declared in both. -/
theorem insert_cases (inStep : InStep before other numbering table later) (symbol : Symbol)
    (shadow : Bool) :
    (∃ conflict, table.insert symbol shadow = (.error conflict, table) ∧
        later.tryInsert symbol shadow = .ok (.error conflict, later)) ∨
      table.insert symbol shadow = (table.declare symbol).map .ok id ∧
        later.tryInsert symbol shadow = .ok ((later.declare symbol).map .ok id) := by
  rw [SymbolTable.tryInsert_eq inStep.sound]
  have found_eq : later.scopes.innermost.find? symbol.name =
      (table.scopes.innermost.find? symbol.name).map (Binding.renumber numbering) := by
    rw [inStep.scopes]
    exact Scope.find?_renumber numbering _ _
  cases found : table.scopes.innermost.find? symbol.name with
  | none =>
      rw [found] at found_eq
      refine .inr ⟨?_, ?_⟩
      · cases shadow <;> simp only [insert, found]
      · cases shadow <;> simp only [insert, found_eq, Option.map_none]
  | some binding =>
      rw [found] at found_eq
      cases shadow with
      | true => exact .inr ⟨rfl, rfl⟩
      | false =>
          refine .inl ⟨⟨symbol.name, binding.span, symbol.span⟩, ?_, ?_⟩
          · simp only [insert, found]
          · simp only [insert, found_eq, Option.map_some]
            rfl

end SymbolTable.InStep

/-- What a name is bound to, unless the use has an old symbol that would be taken instead. -/
theorem Name.tryUse_again (inStep : table.InStep before other numbering later) (use : Use)
    (name : Name) :
    name.tryUse source later.arena use ((later.scopes.lookup name.key).map Binding.id)
        ((table.scopes.lookup name.key).map Binding.id) =
      .ok (name.useErrors source use (table.scopes.lookup name.key)) := by
  have found_eq := inStep.lookup_eq name.key
  cases found : table.scopes.lookup name.key with
  | none =>
      rw [found] at found_eq
      rw [found_eq]
      cases use <;> rfl
  | some binding =>
      rw [found] at found_eq
      rcases inStep.sound.lookup found_eq with ⟨symbol, known, kind⟩
      have judged (old : Option SymbolId) :
          use.judged (some (numbering binding.id)) old = some (numbering binding.id) := by
        cases use <;> rfl
      simp only [Binding.renumber] at known kind
      simp only [found_eq, Name.tryUse, Option.map_some, Binding.renumber, judged, known, Bind.bind,
        Except.bind, Pure.pure, Except.pure, List.nil_append, Name.useErrors, Name.kindErrors, kind]

theorem Expr.calleeErrors_withoutTypes (callee : Expr) :
    callee.withoutTypes.calleeErrors source = callee.calleeErrors source := by
  cases callee <;> rfl

theorem Expr.calleeErrors_resolve (scopes : ScopeStack) (use : Use) (callee : Expr) :
    (callee.resolve source scopes use).1.calleeErrors source = callee.calleeErrors source := by
  cases callee <;> rfl

mutual

/-- A value that is resolved again is found to be the same, up to the numbers of its symbols. -/
theorem Expr.tryResolve_again (inStep : table.InStep before other numbering later) : (use : Use) →
    (value again : Expr) → value.symbols = [] →
    again.withoutTypes = (value.resolve source table.scopes use).1.withoutTypes →
      again.tryResolve source later use =
        .ok (again.renumber numbering, (value.resolve source table.scopes use).2)
  | _, .binary op left right span type, again, fresh, same => by
      simp only [Expr.symbols, List.append_eq_nil_iff] at fresh
      cases again with
      | binary againOp againLeft againRight againSpan againType =>
          simp only [Expr.resolve, Expr.withoutTypes, Expr.binary.injEq] at same
          rcases same with ⟨_, leftSame, rightSame, _⟩
          rw [Expr.tryResolve, left.tryResolve_again inStep .value againLeft fresh.1 leftSame,
            right.tryResolve_again inStep .value againRight fresh.2 rightSame]
          rfl
      | _ => cases same
  | _, .unary op operand span type, again, fresh, same => by
      cases again with
      | unary againOp againOperand againSpan againType =>
          simp only [Expr.resolve, Expr.withoutTypes, Expr.unary.injEq] at same
          rcases same with ⟨_, operandSame, _⟩
          rw [Expr.tryResolve,
            operand.tryResolve_again inStep .value againOperand fresh operandSame]
          rfl
      | _ => cases same
  | _, .call callee arguments span type, again, fresh, same => by
      simp only [Expr.symbols, List.append_eq_nil_iff] at fresh
      cases again with
      | call againCallee againArguments againSpan againType =>
          simp only [Expr.resolve, Expr.withoutTypes, Expr.call.injEq] at same
          rcases same with ⟨calleeSame, argumentsSame, _⟩
          have errors_eq := congrArg (Expr.calleeErrors source) calleeSame
          rw [Expr.calleeErrors_withoutTypes, Expr.calleeErrors_withoutTypes,
            Expr.calleeErrors_resolve] at errors_eq
          rw [Expr.tryResolve,
            callee.tryResolve_again inStep .callee againCallee fresh.1 calleeSame,
            Expr.tryResolveAll_again inStep arguments againArguments fresh.2 argumentsSame]
          simp only [Bind.bind, Except.bind, errors_eq]
          rfl
      | _ => cases same
  | _, .grouping inner span type, again, fresh, same => by
      cases again with
      | grouping againInner againSpan againType =>
          simp only [Expr.resolve, Expr.withoutTypes, Expr.grouping.injEq] at same
          rw [Expr.tryResolve, inner.tryResolve_again inStep .value againInner fresh same.1]
          rfl
      | _ => cases same
  | _, .literal value span type, again, _, same => by
      cases again with
      | literal _ _ _ => rfl
      | _ => cases same
  | use, .identifier name symbol type, again, fresh, same => by
      have unbound : symbol = none := Option.toList_eq_nil_iff.mp fresh
      cases again with
      | identifier againName againSymbol againType =>
          simp only [Expr.resolve, Expr.withoutTypes, Expr.identifier.injEq, unbound,
            Option.or_none] at same
          rcases same with ⟨rfl, rfl, _⟩
          rw [Expr.tryResolve, againName.tryUse_again source inStep use]
          simp only [inStep.lookup_eq, Expr.renumber, Expr.resolve]
          cases table.scopes.lookup againName.key <;> rfl
      | _ => cases same

theorem Expr.tryResolveAll_again (inStep : table.InStep before other numbering later) :
    (values again : List Expr) → Expr.symbolsOfAll values = [] →
    Expr.withoutTypesOfAll again =
      Expr.withoutTypesOfAll (Expr.resolveAll source table.scopes values).1 →
      Expr.tryResolveAll source later again =
        .ok (Expr.renumberAll numbering again, (Expr.resolveAll source table.scopes values).2)
  | [], [], _, _ => rfl
  | [], _ :: _, _, same => by cases same
  | _ :: _, [], _, same => by cases same
  | first :: rest, again :: others, fresh, same => by
      simp only [Expr.symbolsOfAll, List.append_eq_nil_iff] at fresh
      simp only [Expr.resolveAll, Expr.withoutTypesOfAll, List.cons.injEq] at same
      rw [Expr.tryResolveAll, first.tryResolve_again inStep .value again fresh.1 same.1,
        Expr.tryResolveAll_again inStep rest others fresh.2 same.2]
      rfl

end

theorem Expr.tryResolveOption_again (inStep : table.InStep before other numbering later)
    (value again : Option Expr) (fresh : Expr.symbolsOfOption value = [])
    (same : again.map Expr.withoutTypes =
      (Expr.resolveOption source table.scopes value).1.map Expr.withoutTypes) :
    Expr.tryResolveOption source later again =
      .ok (again.map (Expr.renumber numbering),
        (Expr.resolveOption source table.scopes value).2) := by
  cases value with
  | none =>
      cases again with
      | none => rfl
      | some again => cases same
  | some value =>
      cases again with
      | none => cases same
      | some again =>
          rw [Expr.tryResolveOption,
            value.tryResolve_again source inStep .value again fresh (Option.some.inj same)]
          rfl

/--
A piece is resolved again: this succeeds with the errors of the first run and keeps the tables in
step, and the first run left the scopes as they were around the piece.
-/
structure Resolved.Repeats {Piece : Type} (before other : Arena)
    (numbering : SymbolId → SymbolId) (resolved : Resolved Piece) (table : SymbolTable)
    (attempt : Except Fault (Resolved Piece)) (piece : Piece) : Prop where
  result : ∃ later, attempt = .ok ⟨piece, later, resolved.errors⟩ ∧
    resolved.table.InStep before other numbering later
  enclosing : resolved.table.scopes.enclosing = table.scopes.enclosing

/-- The symbol that a declaration gets. -/
def SymbolTable.told (table : SymbolTable) (symbol : Symbol) (shadow : Bool) : Option SymbolId :=
  (table.insert symbol shadow).1.toOption

theorem Resolved.piece_declaring_fresh {Piece : Type} (table : SymbolTable) (symbol : Symbol)
    (shadow : Bool) (piece : Option SymbolId → Piece) :
    (declaring source table symbol shadow none piece).piece =
      piece (table.told symbol shadow) := by
  rw [declaring, SymbolTable.told]
  rcases table.insert_cases symbol shadow with ⟨conflict, inserted⟩ | inserted
  · rw [inserted]
    rfl
  · rw [inserted]
    rfl

/-- A declaration that has the symbol of the first run is accepted or refused as it was then. -/
theorem Resolved.declaring_again {Piece : Type} (shifts : before.Shifts other numbering)
    (inStep : table.InStep before other numbering later) (symbol : Symbol) (shadow : Bool)
    (piece again : Option SymbolId → Piece) :
    (declaring source table symbol shadow none piece).Repeats before other numbering table
      (tryDeclaring source later symbol shadow (table.told symbol shadow) again)
      (again ((table.told symbol shadow).map numbering)) := by
  rw [declaring, tryDeclaring, SymbolTable.told]
  rcases inStep.insert_cases symbol shadow with ⟨conflict, inserted, insertedAgain⟩ |
    ⟨inserted, insertedAgain⟩
  · rw [inserted, insertedAgain]
    exact ⟨⟨later, rfl, inStep⟩, rfl⟩
  · rw [inserted, insertedAgain]
    refine ⟨⟨(later.declare symbol).2, ?_, inStep.declare shifts symbol⟩, rfl⟩
    have size_eq := inStep.size_eq shifts
    simp only [Bind.bind, Except.bind, Prod.map, SymbolTable.declare, Arena.add, size_eq]
    rfl

namespace Resolved.Repeats

variable {Piece Other : Type} {resolved : Resolved Piece}
  {attempt : Except Fault (Resolved Piece)} {piece : Piece}

theorem map (repeats : resolved.Repeats before other numbering table attempt piece)
    (convert again : Piece → Other) :
    (resolved.map convert).Repeats before other numbering table
      (attempt >>= fun resolved => pure (resolved.map again)) (again piece) := by
  rcases repeats.result with ⟨later, attempt_eq, inStep⟩
  refine ⟨⟨later, ?_, inStep⟩, repeats.enclosing⟩
  rw [attempt_eq]
  rfl

theorem of_enclosing {outer : SymbolTable}
    (repeats : resolved.Repeats before other numbering table attempt piece)
    (enclosing : table.scopes.enclosing = outer.scopes.enclosing) :
    resolved.Repeats before other numbering outer attempt piece :=
  ⟨repeats.result, repeats.enclosing.trans enclosing⟩

/-- The scope of a piece is closed again, which gives back the scopes that were open before. -/
theorem closing (inStep : table.InStep before other numbering later)
    (repeats : resolved.Repeats before other numbering table.enter attempt piece) :
    (resolved.closing table.scopes).Repeats before other numbering table (attempt >>= exit)
      piece := by
  rcases repeats with ⟨⟨inner, attempt_eq, innerInStep⟩, enclosing⟩
  have scopes_eq : inner.scopes.enclosing = later.scopes.innermost :: later.scopes.enclosing := by
    rw [innerInStep.scopes, ScopeStack.renumber, enclosing, inStep.scopes]
    rfl
  have exit_eq : inner.exit = .ok { inner with scopes := later.scopes } := by
    rw [SymbolTable.exit, ScopeStack.exit, scopes_eq]
    rfl
  refine ⟨⟨{ inner with scopes := later.scopes }, ?_, ?_⟩, rfl⟩
  · rw [attempt_eq]
    simp only [Bind.bind, Except.bind, exit, exit_eq]
    rfl
  · refine ⟨inStep.scopes, innerInStep.added, ?_⟩
    intro scope member
    apply innerInStep.sound
    rw [scopes_eq]
    exact List.mem_cons_of_mem _ member

theorem closing_after (inStep : table.InStep before other numbering later)
    (repeats : resolved.Repeats before other numbering table.enter attempt piece)
    (convert again : Piece → Other) (errors : List ResolutionError) :
    (((resolved.map convert).after errors).closing table.scopes).Repeats before other numbering table
      (attempt >>= fun resolved => ((resolved.map again).after errors).exit) (again piece) := by
  rcases repeats with ⟨⟨inner, attempt_eq, innerInStep⟩, enclosing⟩
  have whole : ((resolved.map convert).after errors).Repeats before other numbering table.enter
      (.ok ⟨again piece, inner, errors ++ resolved.errors⟩) (again piece) :=
    ⟨⟨inner, rfl, innerInStep⟩, enclosing⟩
  rw [attempt_eq]
  exact whole.closing inStep

end Resolved.Repeats

/-- What holds of each piece that is resolved again holds of pieces one after the other. -/
theorem Resolved.all_again {Piece Shape : Type} {resolve : SymbolTable → Piece → Resolved Piece}
    {attempt : SymbolTable → Piece → Except Fault (Resolved Piece)} {IsFresh : Piece → Prop}
    {shape : Piece → Shape} {renumbered : Piece → Piece}
    (step : ∀ table later piece again, table.InStep before other numbering later → IsFresh piece →
      shape again = shape (resolve table piece).piece →
        (resolve table piece).Repeats before other numbering table (attempt later again)
          (renumbered again)) :
    (table later : SymbolTable) → (pieces again : List Piece) →
      table.InStep before other numbering later → (∀ piece ∈ pieces, IsFresh piece) →
      again.map shape = (all resolve table pieces).piece.map shape →
        (all resolve table pieces).Repeats before other numbering table
          (tryAll attempt later again) (again.map renumbered)
  | _, later, [], [], inStep, _, _ => ⟨⟨later, rfl, inStep⟩, rfl⟩
  | _, _, [], _ :: _, _, _, same => by cases same
  | _, _, _ :: _, [], _, _, same => by cases same
  | table, later, first :: rest, again :: others, inStep, fresh, same => by
      rw [List.forall_mem_cons] at fresh
      simp only [all, Resolved.after, Resolved.map, List.map_cons, List.cons.injEq] at same
      rcases step table later first again inStep fresh.1 same.1 with
        ⟨⟨middle, first_eq, middleInStep⟩, firstEnclosing⟩
      rcases Resolved.all_again step _ middle rest others middleInStep fresh.2 same.2 with
        ⟨⟨final, rest_eq, finalInStep⟩, restEnclosing⟩
      refine ⟨⟨final, ?_, finalInStep⟩, restEnclosing.trans firstEnclosing⟩
      rw [tryAll, first_eq]
      simp only [Bind.bind, Except.bind, rest_eq]
      rfl

theorem LetDecl.tryResolve_again (shifts : before.Shifts other numbering)
    (inStep : table.InStep before other numbering later) (decl again : LetDecl)
    (fresh : decl.symbols = [])
    (same : again.withoutTypes = (decl.resolve source table).piece.withoutTypes) :
    (decl.resolve source table).Repeats before other numbering table
      (again.tryResolve source later) (again.renumber numbering) := by
  rcases decl with ⟨name, type, initializer, symbol, span⟩
  rcases again with ⟨againName, againType, againInitializer, againSymbol, againSpan⟩
  simp only [LetDecl.symbols, List.append_eq_nil_iff, Option.toList_eq_nil_iff] at fresh
  rcases fresh with ⟨rfl, fresh⟩
  simp only [LetDecl.resolve, Resolved.after, Resolved.piece_declaring_fresh,
    LetDecl.withoutTypes, LetDecl.mk.injEq] at same
  rcases same with ⟨rfl, _, valueSame, rfl, _⟩
  have declared := Resolved.declaring_again source shifts inStep
    { name := againName.key, span := againName.span,
      kind := if table.scopes.isGlobal then .globalVariable else .localVariable }
    (!table.scopes.isGlobal)
    (fun symbol => LetDecl.mk againName type
      (Expr.resolveOption source table.scopes initializer).1 symbol span)
    fun symbol => LetDecl.mk againName againType
      (againInitializer.map (Expr.renumber numbering)) symbol againSpan
  rcases declared with ⟨⟨final, attempt_eq, finalInStep⟩, enclosing⟩
  refine ⟨⟨final, ?_, finalInStep⟩, enclosing⟩
  simp only [LetDecl.tryResolve, Bind.bind, Except.bind, inStep.isGlobal_eq,
    Expr.tryResolveOption_again source inStep initializer againInitializer fresh valueSame,
    attempt_eq]
  rfl

mutual

theorem Stmt.tryResolve_again (shifts : before.Shifts other numbering) :
    (table later : SymbolTable) → (statement again : Stmt) →
    table.InStep before other numbering later → statement.symbols = [] →
    again.withoutTypes = (statement.resolve source table).piece.withoutTypes →
      (statement.resolve source table).Repeats before other numbering table
        (again.tryResolve source later) (again.renumber numbering)
  | table, later, .expression value span, again, inStep, fresh, same => by
      cases again with
      | expression againValue againSpan =>
          simp only [Stmt.resolve, Stmt.withoutTypes, Stmt.expression.injEq] at same
          refine ⟨⟨later, ?_, inStep⟩, rfl⟩
          rw [Stmt.tryResolve,
            value.tryResolve_again source inStep .value againValue fresh same.1]
          rfl
      | _ => cases same
  | table, later, .letDecl decl, again, inStep, fresh, same => by
      cases again with
      | letDecl againDecl =>
          have repeats := decl.tryResolve_again source shifts inStep againDecl fresh
            (Stmt.letDecl.inj same)
          rw [Stmt.tryResolve, Stmt.resolve]
          exact repeats.map Stmt.letDecl Stmt.letDecl
      | _ => cases same
  | table, later, .block statements span, again, inStep, fresh, same => by
      cases again with
      | block againStatements againSpan =>
          simp only [Stmt.resolve, Resolved.closing, Resolved.map, Stmt.withoutTypes,
            Stmt.block.injEq] at same
          have inside := Stmt.tryResolveAll_again shifts table.enter later.enter statements
            againStatements inStep.enter fresh same.1
          have block := (inside.map (fun statements => Stmt.block statements span)
            fun statements => Stmt.block statements againSpan).closing inStep
          rw [Stmt.tryResolve, Stmt.resolve]
          rcases inside.result with ⟨inner, inside_eq, _⟩
          rw [inside_eq] at block ⊢
          exact block
      | _ => cases same
  | table, later, .returning value span, again, inStep, fresh, same => by
      cases again with
      | returning againValue againSpan =>
          simp only [Stmt.resolve, Stmt.withoutTypes, Stmt.returning.injEq] at same
          refine ⟨⟨later, ?_, inStep⟩, rfl⟩
          rw [Stmt.tryResolve,
            Expr.tryResolveOption_again source inStep value againValue fresh same.1]
          rfl
      | _ => cases same

theorem Stmt.tryResolveAll_again (shifts : before.Shifts other numbering) :
    (table later : SymbolTable) → (statements again : List Stmt) →
    table.InStep before other numbering later → Stmt.symbolsOfAll statements = [] →
    Stmt.withoutTypesOfAll again =
      Stmt.withoutTypesOfAll (Stmt.resolveAll source table statements).piece →
      (Stmt.resolveAll source table statements).Repeats before other numbering table
        (Stmt.tryResolveAll source later again) (Stmt.renumberAll numbering again)
  | _, later, [], [], inStep, _, _ => ⟨⟨later, rfl, inStep⟩, rfl⟩
  | _, _, [], _ :: _, _, _, same => by cases same
  | _, _, _ :: _, [], _, _, same => by cases same
  | table, later, first :: rest, again :: others, inStep, fresh, same => by
      simp only [Stmt.symbolsOfAll, List.append_eq_nil_iff] at fresh
      simp only [Stmt.resolveAll, Resolved.after, Resolved.map, Stmt.withoutTypesOfAll,
        List.cons.injEq] at same
      rcases first.tryResolve_again shifts table later again inStep fresh.1 same.1 with
        ⟨⟨middle, first_eq, middleInStep⟩, firstEnclosing⟩
      rcases Stmt.tryResolveAll_again shifts _ middle rest others middleInStep fresh.2 same.2 with
        ⟨⟨final, rest_eq, finalInStep⟩, restEnclosing⟩
      refine ⟨⟨final, ?_, finalInStep⟩, restEnclosing.trans firstEnclosing⟩
      rw [Stmt.tryResolveAll, first_eq]
      simp only [Bind.bind, Except.bind, rest_eq]
      rfl

end

theorem Parameter.tryResolve_again (shifts : before.Shifts other numbering)
    (inStep : table.InStep before other numbering later) (parameter again : Parameter)
    (fresh : parameter.symbol = none) (same : again = (parameter.resolve source table).piece) :
    (parameter.resolve source table).Repeats before other numbering table
      (again.tryResolve source later) (again.renumber numbering) := by
  rcases parameter with ⟨name, type, symbol, span⟩
  subst fresh
  rw [Parameter.resolve, Resolved.piece_declaring_fresh] at same
  subst same
  exact Resolved.declaring_again source shifts inStep _ _ _ _

/-- A function declaration that is told another symbol. -/
def FunDecl.withSymbol (symbol : Option SymbolId) (decl : FunDecl) : FunDecl :=
  { decl with symbol := symbol }

/-- The own symbol of a function is not looked at while its body is resolved. -/
theorem FunDecl.tryResolve_again (shifts : before.Shifts other numbering)
    (inStep : table.InStep before other numbering later) (decl again : FunDecl)
    (fresh : decl.IsFresh) (symbol : Option SymbolId)
    (same : again.withoutTypes = (decl.resolve source table).piece.withoutTypes) :
    (decl.resolve source table).Repeats before other numbering table
      ((again.withSymbol symbol).tryResolve source later)
      ((again.renumber numbering).withSymbol symbol) := by
  simp only [FunDecl.resolve, Resolved.closing, Resolved.map, Resolved.after, FunDecl.withoutTypes,
    FunDecl.mk.injEq, Block.mk.injEq] at same
  rcases same with ⟨_, parametersSame, _, ⟨statementsSame, _⟩, _⟩
  have parameters := Resolved.all_again
    (fun table later parameter again inStep fresh same =>
      parameter.tryResolve_again source shifts inStep again fresh same)
    table.enter later.enter decl.parameters again.parameters inStep.enter fresh.1
    (by rw [parametersSame])
  rcases parameters with ⟨⟨middle, parameters_eq, middleInStep⟩, parametersEnclosing⟩
  have statements := Stmt.tryResolveAll_again source shifts _ middle.enter decl.body.statements
    again.body.statements middleInStep.enter fresh.2 statementsSame
  -- The scope of the parameters is still open behind the body.
  have body := (statements.closing middleInStep).of_enclosing parametersEnclosing
  have whole := body.closing_after inStep
    (fun statements =>
      { decl with
        parameters := (Resolved.all (Parameter.resolve source) table.enter decl.parameters).piece
        body := { decl.body with statements := statements } })
    (fun statements =>
      { again with
        parameters := again.parameters.map (Parameter.renumber numbering)
        body := { again.body with statements := statements }
        symbol := symbol })
    (Resolved.all (Parameter.resolve source) table.enter decl.parameters).errors
  simp only [FunDecl.tryResolve, FunDecl.withSymbol, parameters_eq]
  rcases statements.result with ⟨inner, statements_eq, _⟩
  simp only [Bind.bind, Except.bind, statements_eq] at whole ⊢
  exact whole

/-- A declaration after the functions are declared again. -/
def Decl.announced (numbering : SymbolId → SymbolId) : Decl → Decl
  | .funDecl decl => .funDecl (decl.withSymbol (decl.symbol.map numbering))
  | .letDecl decl => .letDecl decl

theorem Decl.tryDeclareFunction_again (shifts : before.Shifts other numbering)
    (inStep : table.InStep before other numbering later) (decl again : Decl)
    (fresh : decl.symbols = [])
    (same : again.function?.map FunDecl.declaration =
      (decl.declareFunction source table).piece.function?.map FunDecl.declaration) :
    (decl.declareFunction source table).Repeats before other numbering table
      (again.tryDeclareFunction source later) (again.announced numbering) := by
  cases decl with
  | letDecl decl =>
      cases again with
      | letDecl again => exact ⟨⟨later, rfl, inStep⟩, rfl⟩
      | funDecl again => cases same
  | funDecl decl =>
      simp only [Decl.symbols, FunDecl.symbols, List.append_eq_nil_iff,
        Option.toList_eq_nil_iff] at fresh
      rw [Decl.declareFunction, fresh.1.1, Resolved.piece_declaring_fresh] at same
      cases again with
      | letDecl again => cases same
      | funDecl again =>
          simp only [Decl.function?, Option.map_some, Option.some.injEq, FunDecl.declaration,
            Declaration.mk.injEq] at same
          rcases same with ⟨_, name_eq, _, signature_eq, symbol_eq⟩
          have signature_eq : again.signature = decl.signature := signature_eq
          have declared := Resolved.declaring_again source shifts inStep
            { name := decl.name.key, span := decl.name.span, kind := .function,
              signature := some decl.signature }
            false (fun symbol => Decl.funDecl { decl with symbol := symbol })
            fun symbol => Decl.funDecl (again.withSymbol symbol)
          rw [← name_eq, ← signature_eq] at declared symbol_eq
          rw [Decl.declareFunction, Decl.tryDeclareFunction, Decl.announced, fresh.1.1, symbol_eq,
            ← name_eq, ← signature_eq]
          exact declared

theorem Decl.tryResolve_again (shifts : before.Shifts other numbering)
    (inStep : table.InStep before other numbering later) (decl again : Decl) (fresh : decl.IsFresh)
    (same : again.withoutTypes = (decl.resolve source table).piece.withoutTypes) :
    (decl.resolve source table).Repeats before other numbering table
      ((again.announced numbering).tryResolve source later) (again.renumber numbering) := by
  cases decl with
  | funDecl decl =>
      cases again with
      | letDecl again => cases same
      | funDecl again =>
          have repeats := decl.tryResolve_again source shifts inStep again fresh
            (again.symbol.map numbering) (Decl.funDecl.inj same)
          exact repeats.map Decl.funDecl Decl.funDecl
  | letDecl decl =>
      cases again with
      | funDecl again => cases same
      | letDecl again =>
          have repeats := decl.tryResolve_again source shifts inStep again fresh
            (Decl.letDecl.inj same)
          exact repeats.map Decl.letDecl Decl.letDecl

end Repeating

theorem Resolved.tryAll_map {Piece : Type}
    {attempt : SymbolTable → Piece → Except Fault (Resolved Piece)} (convert : Piece → Piece)
    (pieces : List Piece) : (table : SymbolTable) → tryAll attempt table (pieces.map convert) =
      tryAll (fun table piece => attempt table (convert piece)) table pieces := by
  induction pieces with
  | nil => exact fun _ => rfl
  | cons first rest ih =>
      intro table
      simp only [List.map_cons, tryAll, ih]

namespace Program

/-- What is declared ahead of all bodies is not changed any more. -/
theorem headers_of_resolveAll {source : SourceId} {table : SymbolTable} {declared again : List Decl}
    (same : again.map Decl.withoutTypes =
      (Resolved.all (Decl.resolve source) table declared).piece.map Decl.withoutTypes) :
    again.map (fun decl => decl.function?.map FunDecl.declaration) =
      declared.map (fun decl => decl.function?.map FunDecl.declaration) := by
  have untyped : ∀ decl : Decl, decl.withoutTypes.function?.map FunDecl.declaration =
      decl.function?.map FunDecl.declaration := by
    intro decl
    cases decl <;> rfl
  have headers := congrArg
    (List.map fun decl : Decl => decl.function?.map FunDecl.declaration) same
  simp only [List.map_map, Function.comp_def, untyped] at headers
  rw [headers]
  apply Resolved.map_piece_all
  intro table decl
  cases decl with
  | funDecl decl => exact congrArg some (decl.declaration_resolve source table)
  | letDecl decl => rfl

/--
A resolved program is resolved again, possibly with types by then. The errors are the same, the same
symbols are added, and the numbers are those of the other arena.
-/
theorem tryResolve_again {program again : Program} {before other : Arena}
    {numbering : SymbolId → SymbolId} (shifts : before.Shifts other numbering)
    (fresh : program.symbols = [])
    (same : again.withoutTypes = (program.resolve before).program.withoutTypes) :
    ∃ added, (program.resolve before).arena.symbols = before.symbols ++ added ∧
      again.tryResolve other =
        .ok ⟨again.renumber numbering, ⟨other.symbols ++ added⟩, (program.resolve before).errors⟩ := by
  have unbound : ∀ decl ∈ program.declarations, decl.symbols = [] := by
    simpa only [Program.symbols, List.flatMap_eq_nil_iff] using fresh
  rcases again with ⟨againDeclarations, againSource, againSpan⟩
  simp only [withoutTypes, resolve, mk.injEq] at same
  rcases same with ⟨declarationsSame, rfl, _⟩
  have inside := Resolved.forall_piece_all
    (fun table decl => Decl.isFresh_declareFunction program.source table decl)
    (.ofArena before) program.declarations unbound
  have declared := Resolved.all_again
    (fun table later decl again inStep fresh same =>
      decl.tryDeclareFunction_again program.source shifts inStep again fresh same)
    _ _ program.declarations againDeclarations (.ofArena before other numbering) unbound
    (headers_of_resolveAll declarationsSame)
  rcases declared with ⟨⟨middle, declared_eq, middleInStep⟩, _⟩
  have resolved := Resolved.all_again
    (fun table later decl again inStep fresh same =>
      decl.tryResolve_again program.source shifts inStep again fresh same)
    _ middle _ againDeclarations middleInStep inside declarationsSame
  rcases resolved with ⟨⟨final, resolved_eq, finalInStep⟩, _⟩
  rcases finalInStep.added with ⟨added, symbols_eq, laterSymbols_eq⟩
  refine ⟨added, symbols_eq, ?_⟩
  rw [← Resolved.tryAll_map (Decl.announced numbering)] at resolved_eq
  rw [tryResolve, declared_eq]
  simp only [Bind.bind, Except.bind, resolved_eq, ← laterSymbols_eq]
  rfl

end Program

end TypedLang
