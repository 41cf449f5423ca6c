import TypedLang.Program.Symbols
import TypedLang.Proofs.Scope.Resolution
import TypedLang.Scope.Guard

/-!
# Guarded resolution never fails

On a tree that is not bound yet, guarded resolution gives what resolution gives. The bindings in the
open scopes are a faithful copy of the arena, so no number is refused, and a piece leaves behind it
the scopes that were open before it, so the scope that is closed is never the global one.
-/

namespace TypedLang

/-- The bindings of a scope tell of a symbol what the arena holds under its number. -/
def Scope.Sound (arena : Arena) (scope : Scope) : Prop :=
  ∀ binding ∈ scope, ∃ symbol, arena.get? binding.id = some symbol ∧
    symbol.kind = binding.kind ∧ symbol.span = binding.span

/-- The bindings of all open scopes tell what the arena holds. -/
def SymbolTable.Sound (table : SymbolTable) : Prop :=
  ∀ scope ∈ table.scopes.innermost :: table.scopes.enclosing, scope.Sound table.arena

theorem Arena.get_of_get? {arena : Arena} {id : SymbolId} {symbol : Symbol}
    (found : arena.get? id = some symbol) : arena.get id = .ok symbol := by
  rw [get, found]

namespace SymbolTable.Sound

variable {table : SymbolTable}

theorem ofArena (arena : Arena) : (SymbolTable.ofArena arena).Sound := by
  intro scope member
  cases List.mem_singleton.mp member
  exact List.forall_mem_nil _

theorem enter (sound : table.Sound) : table.enter.Sound := by
  intro scope member
  rcases List.mem_cons.mp member with rfl | member
  · exact List.forall_mem_nil _
  · exact sound scope member

theorem declare (sound : table.Sound) (symbol : Symbol) : (table.declare symbol).2.Sound := by
  have kept : ∀ scope ∈ table.scopes.innermost :: table.scopes.enclosing,
      scope.Sound (table.arena.add symbol).2 := by
    intro scope member binding bindingMem
    rcases sound scope member binding bindingMem with ⟨known, found, same⟩
    exact ⟨known, Arena.get?_add_of_get? symbol found, same⟩
  intro scope member
  rcases List.mem_cons.mp member with rfl | member
  · intro binding bindingMem
    rcases List.mem_cons.mp bindingMem with rfl | bindingMem
    · exact ⟨symbol, Arena.get?_add_size table.arena symbol, rfl, rfl⟩
    · exact kept _ List.mem_cons_self binding bindingMem
  · exact kept scope (List.mem_cons_of_mem _ member)

theorem lookup (sound : table.Sound) {key : Key} {binding : Binding}
    (found : table.scopes.lookup key = some binding) :
    ∃ symbol, table.arena.get binding.id = .ok symbol ∧ symbol.kind = binding.kind := by
  rcases List.exists_of_findSome?_eq_some found with ⟨scope, member, bound⟩
  rcases sound scope member binding (List.mem_of_find?_eq_some bound) with ⟨symbol, known, kind, _⟩
  exact ⟨symbol, Arena.get_of_get? known, kind⟩

end SymbolTable.Sound

section Expressions

variable (source : SourceId) {table : SymbolTable}

theorem Name.tryUse_eq (sound : table.Sound) (use : Use) (name : Name) :
    name.tryUse source table.arena use ((table.scopes.lookup name.key).map Binding.id) none =
      .ok (name.useErrors source use (table.scopes.lookup name.key)) := by
  cases found : table.scopes.lookup name.key with
  | none => cases use <;> rfl
  | some binding =>
      rcases sound.lookup found with ⟨symbol, known, kind⟩
      have judged : use.judged (some binding.id) none = some binding.id := by
        cases use <;> rfl
      simp only [Name.tryUse, Option.map_some, judged, known, Bind.bind, Except.bind, Pure.pure,
        Except.pure, List.nil_append, Name.useErrors, Name.kindErrors, kind]

mutual

theorem Expr.tryResolve_eq (sound : table.Sound) : (use : Use) → (value : Expr) →
    value.symbols = [] →
      value.tryResolve source table use = .ok (value.resolve source table.scopes use)
  | _, .binary op left right span type, fresh => by
      simp only [Expr.symbols, List.append_eq_nil_iff] at fresh
      rw [Expr.tryResolve, left.tryResolve_eq sound .value fresh.1,
        right.tryResolve_eq sound .value fresh.2]
      rfl
  | _, .unary op operand span type, fresh => by
      rw [Expr.tryResolve, operand.tryResolve_eq sound .value fresh]
      rfl
  | _, .call callee arguments span type, fresh => by
      simp only [Expr.symbols, List.append_eq_nil_iff] at fresh
      rw [Expr.tryResolve, callee.tryResolve_eq sound .callee fresh.1,
        Expr.tryResolveAll_eq sound arguments fresh.2]
      rfl
  | _, .grouping inner span type, fresh => by
      rw [Expr.tryResolve, inner.tryResolve_eq sound .value fresh]
      rfl
  | _, .literal value span type, _ => rfl
  | use, .identifier name symbol type, fresh => by
      have unbound : symbol = none := Option.toList_eq_nil_iff.mp fresh
      rw [Expr.tryResolve, unbound, name.tryUse_eq source sound use]
      rfl

theorem Expr.tryResolveAll_eq (sound : table.Sound) : (values : List Expr) →
    Expr.symbolsOfAll values = [] →
      Expr.tryResolveAll source table values = .ok (Expr.resolveAll source table.scopes values)
  | [], _ => rfl
  | first :: rest, fresh => by
      simp only [Expr.symbolsOfAll, List.append_eq_nil_iff] at fresh
      rw [Expr.tryResolveAll, first.tryResolve_eq sound .value fresh.1,
        Expr.tryResolveAll_eq sound rest fresh.2]
      rfl

end

theorem Expr.tryResolveOption_eq (sound : table.Sound) (value : Option Expr)
    (fresh : Expr.symbolsOfOption value = []) :
    Expr.tryResolveOption source table value =
      .ok (Expr.resolveOption source table.scopes value) := by
  cases value with
  | none => rfl
  | some value =>
      rw [Expr.tryResolveOption, value.tryResolve_eq source sound .value fresh]
      rfl

end Expressions

/-- An attempt gives a resolved piece, behind which the same scopes are open as before. -/
structure Resolved.Attempted {Piece : Type} (resolved : Resolved Piece)
    (attempt : Except Fault (Resolved Piece)) (before : SymbolTable) : Prop where
  result : attempt = .ok resolved
  sound : resolved.table.Sound
  enclosing : resolved.table.scopes.enclosing = before.scopes.enclosing

section Pieces

variable (source : SourceId) {table : SymbolTable}

theorem SymbolTable.tryInsert_eq (sound : table.Sound) (symbol : Symbol) (shadow : Bool) :
    table.tryInsert symbol shadow = .ok (table.insert symbol shadow) := by
  cases shadow with
  | true => rfl
  | false =>
      cases found : table.scopes.innermost.find? symbol.name with
      | none =>
          simp only [tryInsert, insert, found]
          rfl
      | some binding =>
          rcases sound _ List.mem_cons_self binding (List.mem_of_find?_eq_some found) with
            ⟨known, known_eq, _, span_eq⟩
          simp only [tryInsert, insert, found, Arena.get_of_get? known_eq, ← span_eq]
          rfl

theorem SymbolTable.insert_cases (table : SymbolTable) (symbol : Symbol) (shadow : Bool) :
    (∃ conflict, table.insert symbol shadow = (.error conflict, table)) ∨
      table.insert symbol shadow = (table.declare symbol).map .ok id := by
  simp only [insert]
  split
  · exact .inl ⟨_, rfl⟩
  · exact .inr rfl

theorem Resolved.declaring_attempted {Piece : Type} (sound : table.Sound) (symbol : Symbol)
    (shadow : Bool) (previous : Option SymbolId) (piece : Option SymbolId → Piece) :
    (declaring source table symbol shadow previous piece).Attempted
      (tryDeclaring source table symbol shadow previous piece) table := by
  rw [tryDeclaring, SymbolTable.tryInsert_eq sound, declaring]
  rcases table.insert_cases symbol shadow with ⟨conflict, inserted⟩ | inserted
  · rw [inserted]
    exact ⟨rfl, sound, rfl⟩
  · rw [inserted]
    exact ⟨rfl, sound.declare symbol, rfl⟩

theorem LetDecl.resolve_attempted (sound : table.Sound) (decl : LetDecl) (fresh : decl.symbols = []) :
    (decl.resolve source table).Attempted (decl.tryResolve source table) table := by
  rw [LetDecl.symbols, List.append_eq_nil_iff] at fresh
  have declared := Resolved.declaring_attempted source sound
    { name := decl.name.key, span := decl.name.span,
      kind := if table.scopes.isGlobal then .globalVariable else .localVariable }
    (!table.scopes.isGlobal) decl.symbol fun symbol =>
      { decl with
        initializer := (Expr.resolveOption source table.scopes decl.initializer).1
        symbol := symbol }
  refine ⟨?_, declared.sound, declared.enclosing⟩
  rw [LetDecl.tryResolve, Expr.tryResolveOption_eq source sound decl.initializer fresh.2]
  simp only [Bind.bind, Except.bind, declared.result]
  rfl

theorem Resolved.Attempted.map {Piece Other : Type} {resolved : Resolved Piece}
    {attempt : Except Fault (Resolved Piece)} (attempted : resolved.Attempted attempt table)
    (convert : Piece → Other) :
    (resolved.map convert).Attempted
      (attempt >>= fun resolved => pure (resolved.map convert)) table := by
  refine ⟨?_, attempted.sound, attempted.enclosing⟩
  rw [attempted.result]
  rfl

/-- Closing the scope of a piece gives back the scopes that were open before it. -/
theorem Resolved.exit_attempted {Piece : Type} {resolved : Resolved Piece}
    (sound : resolved.table.Sound)
    (enclosing : resolved.table.scopes.enclosing = table.enter.scopes.enclosing) :
    (resolved.closing table.scopes).Attempted resolved.exit table := by
  have exit_eq : resolved.table.exit = .ok { resolved.table with scopes := table.scopes } := by
    rw [SymbolTable.exit, ScopeStack.exit, enclosing]
    rfl
  refine ⟨?_, ?_, rfl⟩
  · rw [exit, exit_eq]
    rfl
  · intro scope member
    apply sound
    rw [enclosing]
    exact List.mem_cons_of_mem _ member

theorem Resolved.exit_attempted_after {Piece Other : Type} {resolved : Resolved Piece}
    (convert : Piece → Other) (errors : List ResolutionError) (sound : resolved.table.Sound)
    (enclosing : resolved.table.scopes.enclosing = table.enter.scopes.enclosing) :
    (((resolved.map convert).after errors).closing table.scopes).Attempted
      ((resolved.map convert).after errors).exit table :=
  Resolved.exit_attempted sound enclosing

mutual

theorem Stmt.resolve_attempted : (table : SymbolTable) → (statement : Stmt) → table.Sound →
    statement.symbols = [] →
      (statement.resolve source table).Attempted (statement.tryResolve source table) table
  | table, .expression value span, sound, fresh => by
      refine ⟨?_, sound, rfl⟩
      rw [Stmt.tryResolve, value.tryResolve_eq source sound .value fresh, Stmt.resolve]
      rfl
  | table, .letDecl decl, sound, fresh => by
      rw [Stmt.tryResolve, Stmt.resolve]
      exact (decl.resolve_attempted source sound fresh).map Stmt.letDecl
  | table, .block statements span, sound, fresh => by
      have inside := Stmt.resolveAll_attempted table.enter statements sound.enter fresh
      rw [Stmt.tryResolve, inside.result, Stmt.resolve]
      exact Resolved.exit_attempted inside.sound inside.enclosing
  | table, .returning value span, sound, fresh => by
      refine ⟨?_, sound, rfl⟩
      rw [Stmt.tryResolve, Expr.tryResolveOption_eq source sound value fresh, Stmt.resolve]
      rfl

theorem Stmt.resolveAll_attempted : (table : SymbolTable) → (statements : List Stmt) →
    table.Sound → Stmt.symbolsOfAll statements = [] →
      (Stmt.resolveAll source table statements).Attempted
        (Stmt.tryResolveAll source table statements) table
  | table, [], sound, _ => ⟨rfl, sound, rfl⟩
  | table, first :: rest, sound, fresh => by
      rw [Stmt.symbolsOfAll, List.append_eq_nil_iff] at fresh
      have firstAttempted := first.resolve_attempted table sound fresh.1
      have restAttempted := Stmt.resolveAll_attempted _ rest firstAttempted.sound fresh.2
      refine ⟨?_, restAttempted.sound, restAttempted.enclosing.trans firstAttempted.enclosing⟩
      rw [Stmt.tryResolveAll, firstAttempted.result]
      simp only [Bind.bind, Except.bind, restAttempted.result]
      rfl

end

/-- What holds of each piece holds of pieces one after the other. -/
theorem Resolved.all_attempted {Piece : Type} {resolve : SymbolTable → Piece → Resolved Piece}
    {attempt : SymbolTable → Piece → Except Fault (Resolved Piece)} {P : Piece → Prop}
    (step : ∀ table piece, table.Sound → P piece →
      (resolve table piece).Attempted (attempt table piece) table) :
    (table : SymbolTable) → (pieces : List Piece) → table.Sound → (∀ piece ∈ pieces, P piece) →
      (all resolve table pieces).Attempted (tryAll attempt table pieces) table
  | table, [], sound, _ => ⟨rfl, sound, rfl⟩
  | table, first :: rest, sound, fresh => by
      rw [List.forall_mem_cons] at fresh
      have firstAttempted := step table first sound fresh.1
      have restAttempted := Resolved.all_attempted step _ rest firstAttempted.sound fresh.2
      refine ⟨?_, restAttempted.sound, restAttempted.enclosing.trans firstAttempted.enclosing⟩
      rw [tryAll, firstAttempted.result]
      simp only [Bind.bind, Except.bind, restAttempted.result]
      rfl

theorem Parameter.resolve_attempted (sound : table.Sound) (parameter : Parameter) :
    (parameter.resolve source table).Attempted (parameter.tryResolve source table) table :=
  Resolved.declaring_attempted source sound _ _ _ _

theorem FunDecl.resolve_attempted (sound : table.Sound) (decl : FunDecl) (fresh : decl.IsFresh) :
    (decl.resolve source table).Attempted (decl.tryResolve source table) table := by
  have parameters := Resolved.all_attempted
    (fun table parameter sound (_ : parameter.symbol = none) =>
      Parameter.resolve_attempted source sound parameter)
    table.enter decl.parameters sound.enter fresh.1
  have inside := Stmt.resolveAll_attempted source _ decl.body.statements parameters.sound.enter
    fresh.2
  have body := Resolved.exit_attempted inside.sound inside.enclosing
  have whole := Resolved.exit_attempted_after
    (fun statements =>
      { decl with
        parameters := (Resolved.all (Parameter.resolve source) table.enter decl.parameters).piece
        body := { decl.body with statements := statements } })
    (Resolved.all (Parameter.resolve source) table.enter decl.parameters).errors body.sound
    parameters.enclosing
  rw [FunDecl.tryResolve, parameters.result]
  simp only [Bind.bind, Except.bind, inside.result, body.result]
  exact whole

theorem Decl.declareFunction_attempted (sound : table.Sound) (decl : Decl) :
    (decl.declareFunction source table).Attempted (decl.tryDeclareFunction source table) table := by
  cases decl with
  | funDecl decl =>
      rw [Decl.declareFunction, Decl.tryDeclareFunction]
      exact Resolved.declaring_attempted source sound _ _ _ _
  | letDecl decl => exact ⟨rfl, sound, rfl⟩

theorem Decl.resolve_attempted (sound : table.Sound) (decl : Decl) (fresh : decl.IsFresh) :
    (decl.resolve source table).Attempted (decl.tryResolve source table) table := by
  cases decl with
  | funDecl decl => exact (decl.resolve_attempted source sound fresh).map Decl.funDecl
  | letDecl decl => exact (decl.resolve_attempted source sound fresh).map Decl.letDecl

end Pieces

namespace Resolved

/-- What is kept of a resolved program: the scopes are no longer needed. -/
def resolution (resolved : Resolved Program) : Resolution :=
  ⟨resolved.piece, resolved.table.arena, resolved.errors⟩

end Resolved

namespace Program

/-- A program, resolved, with the table that resolution leaves. -/
def resolved (program : Program) (arena : Arena) : Resolved Program :=
  let declared := Resolved.all (Decl.declareFunction program.source) (.ofArena arena)
    program.declarations
  ((Resolved.all (Decl.resolve program.source) declared.table declared.piece).map
    fun declarations => { program with declarations := declarations }).after declared.errors

/-- A program, resolved as a run does it, with the table that resolution leaves. -/
def tryResolved (program : Program) (arena : Arena) : Except Fault (Resolved Program) := do
  let declared ← Resolved.tryAll (Decl.tryDeclareFunction program.source) (.ofArena arena)
    program.declarations
  let resolved ← Resolved.tryAll (Decl.tryResolve program.source) declared.table declared.piece
  pure ((resolved.map fun declarations =>
    { program with declarations := declarations }).after declared.errors)

theorem resolution_resolved (program : Program) (arena : Arena) :
    (program.resolved arena).resolution = program.resolve arena :=
  rfl

theorem tryResolve_eq_map (program : Program) (arena : Arena) :
    program.tryResolve arena = (program.tryResolved arena).map Resolved.resolution := by
  simp only [tryResolve, tryResolved]
  cases Resolved.tryAll (Decl.tryDeclareFunction program.source) (.ofArena arena)
    program.declarations with
  | error fault => rfl
  | ok declared =>
      simp only [Bind.bind, Except.bind]
      cases Resolved.tryAll (Decl.tryResolve program.source) declared.table declared.piece <;> rfl

theorem resolved_attempted (program : Program) (arena : Arena) (fresh : program.symbols = []) :
    (program.resolved arena).Attempted (program.tryResolved arena) (.ofArena arena) := by
  have unbound : ∀ decl ∈ program.declarations, decl.symbols = [] := by
    simpa only [Program.symbols, List.flatMap_eq_nil_iff] using fresh
  have declared := Resolved.all_attempted
    (fun table decl sound (_ : decl.symbols = []) =>
      Decl.declareFunction_attempted program.source sound decl)
    (.ofArena arena) program.declarations (.ofArena arena) unbound
  have inside := Resolved.forall_piece_all
    (fun table decl => Decl.isFresh_declareFunction program.source table decl)
    (.ofArena arena) program.declarations unbound
  have resolved := Resolved.all_attempted
    (fun table decl sound fresh => Decl.resolve_attempted program.source sound decl fresh)
    _ _ declared.sound inside
  refine ⟨?_, resolved.sound, resolved.enclosing.trans declared.enclosing⟩
  rw [tryResolved, declared.result]
  simp only [Bind.bind, Except.bind, resolved.result]
  rfl

/-- On a tree that is not bound yet, guarded resolution is resolution. -/
theorem tryResolve_eq (program : Program) (arena : Arena) (fresh : program.symbols = []) :
    program.tryResolve arena = .ok (program.resolve arena) := by
  rw [tryResolve_eq_map, (program.resolved_attempted arena fresh).result]
  rfl

end Program

end TypedLang
