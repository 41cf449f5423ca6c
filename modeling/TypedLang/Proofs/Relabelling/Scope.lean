import TypedLang.Proofs.Relabelling.Rewording

/-!
# Resolving reworded programs

Name resolution asks of two names only whether they are the same, and of places and strings nothing
at all. Names with different keys stay apart, so that each name of a reworded program is bound to
the same symbol as before, and the errors are the relabelled ones.
-/

namespace TypedLang

section

variable (change : Relabelling)

/-- A binding, relabelled. -/
def Binding.relabel (binding : Binding) : Binding :=
  { binding with name := change.key binding.name, span := change.span binding.span }

theorem Scope.find?_relabel (scope : Scope) (name : Key) :
    Scope.find? (scope.map (Binding.relabel change)) (change.key name) =
      (scope.find? name).map (Binding.relabel change) := by
  have same (binding : Binding) :
      ((binding.relabel change).name == change.key name) = (binding.name == name) := by
    rw [Bool.eq_iff_iff, beq_iff_eq, beq_iff_eq]
    exact change.key_injective.eq_iff
  rw [Scope.find?, Scope.find?, List.find?_map]
  exact congrArg (fun test => (List.find? test scope).map _) (funext same)

/-- Open scopes, relabelled. -/
def ScopeStack.relabel (scopes : ScopeStack) : ScopeStack where
  innermost := scopes.innermost.map (Binding.relabel change)
  enclosing := scopes.enclosing.map (List.map (Binding.relabel change))

theorem ScopeStack.lookup_relabel (scopes : ScopeStack) (name : Key) :
    (scopes.relabel change).lookup (change.key name) =
      (scopes.lookup name).map (Binding.relabel change) := by
  have scopes_eq : (scopes.relabel change).innermost :: (scopes.relabel change).enclosing =
      (scopes.innermost :: scopes.enclosing).map (List.map (Binding.relabel change)) := rfl
  rw [lookup, lookup, scopes_eq]
  induction scopes.innermost :: scopes.enclosing with
  | nil => rfl
  | cons scope rest ih =>
      rw [List.map_cons, List.findSome?_cons, List.findSome?_cons, ih, scope.find?_relabel change]
      cases scope.find? name <;> rfl

theorem ScopeStack.isGlobal_relabel (scopes : ScopeStack) :
    (scopes.relabel change).isGlobal = scopes.isGlobal :=
  List.isEmpty_map

/-- A refused declaration, relabelled. -/
def Redeclaration.relabel (conflict : Redeclaration) : Redeclaration :=
  ⟨change.key conflict.name, change.span conflict.earlier, change.span conflict.other⟩

/-- A symbol table, relabelled. -/
def SymbolTable.relabel (table : SymbolTable) : SymbolTable :=
  ⟨table.arena.relabel change, table.scopes.relabel change⟩

theorem SymbolTable.declare_relabel (table : SymbolTable) (symbol : Symbol) :
    (table.relabel change).declare (symbol.relabel change) =
      ((table.declare symbol).1, (table.declare symbol).2.relabel change) := by
  simp only [declare, relabel, Arena.add, Arena.size_relabel]
  refine Prod.ext rfl ?_
  simp only [Arena.relabel, List.map_append]
  rfl

/-- The answer to a declaration, relabelled. -/
def SymbolTable.relabelAnswer :
    Except Redeclaration SymbolId × SymbolTable → Except Redeclaration SymbolId × SymbolTable
  | (.ok id, table) => (.ok id, table.relabel change)
  | (.error conflict, table) => (.error (conflict.relabel change), table.relabel change)

theorem SymbolTable.insert_relabel (table : SymbolTable) (symbol : Symbol) (shadow : Bool) :
    (table.relabel change).insert (symbol.relabel change) shadow =
      relabelAnswer change (table.insert symbol shadow) := by
  have found : Scope.find? (table.relabel change).scopes.innermost (symbol.relabel change).name =
      (Scope.find? table.scopes.innermost symbol.name).map (Binding.relabel change) :=
    Scope.find?_relabel change table.scopes.innermost symbol.name
  unfold insert
  rw [found, declare_relabel]
  cases shadow with
  | true => rfl
  | false => cases Scope.find? table.scopes.innermost symbol.name <;> rfl

end

section

variable (change : Rewording) (source : SourceId) (scopes : ScopeStack)

theorem Name.useErrors_relabel (use : Use) (name : Name) (binding : Option Binding) :
    (name.relabel change).useErrors (change.source source) use
        (binding.map (Binding.relabel change)) =
      (name.useErrors source use binding).map (ResolutionError.relabel change) := by
  cases binding with
  | none => rfl
  | some binding =>
      simp only [Name.useErrors, Option.map_some, Binding.relabel]
      split <;> rfl

theorem Expr.calleeErrors_reword (callee : Expr) :
    (callee.reword change).calleeErrors (change.source source) =
      (callee.calleeErrors source).map (ResolutionError.relabel change) := by
  cases callee <;> rfl

mutual

theorem Expr.resolve_reword : (use : Use) → (value : Expr) →
    (value.reword change).resolve (change.source source) (scopes.relabel change) use =
      ((value.resolve source scopes use).1.reword change,
        (value.resolve source scopes use).2.map (ResolutionError.relabel change))
  | _, .binary op left right span type => by
      simp only [Expr.reword, Expr.resolve, left.resolve_reword, right.resolve_reword,
        List.map_append]
  | _, .unary op operand span type => by
      simp only [Expr.reword, Expr.resolve, operand.resolve_reword]
  | _, .call callee arguments span type => by
      simp only [Expr.reword, Expr.resolve, callee.resolve_reword, Expr.resolveAll_reword,
        Expr.calleeErrors_reword, List.map_append]
  | _, .grouping inner span type => by
      simp only [Expr.reword, Expr.resolve, inner.resolve_reword]
  | _, .literal value span type => rfl
  | use, .identifier name symbol type => by
      have found : (scopes.relabel change).lookup (name.relabel change).key =
          (scopes.lookup name.key).map (Binding.relabel change) :=
        scopes.lookup_relabel change name.key
      simp only [Expr.reword, Expr.resolve, found, Name.useErrors_relabel, Option.map_map]
      rfl

theorem Expr.resolveAll_reword : (values : List Expr) →
    Expr.resolveAll (change.source source) (scopes.relabel change)
        (Expr.rewordAll change values) =
      (Expr.rewordAll change (Expr.resolveAll source scopes values).1,
        (Expr.resolveAll source scopes values).2.map (ResolutionError.relabel change))
  | [] => rfl
  | first :: rest => by
      simp only [Expr.rewordAll, Expr.resolveAll, first.resolve_reword,
        Expr.resolveAll_reword rest, List.map_append]

end

theorem Expr.resolveOption_reword (value : Option Expr) :
    Expr.resolveOption (change.source source) (scopes.relabel change)
        (value.map (Expr.reword change)) =
      ((Expr.resolveOption source scopes value).1.map (Expr.reword change),
        (Expr.resolveOption source scopes value).2.map (ResolutionError.relabel change)) := by
  cases value with
  | none => rfl
  | some value => simp only [Option.map_some, resolveOption, value.resolve_reword]

end

namespace Resolved

variable {Piece Other : Type} {change : Relabelling}

/-- A resolved piece is what another one is, relabelled. -/
structure Relabels (change : Relabelling) (convert : Piece → Piece)
    (resolved same : Resolved Piece) : Prop where
  piece_eq : same.piece = convert resolved.piece
  table_eq : same.table = resolved.table.relabel change
  errors_eq : same.errors = resolved.errors.map (ResolutionError.relabel change)

namespace Relabels

variable {convert : Piece → Piece} {convertOther : Other → Other} {resolved same : Resolved Piece}

theorem eq (relabels : Relabels change convert resolved same) :
    same = ⟨convert resolved.piece, resolved.table.relabel change,
      resolved.errors.map (ResolutionError.relabel change)⟩ := by
  rw [← relabels.piece_eq, ← relabels.table_eq, ← relabels.errors_eq]

theorem map (relabels : Relabels change convert resolved same) {wrap wrapSame : Piece → Other}
    (commutes : ∀ piece, wrapSame (convert piece) = convertOther (wrap piece)) :
    Relabels change convertOther (resolved.map wrap) (same.map wrapSame) := by
  refine ⟨?_, relabels.table_eq, relabels.errors_eq⟩
  rw [Resolved.map, relabels.piece_eq]
  exact commutes resolved.piece

theorem after (relabels : Relabels change convert resolved same) (errors : List ResolutionError) :
    Relabels change convert (resolved.after errors)
      (same.after (errors.map (ResolutionError.relabel change))) := by
  refine ⟨relabels.piece_eq, relabels.table_eq, ?_⟩
  rw [Resolved.after, Resolved.after, relabels.errors_eq, List.map_append]

theorem closing (relabels : Relabels change convert resolved same) (scopes : ScopeStack) :
    Relabels change convert (resolved.closing scopes) (same.closing (scopes.relabel change)) := by
  refine ⟨relabels.piece_eq, ?_, relabels.errors_eq⟩
  rw [Resolved.closing, relabels.table_eq]
  rfl

theorem all {resolve resolveSame : SymbolTable → Piece → Resolved Piece}
    (relabels : ∀ table piece, Relabels change convert (resolve table piece)
      (resolveSame (table.relabel change) (convert piece)))
    (table : SymbolTable) (pieces : List Piece) :
    Relabels change (List.map convert) (Resolved.all resolve table pieces)
      (Resolved.all resolveSame (table.relabel change) (pieces.map convert)) := by
  induction pieces generalizing table with
  | nil => exact ⟨rfl, rfl, rfl⟩
  | cons first rest ih =>
      have head := relabels table first
      simp only [List.map_cons, Resolved.all]
      rw [head.table_eq, head.errors_eq, head.piece_eq]
      refine .after (.map (ih _) fun others => ?_) _
      rfl

theorem declaring (source : SourceId) (table : SymbolTable) (symbol : Symbol) (shadow : Bool)
    (previous : Option SymbolId) {piece pieceSame : Option SymbolId → Piece}
    (commutes : ∀ id, pieceSame id = convert (piece id)) :
    Relabels change convert (Resolved.declaring source table symbol shadow previous piece)
      (Resolved.declaring (change.source source) (table.relabel change) (symbol.relabel change)
        shadow previous pieceSame) := by
  rw [Resolved.declaring, Resolved.declaring, SymbolTable.insert_relabel]
  rcases table.insert symbol shadow with ⟨conflict | id, table⟩
  · exact ⟨commutes previous, rfl, rfl⟩
  · exact ⟨commutes (some id), rfl, rfl⟩

end Relabels

end Resolved

section

variable (change : Rewording) (source : SourceId)

theorem LetDecl.resolve_relabels (table : SymbolTable) (decl : LetDecl) :
    Resolved.Relabels change (LetDecl.reword change) (decl.resolve source table)
      ((decl.reword change).resolve (change.source source) (table.relabel change)) := by
  have isGlobal : (table.relabel change).scopes.isGlobal = table.scopes.isGlobal :=
    table.scopes.isGlobal_relabel change
  have initializer : Expr.resolveOption (change.source source) (table.relabel change).scopes
      (decl.reword change).initializer = _ :=
    Expr.resolveOption_reword change source table.scopes decl.initializer
  simp only [LetDecl.resolve, isGlobal, initializer]
  refine .after (.declaring source table ⟨decl.name.key, decl.name.span, _, none, none⟩ _ _
    fun symbol => ?_) _
  rfl

mutual

theorem Stmt.resolve_relabels : (table : SymbolTable) → (statement : Stmt) →
    Resolved.Relabels change (Stmt.reword change) (statement.resolve source table)
      ((statement.reword change).resolve (change.source source) (table.relabel change))
  | table, .expression value span => by
      have value_eq := value.resolve_reword change source table.scopes .value
      simp only [Stmt.reword, Stmt.resolve, SymbolTable.relabel, value_eq]
      exact ⟨rfl, rfl, rfl⟩
  | table, .letDecl decl => (decl.resolve_relabels change source table).map fun _ => rfl
  | table, .block statements span => by
      have inside := Stmt.resolveAll_relabels table.enter statements
      rw [Stmt.reword, Stmt.resolve, Stmt.resolve]
      refine .closing (.map inside fun statements => ?_) table.scopes
      rfl
  | table, .returning value span => by
      have value_eq := Expr.resolveOption_reword change source table.scopes value
      simp only [Stmt.reword, Stmt.resolve, SymbolTable.relabel, value_eq]
      exact ⟨rfl, rfl, rfl⟩

theorem Stmt.resolveAll_relabels : (table : SymbolTable) → (statements : List Stmt) →
    Resolved.Relabels change (Stmt.rewordAll change) (Stmt.resolveAll source table statements)
      (Stmt.resolveAll (change.source source) (table.relabel change)
        (Stmt.rewordAll change statements))
  | _, [] => ⟨rfl, rfl, rfl⟩
  | table, first :: rest => by
      have head := first.resolve_relabels table
      simp only [Stmt.rewordAll, Stmt.resolveAll]
      rw [head.table_eq, head.errors_eq, head.piece_eq]
      refine .after (.map (Stmt.resolveAll_relabels _ rest) fun others => ?_) _
      rfl

end

theorem Parameter.resolve_relabels (table : SymbolTable) (parameter : Parameter) :
    Resolved.Relabels change (Parameter.relabel change) (parameter.resolve source table)
      ((parameter.relabel change).resolve (change.source source) (table.relabel change)) :=
  .declaring source table ⟨parameter.name.key, parameter.name.span, .parameter, none, none⟩ false
    parameter.symbol fun _ => rfl

theorem FunDecl.resolve_relabels (table : SymbolTable) (decl : FunDecl) :
    Resolved.Relabels change (FunDecl.reword change) (decl.resolve source table)
      ((decl.reword change).resolve (change.source source) (table.relabel change)) := by
  have parameters := Resolved.Relabels.all (Parameter.resolve_relabels change source) table.enter
    decl.parameters
  have body := Stmt.resolveAll_relabels change source
    (Resolved.all (Parameter.resolve source) table.enter decl.parameters).table.enter
    decl.body.statements
  have parameters_eq : Resolved.all (Parameter.resolve (change.source source))
      (table.relabel change).enter (decl.reword change).parameters = _ := parameters.eq
  simp only [FunDecl.resolve, parameters_eq]
  refine .closing (.after (.map body fun statements => ?_) _) table.scopes
  rfl

theorem Decl.declareFunction_relabels (table : SymbolTable) (decl : Decl) :
    Resolved.Relabels change (Decl.reword change) (decl.declareFunction source table)
      ((decl.reword change).declareFunction (change.source source) (table.relabel change)) := by
  cases decl with
  | funDecl decl =>
      have signature := decl.signature_reword change
      simp only [Decl.reword, Decl.declareFunction, signature]
      exact .declaring source table ⟨_, _, .function, some decl.signature, none⟩ false _
        fun _ => rfl
  | letDecl decl => exact ⟨rfl, rfl, rfl⟩

theorem Decl.resolve_relabels (table : SymbolTable) (decl : Decl) :
    Resolved.Relabels change (Decl.reword change) (decl.resolve source table)
      ((decl.reword change).resolve (change.source source) (table.relabel change)) := by
  cases decl with
  | funDecl decl => exact (decl.resolve_relabels change source table).map fun _ => rfl
  | letDecl decl => exact (decl.resolve_relabels change source table).map fun _ => rfl

end

/-- A resolution, reworded. -/
def Resolution.reword (change : Rewording) (resolution : Resolution) : Resolution where
  program := resolution.program.reword change
  arena := resolution.arena.relabel change
  errors := resolution.errors.map (ResolutionError.relabel change)

/-- Name resolution gives for a reworded program what it gives for the program, reworded. -/
theorem Program.resolve_reword (change : Rewording) (program : Program) (arena : Arena) :
    (program.reword change).resolve (arena.relabel change) =
      (program.resolve arena).reword change := by
  have declared := Resolved.Relabels.all (Decl.declareFunction_relabels change program.source)
    (.ofArena arena) program.declarations
  have declared_eq : Resolved.all (Decl.declareFunction (change.source program.source))
      (.ofArena (arena.relabel change)) (program.reword change).declarations = _ := declared.eq
  have resolved := Resolved.Relabels.all (Decl.resolve_relabels change program.source)
    (Resolved.all (Decl.declareFunction program.source) (.ofArena arena)
      program.declarations).table
    (Resolved.all (Decl.declareFunction program.source) (.ofArena arena)
      program.declarations).piece
  simp only [Program.resolve, Program.reword, Resolution.reword, List.map_append] at declared_eq ⊢
  rw [declared_eq]
  simp only [resolved.eq]
  rfl

end TypedLang
