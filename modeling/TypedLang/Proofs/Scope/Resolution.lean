import Mathlib.Data.List.Perm.Basic
import TypedLang.Proofs.Scope.Binding

/-!
# What resolution does to a tree

Where the open scopes show the context of a piece of a tree, resolution binds every identifier in the
piece to the declaration that it means, adds one symbol for every declaration that it accepts, and
reports the violations of the scope rules. Behind the piece, the scopes show the context with what
the piece declared.

All of this is stated for the resolved piece, whose declarations and identifiers carry their symbols.
-/

namespace TypedLang

/-- An identifier carries the symbol of the declaration that it means, or none if it means nothing. -/
def Occurrence.IsBound (arena : Arena) (occurrence : Occurrence) : Prop :=
  Option.Rel
    (fun id declaration => declaration.symbol = some id ∧ arena.get? id = some declaration.entry)
    occurrence.symbol occurrence.declaration?

/-- All identifiers in a leaf are bound. -/
def Leaf.IsBound (arena : Arena) (leaf : Leaf) : Prop :=
  ∀ occurrence ∈ leaf.occurrences, occurrence.IsBound arena

theorem Occurrence.IsBound.later {arena final : Arena} {added : List Declaration}
    {occurrence : Occurrence} (bound : occurrence.IsBound arena)
    (records : arena.Records added final) : occurrence.IsBound final := by
  rw [Occurrence.IsBound] at bound ⊢
  generalize occurrence.symbol = symbol at bound ⊢
  generalize occurrence.declaration? = declaration? at bound ⊢
  cases bound with
  | some means => exact .some ⟨means.1, records.get?_of_get? means.2⟩
  | none => exact .none

theorem Leaf.IsBound.later {arena final : Arena} {added : List Declaration} {leaf : Leaf}
    (bound : leaf.IsBound arena) (records : arena.Records added final) : leaf.IsBound final :=
  fun occurrence member => (bound occurrence member).later records

/-- If all leaves are bound, so are the identifiers in them. -/
theorem Occurrence.isBound_of_mem {arena : Arena} {leaves : List Leaf}
    (bound : ∀ leaf ∈ leaves, leaf.IsBound arena) {occurrence : Occurrence}
    (member : occurrence ∈ leaves.flatMap Leaf.occurrences) : occurrence.IsBound arena := by
  rcases List.mem_flatMap.mp member with ⟨leaf, leafMem, occurrenceMem⟩
  exact bound leaf leafMem occurrence occurrenceMem

section Expressions

variable (source : SourceId) {table : SymbolTable} {context : Context}

theorem Name.isBound_of_shows (shows : table.Shows context) (name : Name) (use : Use) :
    Occurrence.IsBound table.arena
      ⟨name, ((table.scopes.lookup name.key).map Binding.id).or none, use, context⟩ := by
  simp only [Occurrence.IsBound, Occurrence.declaration?, Option.or_none]
  have found := shows.lookup name.key
  generalize table.scopes.lookup name.key = binding? at found ⊢
  generalize context.declaration? name.key = declaration? at found ⊢
  cases found with
  | some standsFor => exact .some ⟨standsFor.symbol, standsFor.entry⟩
  | none => exact .none

theorem Name.useErrors_of_shows (shows : table.Shows context) (name : Name) (use : Use)
    (symbol : Option SymbolId) :
    name.useErrors source use (table.scopes.lookup name.key) =
      Occurrence.errors source ⟨name, symbol, use, context⟩ := by
  simp only [Occurrence.errors, Occurrence.declaration?]
  have found := shows.lookup name.key
  generalize table.scopes.lookup name.key = binding? at found ⊢
  generalize context.declaration? name.key = declaration? at found ⊢
  cases found with
  | some standsFor => simp only [Name.useErrors, Use.suits_iff_allows, standsFor.kind]
  | none => rfl

mutual

theorem Expr.resolve_isBound (shows : table.Shows context) : (use : Use) → (value : Expr) →
    value.symbols = [] →
      ∀ occurrence ∈ (value.resolve source table.scopes use).1.occurrences context use,
        occurrence.IsBound table.arena
  | _, .binary op left right span type, fresh => by
      simp only [Expr.symbols, List.append_eq_nil_iff] at fresh
      simp only [Expr.resolve, Expr.occurrences, List.mem_append]
      rintro occurrence (member | member)
      · exact left.resolve_isBound shows .value fresh.1 occurrence member
      · exact right.resolve_isBound shows .value fresh.2 occurrence member
  | _, .unary op operand span type, fresh => operand.resolve_isBound shows .value fresh
  | _, .call callee arguments span type, fresh => by
      simp only [Expr.symbols, List.append_eq_nil_iff] at fresh
      simp only [Expr.resolve, Expr.occurrences, List.mem_append]
      rintro occurrence (member | member)
      · exact callee.resolve_isBound shows .callee fresh.1 occurrence member
      · exact Expr.resolveAll_isBound shows arguments fresh.2 occurrence member
  | _, .grouping inner span type, fresh => inner.resolve_isBound shows .value fresh
  | _, .literal value span type, _ => by simp [Expr.resolve, Expr.occurrences]
  | use, .identifier name symbol type, fresh => by
      simp only [Expr.symbols, Option.toList_eq_nil_iff] at fresh
      simp only [Expr.resolve, Expr.occurrences, List.mem_singleton, fresh]
      rintro occurrence rfl
      exact name.isBound_of_shows shows use

theorem Expr.resolveAll_isBound (shows : table.Shows context) : (values : List Expr) →
    Expr.symbolsOfAll values = [] →
      ∀ occurrence ∈ Expr.occurrencesOfAll context (Expr.resolveAll source table.scopes values).1,
        occurrence.IsBound table.arena
  | [], _ => by simp [Expr.resolveAll, Expr.occurrencesOfAll]
  | first :: rest, fresh => by
      simp only [Expr.symbolsOfAll, List.append_eq_nil_iff] at fresh
      simp only [Expr.resolveAll, Expr.occurrencesOfAll, List.mem_append]
      rintro occurrence (member | member)
      · exact first.resolve_isBound shows .value fresh.1 occurrence member
      · exact Expr.resolveAll_isBound shows rest fresh.2 occurrence member

end

theorem perm_interchange {Error : Type} (a b c d : List Error) :
    ((a ++ b) ++ (c ++ d)).Perm ((a ++ c) ++ (b ++ d)) := by
  rw [List.append_assoc, List.append_assoc]
  apply List.Perm.append_left a
  rw [← List.append_assoc, ← List.append_assoc]
  exact List.perm_append_comm.append_right d

theorem Expr.callErrors_append (callees others : List Expr) :
    Expr.callErrors source (callees ++ others) =
      Expr.callErrors source callees ++ Expr.callErrors source others := by
  rw [Expr.callErrors, List.filter_append, List.map_append]
  rfl

theorem Expr.callErrors_singleton (scopes : ScopeStack) (use : Use) (callee : Expr) :
    Expr.callErrors source [(callee.resolve source scopes use).1] = callee.calleeErrors source := by
  cases callee <;> rfl

mutual

theorem Expr.resolve_errors (shows : table.Shows context) : (use : Use) → (value : Expr) →
    (value.resolve source table.scopes use).2.Perm
      (((value.resolve source table.scopes use).1.occurrences context use).flatMap
          (Occurrence.errors source) ++
        Expr.callErrors source (value.resolve source table.scopes use).1.callees)
  | _, .binary op left right span type => by
      have leftErrors := left.resolve_errors shows .value
      have rightErrors := right.resolve_errors shows .value
      simp only [Expr.resolve, Expr.occurrences, Expr.callees, List.flatMap_append,
        Expr.callErrors_append]
      exact (leftErrors.append rightErrors).trans (perm_interchange _ _ _ _)
  | _, .unary op operand span type => operand.resolve_errors shows .value
  | _, .call callee arguments span type => by
      have calleeErrors := callee.resolve_errors shows .callee
      have argumentErrors := Expr.resolveAll_errors shows arguments
      simp only [Expr.resolve, Expr.occurrences, Expr.callees, List.flatMap_append]
      rw [← List.singleton_append, Expr.callErrors_append, Expr.callErrors_append,
        Expr.callErrors_singleton, List.append_assoc _ _ (Prod.snd _)]
      apply (calleeErrors.append (argumentErrors.append_left _)).trans
      apply ((List.perm_append_comm_assoc _ _ _).append_left _).trans
      refine (perm_interchange _ _ _ _).trans (List.Perm.append_left _ ?_)
      rw [List.append_assoc]
      exact List.perm_append_comm_assoc _ _ _
  | _, .grouping inner span type => inner.resolve_errors shows .value
  | _, .literal value span type => .nil
  | use, .identifier name symbol type => by
      simp only [Expr.resolve, Expr.occurrences, Expr.callees, List.flatMap_singleton,
        Name.useErrors_of_shows source shows name use
          (((table.scopes.lookup name.key).map Binding.id).or symbol)]
      exact .of_eq (List.append_nil _).symm

theorem Expr.resolveAll_errors (shows : table.Shows context) : (values : List Expr) →
    (Expr.resolveAll source table.scopes values).2.Perm
      ((Expr.occurrencesOfAll context (Expr.resolveAll source table.scopes values).1).flatMap
          (Occurrence.errors source) ++
        Expr.callErrors source
          (Expr.calleesOfAll (Expr.resolveAll source table.scopes values).1))
  | [] => .nil
  | first :: rest => by
      have firstErrors := first.resolve_errors shows .value
      have restErrors := Expr.resolveAll_errors shows rest
      simp only [Expr.resolveAll, Expr.occurrencesOfAll, Expr.calleesOfAll, List.flatMap_append,
        Expr.callErrors_append]
      exact (firstErrors.append restErrors).trans (perm_interchange _ _ _ _)

end

end Expressions

/-- The declarations that were refused and have no symbol. -/
def Declaration.refused (declarations : List Declaration) : List Declaration :=
  declarations.filter fun declaration => declaration.symbol.isNone

theorem Declaration.refused_append (declarations others : List Declaration) :
    refused (declarations ++ others) = refused declarations ++ refused others :=
  List.filter_append ..

theorem Declaration.symbol_ne_none {declarations : List Declaration}
    (allAccepted : refused declarations = []) :
    ∀ declaration ∈ declarations, declaration.symbol ≠ none := by
  intro declaration member unbound
  exact List.filter_eq_nil_iff.mp allAccepted declaration member (Option.isNone_iff_eq_none.mpr unbound)

/--
A name was declared in the innermost scope: the piece knows the symbol of the declaration, and the
scope gives the names their new meanings.
-/
structure Resolved.Declares {Piece : Type} (resolved : Resolved Piece) (before : SymbolTable)
    (piece : Option SymbolId → Piece) (declaration : Declaration)
    (meaning : Key → Option Declaration) : Prop where
  piece : resolved.piece = piece declaration.symbol
  enclosing : resolved.table.scopes.enclosing = before.scopes.enclosing
  innermost : Scope.Shows resolved.table.arena resolved.table.scopes.innermost meaning
  records : before.arena.Records [declaration] resolved.table.arena

section Declaring

variable {Piece : Type} (source : SourceId) {table : SymbolTable} {declared : List Declaration}
  (declaration : Declaration) (piece : Option SymbolId → Piece)

/-- The declaration that is accepted next, with the symbol that it gets. -/
def Declaration.accepted (arena : Arena) (declaration : Declaration) : Declaration :=
  { declaration with symbol := some arena.size }

theorem SymbolTable.declare_standsFor (table : SymbolTable) (declaration : Declaration) :
    Binding.StandsFor (table.arena.add declaration.entry).2
      ⟨declaration.name.key, table.arena.size, declaration.name.span, declaration.kind⟩
      (declaration.accepted table.arena) where
  symbol := rfl
  name := rfl
  span := rfl
  kind := rfl
  entry := Arena.get?_add_size table.arena declaration.entry

theorem SymbolTable.declare_records (table : SymbolTable) (declaration : Declaration) :
    table.arena.Records [declaration.accepted table.arena]
      (table.arena.add declaration.entry).2 :=
  .accepted rfl .nil

theorem Resolved.declaring_latest
    (shows : Scope.Shows table.arena table.scopes.innermost (Declaration.latest? declared))
    (previous : Option SymbolId) :
    ∃ symbol,
      let resolved := declaring source table declaration.entry true previous piece
      let accepted := { declaration with symbol := symbol }
      resolved.Declares table piece accepted (Declaration.latest? (declared ++ [accepted])) ∧
        resolved.errors = [] ∧ Declaration.refused [accepted] = [] := by
  have records := table.declare_records declaration
  refine ⟨some table.arena.size, ⟨rfl, rfl, ?_, records⟩, rfl, rfl⟩
  exact (shows.later records).cons_latest (table.declare_standsFor declaration)

theorem Resolved.declaring_first
    (shows : Scope.Shows table.arena table.scopes.innermost (Declaration.first? declared)) :
    ∃ symbol,
      let resolved := declaring source table declaration.entry false none piece
      let accepted := { declaration with symbol := symbol }
      resolved.Declares table piece accepted (Declaration.first? (declared ++ [accepted])) ∧
        resolved.errors =
          (Declaration.repetitions declared [accepted]).map (Declaration.repetitionError source) ∧
        Declaration.refused [accepted] =
          (Declaration.repetitions declared [accepted]).map Prod.snd := by
  have found := shows declaration.name.key
  simp only [Declaration.repetitions, List.append_nil]
  cases binding? : table.scopes.innermost.find? declaration.name.key with
  | none =>
      have unused : Declaration.first? declared declaration.name.key = none := by
        rw [binding?] at found
        generalize Declaration.first? declared declaration.name.key = first? at found ⊢
        cases found with
        | none => rfl
      have records := table.declare_records declaration
      have inserted : table.insert declaration.entry false =
          ((table.declare declaration.entry).map .ok id) := by
        simp only [SymbolTable.insert, Declaration.entry, binding?]
      refine ⟨some table.arena.size, ⟨?_, ?_, ?_, ?_⟩, ?_, ?_⟩
      all_goals simp only [declaring, inserted, unused]
      · rfl
      · rfl
      · exact (shows.later records).cons_first unused (table.declare_standsFor declaration)
      · exact records
      · rfl
      · rfl
  | some binding =>
      rw [binding?] at found
      have inserted : table.insert declaration.entry false =
          (.error ⟨declaration.name.key, binding.span, declaration.name.span⟩, table) := by
        simp only [SymbolTable.insert, Declaration.entry, binding?]
      cases used : Declaration.first? declared declaration.name.key with
      | none =>
          rw [used] at found
          cases found
      | some earlier =>
          rw [used] at found
          cases found with
          | some standsFor =>
              refine ⟨none, ⟨?_, ?_, ?_, ?_⟩, ?_, rfl⟩
              all_goals simp only [declaring, inserted]
              · exact shows.refused_first used
              · exact .refused rfl .nil
              · simp only [Redeclaration.error, standsFor.span]
                rfl

end Declaring

mutual

/-- The declarations in a statement in order, those of inner blocks included. -/
def Stmt.declarations : Stmt → List Declaration
  | .letDecl decl => [decl.declaration .localVariable]
  | .block statements _ => Stmt.declarationsOfAll statements
  | _ => []

/-- The declarations in several statements in order. -/
def Stmt.declarationsOfAll : List Stmt → List Declaration
  | [] => []
  | first :: rest => first.declarations ++ Stmt.declarationsOfAll rest

end

/-- The declarations inside a function: the parameters, then the variables. -/
def FunDecl.declarations (decl : FunDecl) : List Declaration :=
  decl.parameters.map Parameter.declaration ++ Stmt.declarationsOfAll decl.body.statements

/--
What resolution owes to a piece of a tree that starts at one symbol table: the context behind the
piece, the declarations and the leaves in the piece, and the names that the piece repeats.
-/
structure Resolved.Conforms {Piece : Type} (source : SourceId) (resolved : Resolved Piece)
    (before : SymbolTable) (behind : Context) (declared : List Declaration) (leaves : List Leaf)
    (repetitions : List (Declaration × Declaration)) : Prop where
  shows : resolved.table.Shows behind
  records : before.arena.Records declared resolved.table.arena
  bound : ∀ leaf ∈ leaves, leaf.IsBound resolved.table.arena
  errors : resolved.errors.Perm (leaves.flatMap (Leaf.scopeErrors source) ++
    repetitions.map (Declaration.repetitionError source))
  refused : (Declaration.refused declared).Perm (repetitions.map Prod.snd)

namespace Resolved.Conforms

variable {Piece Other : Type} {source : SourceId} {before : SymbolTable} {context behind : Context}
  {declared otherDeclared : List Declaration} {leaves otherLeaves : List Leaf}
  {repetitions otherRepetitions : List (Declaration × Declaration)}

theorem map {resolved : Resolved Piece} (convert : Piece → Other)
    (conforms : resolved.Conforms source before behind declared leaves repetitions) :
    (resolved.map convert).Conforms source before behind declared leaves repetitions :=
  ⟨conforms.shows, conforms.records, conforms.bound, conforms.errors, conforms.refused⟩

theorem reorder {resolved : Resolved Piece}
    (conforms : resolved.Conforms source before behind declared leaves repetitions)
    (perm : repetitions.Perm otherRepetitions) :
    resolved.Conforms source before behind declared leaves otherRepetitions :=
  { conforms with
    errors := conforms.errors.trans ((perm.map _).append_left _)
    refused := conforms.refused.trans (perm.map _) }

/-- A piece and the one behind it conform together. -/
theorem after {first : Resolved Piece} {rest : Resolved Other}
    (firstConforms : first.Conforms source before context declared leaves repetitions)
    (restConforms : rest.Conforms source first.table behind otherDeclared otherLeaves
      otherRepetitions) :
    (rest.after first.errors).Conforms source before behind (declared ++ otherDeclared)
      (leaves ++ otherLeaves) (repetitions ++ otherRepetitions) where
  shows := restConforms.shows
  records := firstConforms.records.append restConforms.records
  bound := by
    intro leaf member
    rcases List.mem_append.mp member with member | member
    · exact (firstConforms.bound leaf member).later restConforms.records
    · exact restConforms.bound leaf member
  errors := by
    rw [List.flatMap_append, List.map_append]
    exact (firstConforms.errors.append restConforms.errors).trans (perm_interchange _ _ _ _)
  refused := by
    rw [Declaration.refused_append, List.map_append]
    exact firstConforms.refused.append restConforms.refused

theorem of_enter {resolved : Resolved Piece}
    (conforms : resolved.Conforms source before.enter behind declared leaves repetitions) :
    resolved.Conforms source before behind declared leaves repetitions :=
  ⟨conforms.shows, conforms.records, conforms.bound, conforms.errors, conforms.refused⟩

/-- Closing the scopes of a piece gives back the context before it. -/
theorem closing {resolved : Resolved Piece} {table : SymbolTable} (shows : table.Shows context)
    (conforms : resolved.Conforms source table behind declared leaves repetitions) :
    (resolved.closing table.scopes).Conforms source table context declared leaves repetitions :=
  { conforms with shows := shows.later conforms.records }

end Resolved.Conforms

/-- A declaration in the innermost scope conforms. -/
theorem Resolved.Declares.conforms {Piece : Type} {source : SourceId} {resolved : Resolved Piece}
    {before : SymbolTable} {piece : Option SymbolId → Piece} {declaration : Declaration}
    {meaning : Key → Option Declaration} {behind : Context}
    {meanings : List (Key → Option Declaration)} {repetitions : List (Declaration × Declaration)}
    (declares : resolved.Declares before piece declaration meaning)
    (meanings_eq : behind.meanings = meaning :: meanings)
    (enclosing : List.Forall₂ (Scope.Shows before.arena) before.scopes.enclosing meanings)
    (errors_eq : resolved.errors = repetitions.map (Declaration.repetitionError source))
    (refused_eq : Declaration.refused [declaration] = repetitions.map Prod.snd) :
    resolved.Conforms source before behind [declaration] [] repetitions where
  shows := by
    rw [SymbolTable.Shows, meanings_eq, declares.enclosing]
    exact .cons declares.innermost (enclosing.imp fun _ _ shows => shows.later declares.records)
  records := declares.records
  bound := by simp
  errors := .of_eq errors_eq
  refused := .of_eq refused_eq

/-- A leaf without declarations leaves the table as it is. -/
theorem Resolved.conforms_of_leaf {Piece : Type} {source : SourceId} {table : SymbolTable}
    {context : Context} {leaf : Leaf} {errors : List ResolutionError} (piece : Piece)
    (shows : table.Shows context) (bound : leaf.IsBound table.arena)
    (errorsPerm : errors.Perm (leaf.scopeErrors source)) :
    Conforms source ⟨piece, table, errors⟩ table context [] [leaf] [] where
  shows := shows
  records := .nil
  bound := by simpa using bound
  errors := by simpa using errorsPerm
  refused := .nil

theorem Leaf.isBound_of_option {source : SourceId} {table : SymbolTable} {context : Context}
    (shows : table.Shows context) (value : Option Expr) (fresh : Expr.symbolsOfOption value = [])
    {statement : LeafStatement}
    (value_eq : statement.value? = (Expr.resolveOption source table.scopes value).1) :
    Leaf.IsBound table.arena ⟨context, statement⟩ := by
  simp only [Leaf.IsBound, Leaf.occurrences, value_eq]
  cases value with
  | none => simp [Expr.resolveOption]
  | some value =>
      simpa [Expr.resolveOption] using value.resolve_isBound source shows .value fresh

theorem Leaf.errors_of_option {source : SourceId} {table : SymbolTable} {context : Context}
    (shows : table.Shows context) (value : Option Expr) {statement : LeafStatement}
    (value_eq : statement.value? = (Expr.resolveOption source table.scopes value).1) :
    (Expr.resolveOption source table.scopes value).2.Perm
      (Leaf.scopeErrors source ⟨context, statement⟩) := by
  simp only [Leaf.scopeErrors, Leaf.occurrences, Leaf.callees, value_eq]
  cases value with
  | none => exact .nil
  | some value =>
      simpa [Expr.resolveOption] using value.resolve_errors source shows .value

section Variables

variable (source : SourceId) {table : SymbolTable} {context outer : Context}

/-- A variable whose initializer is resolved, with a symbol. -/
def LetDecl.bindTo (source : SourceId) (scopes : ScopeStack) (decl : LetDecl)
    (symbol : Option SymbolId) : LetDecl :=
  { decl with initializer := (Expr.resolveOption source scopes decl.initializer).1, symbol := symbol }

theorem LetDecl.resolve_of_local (isLocal : table.scopes.isGlobal = false) (decl : LetDecl) :
    decl.resolve source table =
      (Resolved.declaring source table (decl.declaration .localVariable).entry true decl.symbol
        (decl.bindTo source table.scopes)).after
          (Expr.resolveOption source table.scopes decl.initializer).2 := by
  simp only [LetDecl.resolve, isLocal]
  rfl

theorem LetDecl.resolve_of_global (isGlobal : table.scopes.isGlobal = true) (decl : LetDecl) :
    decl.resolve source table =
      (Resolved.declaring source table (decl.declaration .globalVariable).entry false decl.symbol
        (decl.bindTo source table.scopes)).after
          (Expr.resolveOption source table.scopes decl.initializer).2 := by
  simp only [LetDecl.resolve, isGlobal]
  rfl

/-- The initializer of a variable is resolved where the variable is not declared yet. -/
theorem LetDecl.conforms_of_declares {decl : LetDecl} {kind : SymbolKind} {symbol : Option SymbolId}
    {resolved : Resolved LetDecl} {behind : Context} {meaning : Key → Option Declaration}
    {repetitions : List (Declaration × Declaration)} (shows : table.Shows context)
    (fresh : Expr.symbolsOfOption decl.initializer = [])
    (declares : resolved.Declares table (decl.bindTo source table.scopes)
      { decl.declaration kind with symbol := symbol } meaning)
    (conforms : resolved.Conforms source table behind
      [{ decl.declaration kind with symbol := symbol }] [] repetitions) :
    (resolved.after (Expr.resolveOption source table.scopes decl.initializer).2).Conforms source
      table behind [resolved.piece.declaration kind] [⟨context, .letDecl resolved.piece⟩]
      repetitions := by
  have piece_eq := declares.piece
  have value_eq : (LeafStatement.letDecl resolved.piece).value? =
      (Expr.resolveOption source table.scopes decl.initializer).1 := by
    rw [piece_eq]
    rfl
  have initializer := Resolved.conforms_of_leaf () shows
    (Leaf.isBound_of_option shows _ fresh value_eq) (Leaf.errors_of_option shows _ value_eq)
  have together := initializer.after conforms
  rw [piece_eq] at together ⊢
  exact together

theorem LetDecl.resolve_local {locals : List Declaration}
    (shows : table.Shows (outer.enter (.block locals))) (decl : LetDecl)
    (fresh : decl.symbols = []) :
    let resolved := decl.resolve source table
    resolved.Conforms source table
      (outer.enter (.block (locals ++ [resolved.piece.declaration .localVariable])))
      [resolved.piece.declaration .localVariable]
      [⟨outer.enter (.block locals), .letDecl resolved.piece⟩] [] := by
  simp only [LetDecl.symbols, List.append_eq_nil_iff, Option.toList_eq_nil_iff] at fresh
  have isLocal : table.scopes.isGlobal = false := shows.isGlobal
  rcases List.forall₂_cons.mp shows with ⟨innermost, enclosing⟩
  rcases Resolved.declaring_latest source (decl.declaration .localVariable)
    (decl.bindTo source table.scopes) innermost decl.symbol with
    ⟨symbol, declares, no_errors, refused_eq⟩
  have piece_eq := declares.piece
  rw [LetDecl.resolve_of_local source isLocal]
  refine LetDecl.conforms_of_declares source shows fresh.2 declares
    (declares.conforms ?_ enclosing no_errors refused_eq)
  simp only [Resolved.after, piece_eq]
  rfl

theorem Context.meanings_of_outermost (functions globals : List Declaration) :
    Context.meanings { functions := functions, globals := globals } =
      [Declaration.first? (functions ++ globals)] := by
  simp only [Context.meanings, List.map_nil, List.nil_append, List.cons.injEq, and_true]
  funext key
  exact (Declaration.first?_append functions globals key).symm

theorem LetDecl.resolve_global {functions globals : List Declaration}
    (shows : table.Shows { functions := functions, globals := globals }) (decl : LetDecl)
    (fresh : decl.symbols = []) :
    let resolved := decl.resolve source table
    resolved.Conforms source table
      { functions := functions
        globals := globals ++ [resolved.piece.declaration .globalVariable] }
      [resolved.piece.declaration .globalVariable]
      [⟨{ functions := functions, globals := globals }, .letDecl resolved.piece⟩]
      (Declaration.repetitions (functions ++ globals)
        [resolved.piece.declaration .globalVariable]) := by
  simp only [LetDecl.symbols, List.append_eq_nil_iff, Option.toList_eq_nil_iff] at fresh
  have isGlobal : table.scopes.isGlobal = true := shows.isGlobal
  have scopes := shows
  rw [SymbolTable.Shows, Context.meanings_of_outermost] at scopes
  rcases List.forall₂_cons.mp scopes with ⟨innermost, enclosing⟩
  rcases Resolved.declaring_first source (decl.declaration .globalVariable)
    (decl.bindTo source table.scopes) innermost with
    ⟨symbol, declares, repetitions, refused_eq⟩
  have piece_eq := declares.piece
  rw [LetDecl.resolve_of_global source isGlobal, fresh.1]
  refine LetDecl.conforms_of_declares source shows fresh.2 declares
    (declares.conforms ?_ enclosing ?_ ?_)
  · simp only [Context.meanings_of_outermost, List.append_assoc, Resolved.after, piece_eq]
    rfl
  · simp only [repetitions, Resolved.after, piece_eq]
    rfl
  · simp only [Resolved.after, piece_eq]
    exact refused_eq

end Variables

section Bodies

variable (source : SourceId)

mutual

theorem Stmt.resolve_conforms (outer : Context) (returnType : WrittenType) :
    (locals : List Declaration) → (table : SymbolTable) → (statement : Stmt) →
      table.Shows (outer.enter (.block locals)) → statement.symbols = [] →
        let resolved := statement.resolve source table
        resolved.Conforms source table (outer.enter (.block (locals ++ resolved.piece.declares)))
          resolved.piece.declarations
          (resolved.piece.leaves (outer.enter (.block locals)) returnType) []
  | locals, table, .expression value span, shows, fresh => by
      simp only [Stmt.resolve, Stmt.declares, Stmt.declarations, Stmt.leaves, List.append_nil]
      refine Resolved.conforms_of_leaf _ shows ?_ ?_
      · exact Leaf.isBound_of_option shows (some value) fresh rfl
      · exact Leaf.errors_of_option shows (some value) rfl
  | locals, table, .letDecl decl, shows, fresh => (decl.resolve_local source shows fresh).map _
  | locals, table, .block statements span, shows, fresh => by
      have inside := Stmt.resolveAll_conforms (outer.enter (.block locals)) returnType []
        table.enter statements shows.enter_block fresh
      simp only [Stmt.resolve, Resolved.closing, Resolved.map, Stmt.declares, Stmt.declarations,
        Stmt.leaves, List.append_nil]
      exact (inside.of_enter.map fun statements => Stmt.block statements span).closing shows
  | locals, table, .returning value span, shows, fresh => by
      simp only [Stmt.resolve, Stmt.declares, Stmt.declarations, Stmt.leaves, List.append_nil]
      exact Resolved.conforms_of_leaf _ shows (Leaf.isBound_of_option shows value fresh rfl)
        (Leaf.errors_of_option shows value rfl)

theorem Stmt.resolveAll_conforms (outer : Context) (returnType : WrittenType) :
    (locals : List Declaration) → (table : SymbolTable) → (statements : List Stmt) →
      table.Shows (outer.enter (.block locals)) → Stmt.symbolsOfAll statements = [] →
        let resolved := Stmt.resolveAll source table statements
        resolved.Conforms source table
          (outer.enter (.block (locals ++ resolved.piece.flatMap Stmt.declares)))
          (Stmt.declarationsOfAll resolved.piece)
          (Stmt.leavesOfAll outer returnType locals resolved.piece) []
  | locals, table, [], shows, _ => by
      simp only [Stmt.resolveAll, List.flatMap_nil, List.append_nil]
      exact ⟨shows, .nil, by simp [Stmt.leavesOfAll], .nil, .nil⟩
  | locals, table, first :: rest, shows, fresh => by
      simp only [Stmt.symbolsOfAll, List.append_eq_nil_iff] at fresh
      have firstConforms := Stmt.resolve_conforms outer returnType locals table first shows fresh.1
      have restConforms := Stmt.resolveAll_conforms outer returnType _ _ rest firstConforms.shows
        fresh.2
      have together := firstConforms.after (restConforms.map
        ((first.resolve source table).piece :: ·))
      rw [List.append_assoc] at together
      exact together

end

theorem Parameter.resolve_conforms (context : Context) (declared : List Declaration)
    (table : SymbolTable) (parameter : Parameter)
    (shows : table.Shows (context.enter (.parameters declared))) (fresh : parameter.symbol = none) :
    let resolved := parameter.resolve source table
    resolved.Conforms source table
      (context.enter (.parameters (declared ++ [resolved.piece.declaration])))
      [resolved.piece.declaration] []
      (Declaration.repetitions declared [resolved.piece.declaration]) := by
  rcases List.forall₂_cons.mp shows with ⟨innermost, enclosing⟩
  rcases Resolved.declaring_first source parameter.declaration
    (fun symbol => { parameter with symbol := symbol }) innermost with
    ⟨symbol, declares, repetitions, refused_eq⟩
  have piece_eq := declares.piece
  have resolve_eq : parameter.resolve source table =
      Resolved.declaring source table parameter.declaration.entry false none
        fun symbol => { parameter with symbol := symbol } := by
    rw [← fresh]
    rfl
  simp only [resolve_eq, piece_eq]
  exact declares.conforms rfl enclosing repetitions refused_eq

theorem Parameter.resolveAll_conforms (context : Context) :
    (declared : List Declaration) → (table : SymbolTable) → (parameters : List Parameter) →
      table.Shows (context.enter (.parameters declared)) →
      (∀ parameter ∈ parameters, parameter.symbol = none) →
        let resolved := Resolved.all (Parameter.resolve source) table parameters
        resolved.Conforms source table
          (context.enter
            (.parameters (declared ++ resolved.piece.map Parameter.declaration)))
          (resolved.piece.map Parameter.declaration) []
          (Declaration.repetitions declared (resolved.piece.map Parameter.declaration))
  | declared, table, [], shows, _ => by
      simp only [Resolved.all, List.map_nil, List.append_nil]
      exact ⟨shows, .nil, by simp, .nil, .nil⟩
  | declared, table, first :: rest, shows, fresh => by
      have firstConforms := Parameter.resolve_conforms source context declared table first shows
        (fresh first List.mem_cons_self)
      have restConforms := Parameter.resolveAll_conforms context _ _ rest firstConforms.shows
        fun parameter member => fresh parameter (List.mem_cons_of_mem first member)
      have together := firstConforms.after (restConforms.map
        ((first.resolve source table).piece :: ·))
      simp only [Declaration.repetitions, List.append_nil, List.append_assoc] at together
      exact together

/-- The parameters and the body of a function are not bound yet. -/
def FunDecl.IsFresh (decl : FunDecl) : Prop :=
  (∀ parameter ∈ decl.parameters, parameter.symbol = none) ∧
    Stmt.symbolsOfAll decl.body.statements = []

theorem FunDecl.resolve_conforms {context : Context} {table : SymbolTable}
    (shows : table.Shows context) (decl : FunDecl) (fresh : decl.IsFresh) :
    let resolved := decl.resolve source table
    resolved.Conforms source table context resolved.piece.declarations
      (resolved.piece.leaves context)
      (Declaration.repetitions [] (resolved.piece.parameters.map Parameter.declaration)) := by
  have parameters := Parameter.resolveAll_conforms source context [] table.enter decl.parameters
    shows.enter_parameters fresh.1
  have body := Stmt.resolveAll_conforms source _ decl.returnType [] _ decl.body.statements
    parameters.shows.enter_block fresh.2
  have together := parameters.after (body.of_enter.map fun statements =>
    { decl with
      parameters := (Resolved.all (Parameter.resolve source) table.enter decl.parameters).piece
      body := { decl.body with statements := statements } })
  rw [List.append_nil] at together
  exact together.of_enter.closing shows

end Bodies

/-- The declarations in a declaration, without that of a function, which comes before all of them. -/
def Decl.declarations : Decl → List Declaration
  | .funDecl decl => decl.declarations
  | .letDecl decl => [decl.declaration .globalVariable]

/-- All declarations of a program, in the order in which they get their symbols. -/
def Program.allDeclarations (program : Program) : List Declaration :=
  program.functions.map FunDecl.declaration ++ program.declarations.flatMap Decl.declarations

/-- Apart from a function itself, nothing in a declaration is bound yet. -/
def Decl.IsFresh : Decl → Prop
  | .funDecl decl => decl.IsFresh
  | .letDecl decl => decl.symbols = []

section Programs

variable (source : SourceId)

theorem Decl.declareFunction_conforms {functions : List Declaration} {table : SymbolTable}
    (shows : table.Shows { functions := functions, globals := [] }) (decl : FunDecl)
    (fresh : decl.symbol = none) :
    ∃ declared : FunDecl,
      let resolved := Decl.declareFunction source table (.funDecl decl)
      resolved.piece = .funDecl declared ∧
        resolved.Conforms source table
          { functions := functions ++ [declared.declaration], globals := [] }
          [declared.declaration] [] (Declaration.repetitions functions [declared.declaration]) := by
  rw [SymbolTable.Shows, Context.meanings_of_outermost, List.append_nil] at shows
  rcases List.forall₂_cons.mp shows with ⟨innermost, enclosing⟩
  rcases Resolved.declaring_first source decl.declaration
    (fun symbol => Decl.funDecl { decl with symbol := symbol }) innermost with
    ⟨symbol, declares, repetitions, refused_eq⟩
  have declare_eq : Decl.declareFunction source table (.funDecl decl) =
      Resolved.declaring source table decl.declaration.entry false none
        fun symbol => Decl.funDecl { decl with symbol := symbol } := by
    rw [← fresh]
    rfl
  refine ⟨{ decl with symbol := symbol }, ?_⟩
  simp only [declare_eq]
  refine ⟨declares.piece, declares.conforms ?_ enclosing repetitions refused_eq⟩
  rw [Context.meanings_of_outermost, List.append_nil]
  rfl

theorem Decl.declareFunctions_conforms : (functions : List Declaration) → (table : SymbolTable) →
    (declarations : List Decl) → table.Shows { functions := functions, globals := [] } →
    (∀ decl ∈ declarations, decl.symbols = []) →
      let resolved := Resolved.all (Decl.declareFunction source) table declarations
      let declared := (resolved.piece.filterMap Decl.function?).map FunDecl.declaration
      resolved.Conforms source table { functions := functions ++ declared, globals := [] }
        declared [] (Declaration.repetitions functions declared)
  | functions, table, [], shows, _ => by
      simp only [Resolved.all, List.filterMap_nil, List.map_nil, List.append_nil]
      exact ⟨shows, .nil, by simp, .nil, .nil⟩
  | functions, table, .letDecl decl :: rest, shows, fresh => by
      have restConforms := Decl.declareFunctions_conforms functions table rest shows
        fun decl member => fresh decl (List.mem_cons_of_mem _ member)
      exact restConforms.map (Decl.letDecl decl :: ·)
  | functions, table, .funDecl decl :: rest, shows, fresh => by
      have unbound := fresh _ List.mem_cons_self
      simp only [Decl.symbols, FunDecl.symbols, List.append_eq_nil_iff,
        Option.toList_eq_nil_iff] at unbound
      rcases Decl.declareFunction_conforms source shows decl unbound.1.1 with
        ⟨declared, piece_eq, firstConforms⟩
      have restConforms := Decl.declareFunctions_conforms _ _ rest firstConforms.shows
        fun decl member => fresh decl (List.mem_cons_of_mem _ member)
      have together := firstConforms.after (restConforms.map (Decl.funDecl declared :: ·))
      simp only [Resolved.all, Resolved.after, Resolved.map, piece_eq, List.filterMap_cons,
        Decl.function?, List.map_cons] at together ⊢
      rw [List.append_assoc, ← Declaration.repetitions_append] at together
      exact together

theorem FunDecl.declaration_resolve (table : SymbolTable) (decl : FunDecl) :
    (decl.resolve source table).piece.declaration = decl.declaration := by
  have signature_eq : (decl.resolve source table).piece.signature = decl.signature := by
    rw [← FunDecl.signature_withoutSymbols, decl.withoutSymbols_resolve source table,
      FunDecl.signature_withoutSymbols]
  simp only [FunDecl.declaration, signature_eq]
  rfl

theorem Decl.resolveAll_functions (table : SymbolTable) (declarations : List Decl) :
    ((Resolved.all (Decl.resolve source) table declarations).piece.filterMap Decl.function?).map
        FunDecl.declaration =
      (declarations.filterMap Decl.function?).map FunDecl.declaration := by
  have unchanged : ∀ (table : SymbolTable) (decl : Decl),
      (decl.resolve source table).piece.function?.map FunDecl.declaration =
        decl.function?.map FunDecl.declaration := by
    intro table decl
    cases decl with
    | funDecl decl => exact congrArg some (decl.declaration_resolve source table)
    | letDecl decl => rfl
  have functions_eq := congrArg (List.filterMap id)
    (Resolved.map_piece_all (fun decl => decl.function?.map FunDecl.declaration) unchanged table
      declarations)
  simpa only [List.filterMap_map, List.map_filterMap, Function.comp_def, id] using functions_eq

theorem Decl.resolveAll_conforms (functions : List Declaration) :
    (globals : List Declaration) → (table : SymbolTable) → (declarations : List Decl) →
      table.Shows { functions := functions, globals := globals } →
      (∀ decl ∈ declarations, decl.IsFresh) →
        let resolved := Resolved.all (Decl.resolve source) table declarations
        let declared := (resolved.piece.filterMap Decl.variable?).map
          (LetDecl.declaration .globalVariable)
        resolved.Conforms source table { functions := functions, globals := globals ++ declared }
          (resolved.piece.flatMap Decl.declarations)
          (Decl.leavesOfAll functions globals resolved.piece)
          (Declaration.repetitions (functions ++ globals) declared ++
            (resolved.piece.filterMap Decl.function?).flatMap fun decl =>
              Declaration.repetitions [] (decl.parameters.map Parameter.declaration))
  | globals, table, [], shows, _ => by
      simp only [Resolved.all, List.filterMap_nil, List.map_nil, List.append_nil]
      exact ⟨shows, .nil, by simp [Decl.leavesOfAll], .nil, .nil⟩
  | globals, table, .letDecl decl :: rest, shows, fresh => by
      have firstConforms := decl.resolve_global source shows (fresh _ List.mem_cons_self)
      have restConforms := Decl.resolveAll_conforms functions _ _ rest firstConforms.shows
        fun decl member => fresh decl (List.mem_cons_of_mem _ member)
      have together := firstConforms.after (restConforms.map
        (Decl.letDecl (decl.resolve source table).piece :: ·))
      rw [List.append_assoc, ← List.append_assoc (Declaration.repetitions _ _),
        ← List.append_assoc functions, ← Declaration.repetitions_append] at together
      exact together
  | globals, table, .funDecl decl :: rest, shows, fresh => by
      have firstConforms := decl.resolve_conforms source shows (fresh _ List.mem_cons_self)
      have restConforms := Decl.resolveAll_conforms functions globals _ rest firstConforms.shows
        fun decl member => fresh decl (List.mem_cons_of_mem _ member)
      have together := firstConforms.after (restConforms.map
        (Decl.funDecl (decl.resolve source table).piece :: ·))
      exact together.reorder (List.perm_append_comm_assoc _ _ _)

theorem Decl.isFresh_declareFunction (table : SymbolTable) (decl : Decl)
    (fresh : decl.symbols = []) : (decl.declareFunction source table).piece.IsFresh := by
  cases decl with
  | funDecl decl =>
      simp only [Decl.symbols, FunDecl.symbols, List.append_eq_nil_iff,
        List.flatMap_eq_nil_iff, Option.toList_eq_nil_iff] at fresh
      rw [Decl.declareFunction]
      rcases Resolved.piece_declaring source table _ _ decl.symbol _ with ⟨id, piece_eq⟩
      rw [piece_eq]
      exact ⟨fresh.1.2, fresh.2⟩
  | letDecl decl => exact fresh

theorem Resolved.forall_piece_all {Piece : Type} {resolve : SymbolTable → Piece → Resolved Piece}
    {P Q : Piece → Prop} (step : ∀ table piece, P piece → Q (resolve table piece).piece) :
    ∀ (table : SymbolTable) (pieces : List Piece), (∀ piece ∈ pieces, P piece) →
      ∀ piece ∈ (Resolved.all resolve table pieces).piece, Q piece
  | _, [], _ => by simp [Resolved.all]
  | table, first :: rest, holds => by
      simp only [Resolved.all, Resolved.after, Resolved.map, List.forall_mem_cons] at holds ⊢
      exact ⟨step table first holds.1, Resolved.forall_piece_all step _ rest holds.2⟩

end Programs

theorem Expr.callErrors_flatMap (source : SourceId) (leaves : List Leaf) :
    Expr.callErrors source (leaves.flatMap Leaf.callees) =
      leaves.flatMap fun leaf => Expr.callErrors source leaf.callees := by
  simp only [Expr.callErrors, List.filter_flatMap, List.map_flatMap]

/-- The errors of all leaves are those of all identifiers and those of all callees. -/
theorem Program.scopeErrors_perm (program : Program) :
    (program.leaves.flatMap (Leaf.scopeErrors program.source) ++
      program.repetitions.map (Declaration.repetitionError program.source)).Perm
        program.scopeErrors := by
  apply List.Perm.append_right _
  rw [Program.occurrences, Program.callees, List.flatMap_assoc, Expr.callErrors_flatMap]
  exact (List.flatMap_append_perm _ _ _).symm

/-- What resolution owes to a program, without and with its symbols. -/
theorem Program.resolve_conforms (program : Program) (arena : Arena)
    (fresh : program.symbols = []) :
    let resolution := program.resolve arena
    arena.Records resolution.program.allDeclarations resolution.arena ∧
      (∀ leaf ∈ resolution.program.leaves, leaf.IsBound resolution.arena) ∧
      resolution.errors.Perm resolution.program.scopeErrors ∧
      (Declaration.refused resolution.program.allDeclarations).Perm
        (resolution.program.repetitions.map Prod.snd) := by
  intro resolution
  have unbound : ∀ decl ∈ program.declarations, decl.symbols = [] := by
    simpa only [Program.symbols, List.flatMap_eq_nil_iff] using fresh
  have start : (SymbolTable.ofArena arena).Shows { functions := [], globals := [] } :=
    .cons .empty_first .nil
  have declared := Decl.declareFunctions_conforms program.source [] _ program.declarations start
    unbound
  have inside := Resolved.forall_piece_all
    (fun table decl => Decl.isFresh_declareFunction program.source table decl)
    (.ofArena arena) program.declarations unbound
  have resolved := Decl.resolveAll_conforms program.source _ [] _ _ declared.shows inside
  have together := declared.after resolved
  have functions_eq := Decl.resolveAll_functions program.source
    (Resolved.all (Decl.declareFunction program.source) (.ofArena arena)
      program.declarations).table
    (Resolved.all (Decl.declareFunction program.source) (.ofArena arena)
      program.declarations).piece
  have joined : ∀ functions globals : List Declaration,
      Declaration.repetitions [] functions ++ Declaration.repetitions functions globals =
        Declaration.repetitions [] (functions ++ globals) := fun functions globals =>
    (Declaration.repetitions_append [] functions globals).symm
  rw [List.nil_append, List.append_nil, ← functions_eq, ← List.append_assoc, joined] at together
  exact ⟨together.records, together.bound,
    together.errors.trans resolution.program.scopeErrors_perm, together.refused⟩

/-- The errors of resolution are the violations of the scope rules, in some order. -/
theorem Program.resolve_errors_perm {program : Program} (arena : Arena)
    (fresh : program.symbols = []) :
    (program.resolve arena).errors.Perm program.scopeErrors := by
  rcases program.resolve_conforms arena fresh with ⟨_, _, errors, _⟩
  rw [← scopeErrors_withoutSymbols, program.withoutSymbols_resolve arena,
    program.withoutSymbols_of_fresh fresh] at errors
  exact errors

/-- If resolution finds no error, the program keeps the rules and no declaration is refused. -/
theorem Program.resolve_accepts {program : Program} {arena : Arena} (fresh : program.symbols = [])
    (clean : (program.resolve arena).errors = []) :
    (program.resolve arena).program.WellScoped ∧
      ∀ declaration ∈ (program.resolve arena).program.allDeclarations,
        declaration.symbol ≠ none := by
  rcases program.resolve_conforms arena fresh with ⟨_, _, errors, refused⟩
  rw [clean, List.nil_perm] at errors
  have noRepetitions := errors
  rw [scopeErrors, List.append_eq_nil_iff, List.map_eq_nil_iff] at noRepetitions
  rw [noRepetitions.2, List.map_nil, List.perm_nil] at refused
  exact ⟨(scopeErrors_eq_nil_iff _).mp errors, Declaration.symbol_ne_none refused⟩

end TypedLang
