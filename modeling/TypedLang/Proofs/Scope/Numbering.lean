import TypedLang.Proofs.Parsing.Fresh
import TypedLang.Proofs.Scope.Coverage
import TypedLang.Proofs.Scope.Guard

/-!
# The numbers of declarations

Resolution hands out numbers in two passes, first to the functions and then to all that is declared
inside of them and between them, and some declarations are refused on the way. Still, the numbers
that are new belong to the nodes of declarations one by one, the arena tells under each number what
stands at its node, and the nodes without a number are those that an error tells about.
-/

namespace TypedLang

/-- The kind of the nodes that declare symbols of a kind. -/
def SymbolKind.nodeKind : SymbolKind → NodeKind
  | localVariable => .letDecl
  | globalVariable => .letDecl
  | parameter => .parameter
  | function => .funDecl

/-- What a node declares, if it is one of a declaration: the kind of the node and the name. -/
def Node.declares? (node : Node) : Option (NodeKind × NodeDetail) :=
  match node.kind with
  | .letDecl => some (.letDecl, node.detail)
  | .funDecl => some (.funDecl, node.detail)
  | .parameter => some (.parameter, node.detail)
  | _ => none

/-- What a declaration looks like as a node. -/
def Declaration.mark (declaration : Declaration) : NodeKind × NodeDetail :=
  (declaration.kind.nodeKind, .name declaration.name.key)

/-- What the nodes of a tree declare. -/
def NodeTree.declared (tree : NodeTree) : List (NodeKind × NodeDetail) :=
  tree.nodes.filterMap Node.declares?

/-- What the nodes of several trees declare. -/
def NodeTree.declaredOfAll (trees : List NodeTree) : List (NodeKind × NodeDetail) :=
  (nodesOfAll trees).filterMap Node.declares?

namespace NodeTree

@[simp]
theorem declared_mk (node : Node) (children : List NodeTree) :
    declared (.mk node children) = node.declares?.toList ++ declaredOfAll children := by
  rw [declared, nodes, List.filterMap_cons, declaredOfAll]
  cases node.declares? <;> rfl

@[simp]
theorem declaredOfAll_nil : declaredOfAll [] = [] :=
  rfl

@[simp]
theorem declaredOfAll_cons (tree : NodeTree) (rest : List NodeTree) :
    declaredOfAll (tree :: rest) = tree.declared ++ declaredOfAll rest :=
  List.filterMap_append ..

theorem declaredOfAll_append (trees others : List NodeTree) :
    declaredOfAll (trees ++ others) = declaredOfAll trees ++ declaredOfAll others := by
  rw [declaredOfAll, nodesOfAll_append, List.filterMap_append]
  rfl

end NodeTree

mutual

theorem Expr.declared_tree : (value : Expr) → value.tree.declared = []
  | .binary op left right span type => by
      have role : Node.declares? ⟨.expression, span, .none⟩ = none := rfl
      have other : Node.declares? ⟨op.nodeKind, span, .binaryOp op⟩ = none := by cases op <;> rfl
      simp [Expr.tree, role, other, left.declared_tree, right.declared_tree]
  | .unary op operand span type => by
      simp [Expr.tree, Node.declares?, operand.declared_tree]
  | .call callee arguments span type => by
      simp [Expr.tree, Node.declares?, callee.declared_tree, Expr.declared_trees arguments]
  | .grouping inner span type => by
      simp [Expr.tree, Node.declares?, inner.declared_tree]
  | .literal value span type => rfl
  | .identifier name symbol type => rfl

theorem Expr.declared_trees : (values : List Expr) →
    NodeTree.declaredOfAll (Expr.trees values) = []
  | [] => rfl
  | first :: rest => by
      simp [Expr.trees, first.declared_tree, Expr.declared_trees rest]

end

theorem Expr.declared_option (value : Option Expr) :
    NodeTree.declaredOfAll (value.toList.map Expr.tree) = [] := by
  cases value with
  | none => rfl
  | some value => simp [value.declared_tree]

theorem LetDecl.declared_tree (kind : SymbolKind) (isLet : kind.nodeKind = .letDecl)
    (decl : LetDecl) : decl.tree.declared = [(decl.declaration kind).mark] := by
  simp [LetDecl.tree, WrittenType.tree, Node.declares?, Expr.declared_option, Declaration.mark,
    LetDecl.declaration, isLet]

mutual

theorem Stmt.declared_tree : (statement : Stmt) →
    statement.tree.declared = statement.declarations.map Declaration.mark
  | .expression value span => by
      simp [Stmt.tree, Stmt.declarations, Node.declares?, value.declared_tree]
  | .letDecl decl => by
      simp [Stmt.tree, Stmt.declarations, Node.declares?, decl.declared_tree .localVariable rfl]
  | .block statements span => by
      simp [Stmt.tree, Stmt.declarations, Node.declares?, Stmt.declared_trees statements]
  | .returning value span => by
      simp [Stmt.tree, Stmt.declarations, Node.declares?, Expr.declared_option]

theorem Stmt.declared_trees : (statements : List Stmt) →
    NodeTree.declaredOfAll (Stmt.trees statements) =
      (Stmt.declarationsOfAll statements).map Declaration.mark
  | [] => rfl
  | first :: rest => by
      simp [Stmt.trees, Stmt.declarationsOfAll, first.declared_tree, Stmt.declared_trees rest]

end

theorem Parameter.declared_trees (parameters : List Parameter) :
    NodeTree.declaredOfAll (parameters.map Parameter.tree) =
      (parameters.map Parameter.declaration).map Declaration.mark := by
  induction parameters with
  | nil => rfl
  | cons first rest ih =>
      simp [Parameter.tree, WrittenType.tree, Node.declares?, ih, Declaration.mark,
        Parameter.declaration, SymbolKind.nodeKind]

theorem FunDecl.declared_tree (decl : FunDecl) :
    decl.tree.declared = (decl.declaration :: decl.declarations).map Declaration.mark := by
  simp [FunDecl.tree, WrittenType.tree, Node.declares?, NodeTree.declaredOfAll_append,
    Parameter.declared_trees, Stmt.declared_trees, FunDecl.declarations, Declaration.mark,
    FunDecl.declaration, SymbolKind.nodeKind]

theorem Decl.declared_tree (decl : Decl) :
    decl.tree.declared = decl.typings.map Declaration.mark := by
  cases decl with
  | funDecl decl => simp [Decl.tree, Node.declares?, decl.declared_tree, Decl.typings]
  | letDecl decl =>
      simp [Decl.tree, Node.declares?, decl.declared_tree .globalVariable rfl, Decl.typings]

/-- The declarations of a program are all nodes of declarations in its tree, in order. -/
theorem Program.map_mark_typings (program : Program) :
    (program.declarations.flatMap Decl.typings).map Declaration.mark = program.tree.declared := by
  have declarations_eq : ∀ declarations : List Decl,
      NodeTree.declaredOfAll (declarations.map Decl.tree) =
        (declarations.flatMap Decl.typings).map Declaration.mark := by
    intro declarations
    induction declarations with
    | nil => rfl
    | cons first rest ih => simp [first.declared_tree, ih]
  simp [Program.tree, Node.declares?, declarations_eq]

/-- The declaration that an error says to be refused: where its name stands, and the name. -/
def ResolutionError.refused? (error : ResolutionError) : Option (Span × Option Key) :=
  match error.cause with
  | .nameAlreadyUsed name _ => some (error.span, name)
  | _ => none

/-- How an error tells about a declaration that is refused. -/
def Declaration.refusal (declaration : Declaration) : Span × Option Key :=
  (declaration.name.span, some declaration.name.key)

section Errors

variable (source : SourceId)

theorem Occurrence.refused?_errors (occurrence : Occurrence) :
    (occurrence.errors source).filterMap ResolutionError.refused? = [] := by
  rw [Occurrence.errors]
  split
  · rfl
  · split <;> rfl

theorem Expr.refused?_callErrors (callees : List Expr) :
    (Expr.callErrors source callees).filterMap ResolutionError.refused? = [] := by
  rw [Expr.callErrors, List.filterMap_map, List.filterMap_eq_nil_iff]
  exact fun _ _ => rfl

theorem Program.refused?_scopeErrors (program : Program) :
    program.scopeErrors.filterMap ResolutionError.refused? =
      (program.repetitions.map Prod.snd).map Declaration.refusal := by
  have occurrences : (program.occurrences.flatMap
      (Occurrence.errors program.source)).filterMap ResolutionError.refused? = [] := by
    rw [List.filterMap_flatMap, List.flatMap_eq_nil_iff]
    exact fun occurrence _ => occurrence.refused?_errors program.source
  rw [Program.scopeErrors, List.filterMap_append, List.filterMap_append, occurrences,
    Expr.refused?_callErrors, List.filterMap_map, List.map_map]
  exact List.filterMap_eq_map ▸ rfl

end Errors

theorem Declaration.key_of_first? {declarations : List Declaration} {key : Key}
    {declaration : Declaration} (found : first? declarations key = some declaration) :
    declaration.name.key = key :=
  beq_iff_eq.mp (List.find?_some (p := isNamed key) found)

theorem Declaration.key_of_latest? {declarations : List Declaration} {key : Key}
    {declaration : Declaration} (found : latest? declarations key = some declaration) :
    declaration.name.key = key :=
  beq_iff_eq.mp (List.find?_some (p := isNamed key) found)

theorem Level.key_of_declaration? {level : Level} {key : Key} {declaration : Declaration}
    (found : level.declaration? key = some declaration) : declaration.name.key = key := by
  cases level with
  | block declared => exact Declaration.key_of_latest? found
  | parameters declared => exact Declaration.key_of_first? found

/-- What a name means has that name. -/
theorem Context.key_of_declaration? {context : Context} {key : Key} {declaration : Declaration}
    (found : context.declaration? key = some declaration) : declaration.name.key = key := by
  rcases Option.or_eq_some_iff.mp found with inside | ⟨_, outside⟩
  · rcases List.exists_of_findSome?_eq_some inside with ⟨level, _, declares⟩
    exact Level.key_of_declaration? declares
  · rcases Option.or_eq_some_iff.mp outside with function | ⟨_, variable_⟩
    · exact Declaration.key_of_first? function
    · exact Declaration.key_of_first? variable_

theorem Occurrence.IsBound.name_eq {arena : Arena} {occurrence : Occurrence}
    (bound : occurrence.IsBound arena) {id : SymbolId} (own : occurrence.symbol = some id) :
    ∃ symbol, arena.get? id = some symbol ∧ symbol.name = occurrence.name.key := by
  rw [Occurrence.IsBound, own] at bound
  cases means : occurrence.declaration? with
  | none =>
      rw [means] at bound
      cases bound
  | some declaration =>
      rw [means] at bound
      cases bound with
      | some found => exact ⟨_, found.2, Context.key_of_declaration? means⟩

/--
What resolution owes to the declarations of a program. Those that are accepted have the new numbers
one by one, and the arena holds under each number the name, the place, the kind and, of a function,
the signature. Those that are refused have an error each. An identifier is bound to a symbol of its
name, and only the global scope is left open.
-/
structure Resolved.Registers (resolved : Resolved Program) (before : Arena) : Prop where
  nodes : (resolved.piece.declarations.flatMap Decl.typings).map Declaration.mark =
    resolved.piece.tree.declared
  numbered : ((resolved.piece.declarations.flatMap Decl.typings).filterMap Declaration.symbol).Perm
    (List.range' before.size (resolved.table.arena.size - before.size))
  entries : ∀ declaration ∈ resolved.piece.declarations.flatMap Decl.typings, ∀ id,
    declaration.symbol = some id → resolved.table.arena.get? id = some declaration.entry
  refused : (resolved.errors.filterMap ResolutionError.refused?).Perm
    ((Declaration.refused (resolved.piece.declarations.flatMap Decl.typings)).map
      Declaration.refusal)
  occurrences : resolved.piece.occurrences.map Occurrence.node =
    Node.identifiers resolved.piece.tree.nodes
  identifiers : ∀ occurrence ∈ resolved.piece.occurrences, ∀ id, occurrence.symbol = some id →
    ∃ symbol, resolved.table.arena.get? id = some symbol ∧ symbol.name = occurrence.name.key
  kept : before.symbols <+: resolved.table.arena.symbols
  closed : resolved.table.scopes.isGlobal = true

theorem Program.resolved_registers (program : Program) (arena : Arena)
    (fresh : program.symbols = []) : (program.resolved arena).Registers arena := by
  rcases program.resolve_conforms arena fresh with ⟨records, bound, errors, refused⟩
  rw [← program.resolution_resolved arena] at records bound errors refused
  generalize resolved_eq : program.resolved arena = resolved at records bound errors refused
  simp only [Resolved.resolution] at records bound errors refused
  have typings := resolved.piece.allDeclarations_perm
  constructor
  · exact resolved.piece.map_mark_typings
  · have size_eq := records.size_eq
    have numbers := records.symbols_eq_range
    have count : resolved.table.arena.size - arena.size =
        (resolved.piece.allDeclarations.filterMap Declaration.symbol).length := by
      omega
    rw [count, ← numbers]
    exact (typings.filterMap _).symm
  · intro declaration member id own
    exact records.get?_of_symbol (typings.mem_iff.mpr member) own
  · have reported := errors.filterMap ResolutionError.refused?
    rw [Program.refused?_scopeErrors] at reported
    exact reported.trans ((refused.symm.map _).trans ((typings.filter _).map _))
  · exact resolved.piece.map_node_occurrences
  · intro occurrence member id own
    exact (Occurrence.isBound_of_mem bound member).name_eq own
  · exact records.symbols_prefix
  · have enclosing := (program.resolved_attempted arena fresh).enclosing
    rw [resolved_eq] at enclosing
    rw [ScopeStack.isGlobal, enclosing]
    rfl

/--
Resolution of a parsed program succeeds over any arena. The new symbols belong to the accepted
declarations of the program one by one, and the refused ones are those that errors tell about.
-/
theorem Program.resolve_registers_declarations (source : SourceId) (tokens : List Token)
    (arena : Arena) :
    let program := (Parsed.ofTokens source tokens).program
    ∃ resolved, program.tryResolved arena = .ok resolved ∧
      program.tryResolve arena = .ok resolved.resolution ∧ resolved.Registers arena := by
  intro program
  have fresh : program.symbols = [] := Parsed.symbols_eq_nil source tokens
  refine ⟨program.resolved arena, (program.resolved_attempted arena fresh).result,
    program.tryResolve_eq arena fresh, program.resolved_registers arena fresh⟩

end TypedLang
