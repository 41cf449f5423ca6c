import TypedLang.Program.Node
import TypedLang.Proofs.Scope.Resolution

/-!
# Coverage

The leaves of a program leave nothing out. Their identifiers are all identifiers of the tree, and
every symbol in the tree is that of an identifier in a leaf or of a declaration.
-/

namespace TypedLang

/-- The node of an identifier. -/
def Occurrence.node (occurrence : Occurrence) : Node :=
  ⟨.identifier, occurrence.name.span, .name occurrence.name.key⟩

/-- The nodes of the identifiers among some nodes. -/
def Node.identifiers (nodes : List Node) : List Node :=
  nodes.filter fun node => node.kind == .identifier

theorem Node.identifiers_append (nodes others : List Node) :
    Node.identifiers (nodes ++ others) = Node.identifiers nodes ++ Node.identifiers others :=
  List.filter_append ..

theorem Node.identifiers_cons {node : Node} {nodes : List Node}
    (other : (node.kind == .identifier) = false) :
    Node.identifiers (node :: nodes) = Node.identifiers nodes :=
  List.filter_cons_of_neg (by simp [other])

theorem NodeTree.nodesOfAll_append (trees others : List NodeTree) :
    nodesOfAll (trees ++ others) = nodesOfAll trees ++ nodesOfAll others := by
  induction trees with
  | nil => rfl
  | cons tree rest ih => simp only [List.cons_append, nodesOfAll, ih, List.append_assoc]

mutual

theorem Expr.identifiers_tree (context : Context) : (use : Use) → (value : Expr) →
    Node.identifiers value.tree.nodes = (value.occurrences context use).map Occurrence.node
  | _, .binary op left right span type => by
      have leftNodes := left.identifiers_tree context .value
      have rightNodes := right.identifiers_tree context .value
      have other : (op.nodeKind == .identifier) = false := by cases op <;> rfl
      simp only [Expr.tree, NodeTree.nodes, NodeTree.nodesOfAll, List.append_nil]
      rw [Node.identifiers_cons rfl, Node.identifiers_cons other, Node.identifiers_append, leftNodes,
        rightNodes, ← List.map_append]
      rfl
  | _, .unary op operand span type => by
      have operandNodes := operand.identifiers_tree context .value
      simp only [Expr.tree, NodeTree.nodes, NodeTree.nodesOfAll, List.append_nil]
      rw [Node.identifiers_cons rfl, Node.identifiers_cons rfl, operandNodes]
      rfl
  | _, .call callee arguments span type => by
      have calleeNodes := callee.identifiers_tree context .callee
      have argumentNodes := Expr.identifiers_trees context arguments
      simp only [Expr.tree, NodeTree.nodes, NodeTree.nodesOfAll, List.append_nil]
      rw [Node.identifiers_cons rfl, Node.identifiers_cons rfl, Node.identifiers_append, calleeNodes,
        argumentNodes, ← List.map_append]
      rfl
  | _, .grouping inner span type => by
      have innerNodes := inner.identifiers_tree context .value
      simp only [Expr.tree, NodeTree.nodes, NodeTree.nodesOfAll, List.append_nil]
      rw [Node.identifiers_cons rfl, Node.identifiers_cons rfl, innerNodes]
      rfl
  | _, .literal value span type => rfl
  | _, .identifier name symbol type => rfl

theorem Expr.identifiers_trees (context : Context) : (values : List Expr) →
    Node.identifiers (NodeTree.nodesOfAll (Expr.trees values)) =
      (Expr.occurrencesOfAll context values).map Occurrence.node
  | [] => rfl
  | first :: rest => by
      rw [Expr.trees, NodeTree.nodesOfAll, Node.identifiers_append,
        first.identifiers_tree context .value, Expr.identifiers_trees context rest,
        ← List.map_append]
      rfl

end

theorem Leaf.identifiers_value (leaf : Leaf) {value : Option Expr}
    (value_eq : leaf.statement.value? = value) :
    Node.identifiers (NodeTree.nodesOfAll (value.toList.map Expr.tree)) =
      leaf.occurrences.map Occurrence.node := by
  simp only [Leaf.occurrences, value_eq]
  cases value with
  | none => rfl
  | some value =>
      simp only [Option.toList_some, List.map_cons, List.map_nil, NodeTree.nodesOfAll,
        List.append_nil, List.flatMap_cons, List.flatMap_nil]
      exact value.identifiers_tree leaf.context .value

theorem LetDecl.identifiers_tree (context : Context) (decl : LetDecl) :
    Node.identifiers decl.tree.nodes =
      (Leaf.occurrences ⟨context, .letDecl decl⟩).map Occurrence.node := by
  rw [← Leaf.identifiers_value ⟨context, .letDecl decl⟩ rfl]
  simp only [LetDecl.tree, WrittenType.tree, NodeTree.nodes, NodeTree.nodesOfAll,
    List.singleton_append]
  rw [Node.identifiers_cons rfl, Node.identifiers_cons rfl]
  rfl

mutual

theorem Stmt.identifiers_tree (returnType : WrittenType) : (context : Context) →
    (statement : Stmt) → Node.identifiers statement.tree.nodes =
      ((statement.leaves context returnType).flatMap Leaf.occurrences).map Occurrence.node
  | context, .expression value span => by
      have nodes := Leaf.identifiers_value ⟨context, .expression value⟩ rfl
      simp only [Stmt.tree, NodeTree.nodes, NodeTree.nodesOfAll, List.append_nil, Stmt.leaves,
        List.flatMap_singleton, ← nodes]
      rw [Node.identifiers_cons rfl, Node.identifiers_cons rfl]
      exact congrArg Node.identifiers (List.append_nil _).symm
  | context, .letDecl decl => by
      simp only [Stmt.tree, NodeTree.nodes, NodeTree.nodesOfAll, List.append_nil, Stmt.leaves,
        List.flatMap_singleton, ← LetDecl.identifiers_tree context]
      rw [Node.identifiers_cons rfl]
  | context, .block statements span => by
      simp only [Stmt.tree, NodeTree.nodes, NodeTree.nodesOfAll, List.append_nil, Stmt.leaves]
      rw [Node.identifiers_cons rfl, Node.identifiers_cons rfl,
        Stmt.identifiers_trees returnType context [] statements]
  | context, .returning value span => by
      have nodes := Leaf.identifiers_value ⟨context, .returning value returnType⟩ rfl
      simp only [Stmt.tree, NodeTree.nodes, NodeTree.nodesOfAll, List.append_nil, Stmt.leaves,
        List.flatMap_singleton, ← nodes]
      rw [Node.identifiers_cons rfl, Node.identifiers_cons rfl]
      rfl

theorem Stmt.identifiers_trees (returnType : WrittenType) (outer : Context) :
    (locals : List Declaration) → (statements : List Stmt) →
      Node.identifiers (NodeTree.nodesOfAll (Stmt.trees statements)) =
        ((Stmt.leavesOfAll outer returnType locals statements).flatMap Leaf.occurrences).map
          Occurrence.node
  | _, [] => rfl
  | locals, first :: rest => by
      rw [Stmt.trees, NodeTree.nodesOfAll, Node.identifiers_append, Stmt.leavesOfAll,
        List.flatMap_append, List.map_append, first.identifiers_tree returnType,
        Stmt.identifiers_trees returnType outer _ rest]

end

theorem Parameter.identifiers_trees (parameters : List Parameter) :
    Node.identifiers (NodeTree.nodesOfAll (parameters.map Parameter.tree)) = [] := by
  induction parameters with
  | nil => rfl
  | cons first rest ih =>
      rw [List.map_cons, NodeTree.nodesOfAll, Node.identifiers_append, ih]
      rfl

theorem FunDecl.identifiers_tree (context : Context) (decl : FunDecl) :
    Node.identifiers decl.tree.nodes =
      ((decl.leaves context).flatMap Leaf.occurrences).map Occurrence.node := by
  simp only [FunDecl.tree, WrittenType.tree, NodeTree.nodes, NodeTree.nodesOfAll_append,
    NodeTree.nodesOfAll, List.append_nil, List.singleton_append]
  rw [Node.identifiers_cons rfl, Node.identifiers_append, Parameter.identifiers_trees,
    Node.identifiers_cons rfl, Node.identifiers_cons rfl, List.nil_append, FunDecl.leaves,
    ← Stmt.identifiers_trees]

theorem Decl.identifiers_trees (functions : List Declaration) :
    (globals : List Declaration) → (declarations : List Decl) →
      Node.identifiers (NodeTree.nodesOfAll (declarations.map Decl.tree)) =
        ((Decl.leavesOfAll functions globals declarations).flatMap Leaf.occurrences).map
          Occurrence.node
  | _, [] => rfl
  | globals, .funDecl decl :: rest => by
      rw [List.map_cons, NodeTree.nodesOfAll, Node.identifiers_append,
        Decl.identifiers_trees functions globals rest, Decl.leavesOfAll, List.flatMap_append,
        List.map_append, ← FunDecl.identifiers_tree]
      simp only [Decl.tree, NodeTree.nodes, NodeTree.nodesOfAll, List.append_nil]
      rw [Node.identifiers_cons rfl]
  | globals, .letDecl decl :: rest => by
      rw [List.map_cons, NodeTree.nodesOfAll, Node.identifiers_append,
        Decl.identifiers_trees functions _ rest, Decl.leavesOfAll, List.flatMap_cons,
        List.map_append, ← LetDecl.identifiers_tree]
      simp only [Decl.tree, NodeTree.nodes, NodeTree.nodesOfAll, List.append_nil]
      rw [Node.identifiers_cons rfl]

/-- The identifiers in the leaves of a program are all identifiers of its tree, in order. -/
theorem Program.map_node_occurrences (program : Program) :
    program.occurrences.map Occurrence.node = Node.identifiers program.tree.nodes := by
  rw [Program.tree, NodeTree.nodes, Node.identifiers_cons rfl, Program.occurrences, Program.leaves,
    ← Decl.identifiers_trees]

mutual

theorem Expr.exists_of_mem_symbols (context : Context) {id : SymbolId} : (use : Use) →
    (value : Expr) → id ∈ value.symbols →
      ∃ occurrence ∈ value.occurrences context use, occurrence.symbol = some id
  | _, .binary op left right span type, member => by
      rcases List.mem_append.mp member with member | member
      · rcases left.exists_of_mem_symbols context .value member with ⟨occurrence, found, own⟩
        exact ⟨occurrence, List.mem_append_left _ found, own⟩
      · rcases right.exists_of_mem_symbols context .value member with ⟨occurrence, found, own⟩
        exact ⟨occurrence, List.mem_append_right _ found, own⟩
  | _, .unary op operand span type, member => operand.exists_of_mem_symbols context .value member
  | _, .call callee arguments span type, member => by
      rcases List.mem_append.mp member with member | member
      · rcases callee.exists_of_mem_symbols context .callee member with ⟨occurrence, found, own⟩
        exact ⟨occurrence, List.mem_append_left _ found, own⟩
      · rcases Expr.exists_of_mem_symbolsOfAll context arguments member with
          ⟨occurrence, found, own⟩
        exact ⟨occurrence, List.mem_append_right _ found, own⟩
  | _, .grouping inner span type, member => inner.exists_of_mem_symbols context .value member
  | _, .literal value span type, member => by cases member
  | use, .identifier name symbol type, member =>
      ⟨⟨name, symbol, use, context⟩, List.mem_cons_self, Option.mem_toList.mp member⟩

theorem Expr.exists_of_mem_symbolsOfAll (context : Context) {id : SymbolId} :
    (values : List Expr) → id ∈ Expr.symbolsOfAll values →
      ∃ occurrence ∈ Expr.occurrencesOfAll context values, occurrence.symbol = some id
  | [], member => by cases member
  | first :: rest, member => by
      rcases List.mem_append.mp member with member | member
      · rcases first.exists_of_mem_symbols context .value member with ⟨occurrence, found, own⟩
        exact ⟨occurrence, List.mem_append_left _ found, own⟩
      · rcases Expr.exists_of_mem_symbolsOfAll context rest member with ⟨occurrence, found, own⟩
        exact ⟨occurrence, List.mem_append_right _ found, own⟩

end

/-- A symbol is that of a declaration, or of an identifier in a leaf. -/
def Leaf.Cover (leaves : List Leaf) (declarations : List Declaration) (id : SymbolId) : Prop :=
  (∃ leaf ∈ leaves, ∃ occurrence ∈ leaf.occurrences, occurrence.symbol = some id) ∨
    ∃ declaration ∈ declarations, declaration.symbol = some id

namespace Leaf.Cover

variable {leaves others : List Leaf} {declarations more : List Declaration} {id : SymbolId}

theorem mono (covered : Cover leaves declarations id) (leavesSubset : leaves ⊆ others)
    (declarationsSubset : declarations ⊆ more) : Cover others more id := by
  rcases covered with ⟨leaf, member, found⟩ | ⟨declaration, member, own⟩
  · exact .inl ⟨leaf, leavesSubset member, found⟩
  · exact .inr ⟨declaration, declarationsSubset member, own⟩

theorem append_left (covered : Cover leaves declarations id) :
    Cover (leaves ++ others) (declarations ++ more) id :=
  covered.mono (List.subset_append_left _ _) (List.subset_append_left _ _)

theorem append_right (covered : Cover others more id) :
    Cover (leaves ++ others) (declarations ++ more) id :=
  covered.mono (List.subset_append_right _ _) (List.subset_append_right _ _)

theorem of_value {leaf : Leaf} {value : Option Expr} (value_eq : leaf.statement.value? = value)
    (member : id ∈ Expr.symbolsOfOption value) : Cover [leaf] declarations id := by
  cases value with
  | none => cases member
  | some value =>
      rcases value.exists_of_mem_symbols leaf.context .value member with ⟨occurrence, found, own⟩
      refine .inl ⟨leaf, List.mem_cons_self, occurrence, ?_, own⟩
      simpa only [Leaf.occurrences, value_eq, Option.toList_some, List.flatMap_singleton] using found

end Leaf.Cover

theorem LetDecl.cover_of_mem_symbols (kind : SymbolKind) (context : Context) {id : SymbolId}
    (decl : LetDecl) (member : id ∈ decl.symbols) :
    Leaf.Cover [⟨context, .letDecl decl⟩] [decl.declaration kind] id := by
  rcases List.mem_append.mp member with member | member
  · exact .inr ⟨decl.declaration kind, List.mem_cons_self, Option.mem_toList.mp member⟩
  · exact .of_value rfl member

mutual

theorem Stmt.cover_of_mem_symbols (returnType : WrittenType) {id : SymbolId} :
    (context : Context) → (statement : Stmt) → id ∈ statement.symbols →
      Leaf.Cover (statement.leaves context returnType) statement.declarations id
  | _, .expression _ _, member => .of_value rfl member
  | context, .letDecl decl, member => decl.cover_of_mem_symbols .localVariable context member
  | context, .block statements _, member =>
      Stmt.cover_of_mem_symbolsOfAll returnType context [] statements member
  | _, .returning _ _, member => .of_value rfl member

theorem Stmt.cover_of_mem_symbolsOfAll (returnType : WrittenType) {id : SymbolId}
    (outer : Context) : (locals : List Declaration) → (statements : List Stmt) →
      id ∈ Stmt.symbolsOfAll statements →
        Leaf.Cover (Stmt.leavesOfAll outer returnType locals statements)
          (Stmt.declarationsOfAll statements) id
  | _, [], member => by cases member
  | locals, first :: rest, member => by
      rcases List.mem_append.mp member with member | member
      · exact (first.cover_of_mem_symbols returnType _ member).append_left
      · exact (Stmt.cover_of_mem_symbolsOfAll returnType outer _ rest member).append_right

end

theorem FunDecl.cover_of_mem_symbols (context : Context) {id : SymbolId} (decl : FunDecl)
    (member : id ∈ decl.symbols) :
    Leaf.Cover (decl.leaves context) (decl.declaration :: decl.declarations) id := by
  rw [FunDecl.symbols, List.append_assoc] at member
  rcases List.mem_append.mp member with member | member
  · exact .inr ⟨decl.declaration, List.mem_cons_self, Option.mem_toList.mp member⟩
  · rcases List.mem_append.mp member with member | member
    · rcases List.mem_flatMap.mp member with ⟨parameter, parameterMem, own⟩
      refine .inr ⟨parameter.declaration, ?_, Option.mem_toList.mp own⟩
      exact List.mem_cons_of_mem _
        (List.mem_append_left _ (List.mem_map_of_mem parameterMem))
    · have body := Stmt.cover_of_mem_symbolsOfAll decl.returnType
        (context.enter (.parameters (decl.parameters.map Parameter.declaration))) []
        decl.body.statements member
      apply body.mono (List.Subset.refl _)
      exact List.subset_cons_of_subset _ (List.subset_append_right _ _)

/-- The declarations in a declaration, its own one first. -/
def Decl.typings : Decl → List Declaration
  | .funDecl decl => decl.declaration :: decl.declarations
  | .letDecl decl => [decl.declaration .globalVariable]

theorem Decl.cover_of_mem_symbols (functions : List Declaration) {id : SymbolId} :
    (globals : List Declaration) → (declarations : List Decl) →
      id ∈ declarations.flatMap Decl.symbols →
        Leaf.Cover (Decl.leavesOfAll functions globals declarations)
          (declarations.flatMap Decl.typings) id
  | _, [], member => by cases member
  | globals, .funDecl decl :: rest, member => by
      rw [List.flatMap_cons, List.mem_append] at member
      rcases member with member | member
      · exact (decl.cover_of_mem_symbols _ member).append_left
      · exact (Decl.cover_of_mem_symbols functions globals rest member).append_right
  | globals, .letDecl decl :: rest, member => by
      rw [List.flatMap_cons, List.mem_append] at member
      rcases member with member | member
      · exact (decl.cover_of_mem_symbols .globalVariable _ member).append_left
      · have others := Decl.cover_of_mem_symbols functions
          (globals ++ [decl.declaration .globalVariable]) rest member
        exact others.mono (List.subset_cons_self _ _) (List.subset_cons_self _ _)

/-- The order of symbols and the order of the text list the same declarations. -/
theorem Program.allDeclarations_perm (program : Program) :
    program.allDeclarations.Perm (program.declarations.flatMap Decl.typings) := by
  have typings_eq : Decl.typings = fun decl =>
      (decl.function?.map FunDecl.declaration).toList ++ decl.declarations := by
    funext decl
    cases decl <;> rfl
  have functions_eq : program.functions.map FunDecl.declaration =
      program.declarations.flatMap fun decl =>
        (decl.function?.map FunDecl.declaration).toList := by
    rw [Program.functions, List.map_filterMap, List.filterMap_eq_flatMap_toList]
  rw [Program.allDeclarations, typings_eq, functions_eq]
  exact List.flatMap_append_perm _ _ _

/-- The arena knows every symbol of a program that was resolved with it. -/
theorem Program.lt_size_of_mem_symbols {program : Program} {base arena : Arena}
    (records : base.Records program.allDeclarations arena)
    (bound : ∀ leaf ∈ program.leaves, leaf.IsBound arena) {id : SymbolId}
    (member : id ∈ program.symbols) : id < arena.size := by
  rcases Decl.cover_of_mem_symbols (program.functions.map FunDecl.declaration) []
    program.declarations member with ⟨leaf, leafMem, occurrence, found, own⟩ | ⟨declaration, found, own⟩
  · have isBound := bound leaf leafMem occurrence found
    rw [Occurrence.IsBound, own] at isBound
    generalize occurrence.declaration? = declaration? at isBound
    cases isBound with
    | some means => exact Arena.lt_size_of_get? means.2
  · exact Arena.lt_size_of_get?
      (records.get?_of_symbol (program.allDeclarations_perm.mem_iff.mpr found) own)

end TypedLang
