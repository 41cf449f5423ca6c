import TypedLang.Program.Visitor
import TypedLang.Proofs.Parsing.Extents

/-!
# Preorder

A part of a program has parts of its own right below it. Parts are listed in preorder if each one
comes before all that is below it, and that before the next part. A program has only one such
list, and it tells the nodes of the tree of the program. If spans nest, their starts ascend in this
order.
-/

namespace TypedLang

namespace Part

/-- The parts right below a part, in the order of the source. -/
def children : Part → List Part
  | program whole => whole.declarations.map declaration
  | declaration (.funDecl decl) => [funDecl decl]
  | declaration (.letDecl decl) => [letDecl decl]
  | statement (.expression value span) => [expressionStatement value span]
  | statement (.letDecl decl) => [letDecl decl]
  | statement (.block statements span) => [block ⟨statements, span⟩]
  | statement (.returning value span) => [returning value span]
  | expressionStatement value _ => [expression value]
  | letDecl decl => type decl.type :: decl.initializer.toList.map expression
  | funDecl decl => decl.parameters.map parameter ++ [type decl.returnType, block decl.body]
  | parameter declared => [type declared.type]
  | block body => body.statements.map statement
  | returning value _ => value.toList.map expression
  | expression (.binary op left right span written) => [binary op left right span written]
  | expression (.unary op operand span written) => [unary op operand span written]
  | expression (.call callee arguments span written) => [call callee arguments span written]
  | expression (.grouping inner span written) => [grouping inner span written]
  | expression (.literal value span written) => [literal value span written]
  | expression (.identifier name symbol written) => [identifier name symbol written]
  | binary _ left right _ _ => [expression left, expression right]
  | unary _ operand _ _ => [expression operand]
  | call callee arguments _ _ => expression callee :: arguments.map expression
  | grouping inner _ _ => [expression inner]
  | literal _ _ _ => []
  | identifier _ _ _ => []
  | type _ => []

/-- Some parts, each one followed by all parts below it. -/
inductive Preorder : List Part → List Part → Prop where
  | nil : Preorder [] []
  | cons {part : Part} {others below later : List Part} :
      Preorder part.children below → Preorder others later →
      Preorder (part :: others) (part :: (below ++ later))

namespace Preorder

variable {parts others listed more : List Part}

theorem append (first : Preorder parts listed) (rest : Preorder others more) :
    Preorder (parts ++ others) (listed ++ more) := by
  induction first with
  | nil => exact rest
  | @cons part _ below later inside _ _ ih =>
      rw [List.cons_append, List.cons_append, List.append_assoc]
      exact .cons inside ih

theorem of_append (ordered : Preorder (parts ++ others) listed) :
    ∃ front back, Preorder parts front ∧ Preorder others back ∧ listed = front ++ back := by
  induction parts generalizing listed with
  | nil => exact ⟨[], listed, .nil, ordered, rfl⟩
  | cons part parts ih =>
      cases ordered with
      | cons inside rest =>
          obtain ⟨front, back, orderedFront, orderedBack, rfl⟩ := ih rest
          exact ⟨_, back, .cons inside orderedFront, orderedBack, by simp⟩

theorem unique (first : Preorder parts listed) (second : Preorder parts more) : listed = more := by
  induction first generalizing more with
  | nil =>
      cases second
      rfl
  | cons _ _ belowEq laterEq =>
      cases second with
      | cons inside behind => rw [belowEq inside, laterEq behind]

/-- All that is below a listed part stands right behind it. -/
theorem behind (ordered : Preorder parts listed) {part : Part} (member : part ∈ listed) :
    ∃ below, Preorder part.children below ∧ part :: below <:+: listed := by
  induction ordered with
  | nil => cases member
  | @cons first _ below later inside _ inBelow inLater =>
      rcases List.mem_cons.mp member with rfl | member
      · exact ⟨below, inside, [], later, rfl⟩
      rcases List.mem_append.mp member with member | member
      · obtain ⟨own, ordered, stretch⟩ := inBelow member
        have wider : below <:+: first :: (below ++ later) := ⟨[first], later, by simp⟩
        exact ⟨own, ordered, stretch.trans wider⟩
      · obtain ⟨own, ordered, stretch⟩ := inLater member
        have wider : later <:+: first :: (below ++ later) := ⟨first :: below, [], by simp⟩
        exact ⟨own, ordered, stretch.trans wider⟩

end Preorder

/-- The tree of a part. -/
def tree : Part → NodeTree
  | program whole => whole.tree
  | declaration decl => decl.tree
  | statement stmt => stmt.tree
  | expressionStatement value span => .mk ⟨.expressionStatement, span, .none⟩ [value.tree]
  | letDecl decl => decl.tree
  | funDecl decl => decl.tree
  | parameter declared => declared.tree
  | block body => .mk ⟨.block, body.span, .none⟩ (Stmt.trees body.statements)
  | returning value span => .mk ⟨.returning, span, .none⟩ (value.toList.map Expr.tree)
  | expression value => value.tree
  | binary op left right span _ =>
      .mk ⟨op.nodeKind, span, .binaryOp op⟩ [left.tree, right.tree]
  | unary op operand span _ => .mk ⟨.unary, span, .unaryOp op⟩ [operand.tree]
  | call callee arguments span _ =>
      .mk ⟨.call, span, .none⟩ (callee.tree :: Expr.trees arguments)
  | grouping inner span _ => .mk ⟨.grouping, span, .none⟩ [inner.tree]
  | literal _ span _ => .mk ⟨.literal, span, .none⟩ []
  | identifier name _ _ => .mk ⟨.identifier, name.span, .name name.key⟩ []
  | type written => written.tree

/-- The trees right below a part are those of the parts right below it. -/
theorem tree_eq (part : Part) : part.tree = .mk part.node (part.children.map tree) := by
  cases part with
  | declaration decl => cases decl <;> rfl
  | statement stmt => cases stmt <;> rfl
  | expression value => cases value <;> rfl
  | program whole => simp [tree, Program.tree, node, children, Function.comp_def]
  | letDecl decl => simp [tree, LetDecl.tree, node, children, Function.comp_def]
  | funDecl decl => simp [tree, FunDecl.tree, node, children, Function.comp_def]
  | block body => simp [tree, node, children, Function.comp_def, Stmt.trees_eq_map]
  | returning value span => simp [tree, node, children, Function.comp_def]
  | call callee arguments span written =>
      simp [tree, node, children, Function.comp_def, Expr.trees_eq_map]
  | _ => rfl

/-- Parts in preorder have the nodes of their trees. -/
theorem Preorder.map_node {parts listed : List Part} (ordered : Preorder parts listed) :
    listed.map node = NodeTree.nodesOfAll (parts.map tree) := by
  induction ordered with
  | nil => rfl
  | @cons part others below later _ _ belowNodes laterNodes =>
      rw [List.map_cons, List.map_append, belowNodes, laterNodes, List.map_cons, tree_eq part,
        NodeTree.nodesOfAll, NodeTree.nodes, List.cons_append]

end Part

namespace NodeTree

theorem nodesOfAll_eq_flatMap (trees : List NodeTree) :
    nodesOfAll trees = trees.flatMap nodes := by
  induction trees with
  | nil => rfl
  | cons tree trees ih => rw [nodesOfAll, ih, List.flatMap_cons]

namespace Nested

variable {tree : NodeTree}

/-- All spans in a tree lie inside the span of the root. -/
theorem within_root (nested : tree.Nested) :
    ∀ node ∈ tree.nodes, tree.root.span.start ≤ node.span.start ∧
      node.span.stop ≤ tree.root.span.stop := by
  induction nested with
  | @intro node children inside _ _ ih =>
      rw [nodes, List.forall_mem_cons, nodesOfAll_eq_flatMap]
      refine ⟨⟨Nat.le_refl _, Nat.le_refl _⟩, fun other member => ?_⟩
      rcases List.mem_flatMap.mp member with ⟨child, childMem, member⟩
      have outer := inside child childMem
      have inner := ih child childMem other member
      exact ⟨Nat.le_trans outer.1 inner.1, Nat.le_trans inner.2 outer.2⟩

/-- If spans nest, the starts of the nodes never descend. -/
theorem starts_ascend (nested : tree.Nested) :
    tree.nodes.Pairwise fun node later => node.span.start ≤ later.span.start := by
  induction nested with
  | @intro node children inside apart nested ih =>
      have whole : (mk node children).Nested := .intro inside apart nested
      rw [nodes, List.pairwise_cons]
      refine ⟨fun later member => (whole.within_root later (List.mem_cons_of_mem _ member)).1, ?_⟩
      rw [nodesOfAll_eq_flatMap, List.pairwise_flatMap]
      refine ⟨ih, apart.imp_of_mem ?_⟩
      intro child next childMem nextMem before node member later laterMem
      have first := ((nested child childMem).within_root node member).2
      have second := ((nested next nextMem).within_root later laterMem).1
      have ordered := node.span.start_le_stop
      omega

end Nested

end NodeTree

end TypedLang
