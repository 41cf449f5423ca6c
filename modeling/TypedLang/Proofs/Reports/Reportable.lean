import TypedLang.Proofs.Reports.Errors
import TypedLang.Proofs.Reports.Places
import TypedLang.Proofs.Typing.Leaves

/-!
# Errors that can be reported

In a program whose marks stand apart, the report about every violation of a rule can be built: an
error of types points to a part of a value and to a header, an error of names to one place or to the
names of two declarations.
-/

namespace TypedLang

/-- An error points to one of some nodes, and apart from that only to functions of a context. -/
structure TypeError.PointsTo (source : SourceId) (context : Context) (nodes : List Node)
    (error : TypeError) : Prop where
  source : error.source = source
  place : ∃ node ∈ nodes, node.span = error.span
  origin : ∀ origin, error.origin = some origin → ∃ declaration ∈ context.declarations,
    ∃ signature, declaration.signature = some signature ∧ signature.Mentions origin.1

namespace TypeError.PointsTo

variable {source : SourceId} {context : Context} {nodes others : List Node} {error : TypeError}

theorem mono (points : error.PointsTo source context nodes) (subset : nodes ⊆ others) :
    error.PointsTo source context others := by
  rcases points.place with ⟨node, member, span_eq⟩
  exact ⟨points.source, ⟨node, subset member, span_eq⟩, points.origin⟩

theorem single {span : Span} {cause : TypeErrorCause}
    (place : ∃ node ∈ nodes, node.span = span)
    (none : (TypeError.mk source span cause).origin = none) :
    (TypeError.mk source span cause).PointsTo source context nodes :=
  ⟨rfl, place, by simp [none]⟩

end TypeError.PointsTo

theorem Context.Callee.exists_declaration {context : Context} {callee : Expr} {signature : Signature}
    (isCallee : context.Callee callee signature) :
    ∃ declaration ∈ context.declarations, declaration.signature = some signature := by
  rcases isCallee with ⟨name, symbol, type, declaration, rfl, means, isFunction⟩
  exact ⟨declaration, Context.mem_declarations_of_declaration? means, isFunction⟩

theorem NodeTree.nodes_subset_nodesOfAll {tree : NodeTree} {trees : List NodeTree}
    (member : tree ∈ trees) : tree.nodes ⊆ nodesOfAll trees := by
  induction trees with
  | nil => cases member
  | cons first rest ih =>
      rcases List.mem_cons.mp member with rfl | member
      · exact List.subset_append_left _ _
      · exact List.subset_append_of_subset_right _ (ih member)

theorem NodeTree.nodesOfAll_subset_nodes (role node : Node) (trees : List NodeTree) :
    nodesOfAll trees ⊆ (mk role [mk node trees]).nodes := by
  intro inner member
  exact List.mem_cons_of_mem _ (List.mem_append_left _ (List.mem_cons_of_mem _ member))

theorem NodeTree.nodes_subset_of_part (role node : Node) {tree : NodeTree} {trees : List NodeTree}
    (member : tree ∈ trees) : tree.nodes ⊆ (mk role [mk node trees]).nodes := by
  apply List.Subset.trans (nodes_subset_nodesOfAll member)
  apply nodesOfAll_subset_nodes

theorem WrittenType.FirstMismatch.pointsTo {source : SourceId} {context : Context}
    {parameters : List WrittenType} {arguments : List Expr} {types : List Ty} {error : TypeError}
    (mismatch : WrittenType.FirstMismatch source parameters arguments types error)
    {declaration : Declaration} {signature : Signature} (member : declaration ∈ context.declarations)
    (signed : declaration.signature = some signature)
    (subset : parameters ⊆ signature.parameters) :
    error.PointsTo source context (NodeTree.nodesOfAll (Expr.trees arguments)) := by
  induction mismatch with
  | @head parameter parameters argument arguments type types _ =>
      rcases argument.exists_node with ⟨node, nodeMem, span_eq⟩
      refine ⟨rfl, ⟨node, List.mem_append_left _ nodeMem, span_eq⟩, ?_⟩
      intro origin origin_eq
      cases origin_eq
      exact ⟨declaration, member, signature, signed,
        .inr ⟨parameter, subset List.mem_cons_self, rfl⟩⟩
  | tail _ _ ih =>
      exact (ih fun _ parameterMem => subset (List.mem_cons_of_mem _ parameterMem)).mono
        (List.subset_append_right _ _)

mutual

theorem Expr.pointsTo_of_firstViolation {source : SourceId} {context : Context} :
    (value : Expr) → {error : TypeError} → value.FirstViolation source context error →
      error.PointsTo source context value.tree.nodes
  | .binary op left right span type, _, violation => by
      have own := Expr.exists_node (.binary op left right span type)
      cases violation with
      | left leftError =>
          apply (left.pointsTo_of_firstViolation leftError).mono
          exact NodeTree.nodes_subset_of_part _ _ List.mem_cons_self
      | right _ rightError =>
          apply (right.pointsTo_of_firstViolation rightError).mono
          exact NodeTree.nodes_subset_of_part _ _ (List.mem_cons_of_mem _ List.mem_cons_self)
      | binary _ _ _ => exact .single own rfl
  | .unary op operand span type, _, violation => by
      have own := Expr.exists_node (.unary op operand span type)
      cases violation with
      | operand operandError =>
          apply (operand.pointsTo_of_firstViolation operandError).mono
          exact NodeTree.nodes_subset_of_part _ _ List.mem_cons_self
      | unary _ _ => exact .single own rfl
  | .call callee arguments span type, _, violation => by
      have own := Expr.exists_node (.call callee arguments span type)
      have inside : NodeTree.nodesOfAll (Expr.trees arguments) ⊆
          (Expr.call callee arguments span type).tree.nodes := by
        apply List.Subset.trans (List.subset_append_right callee.tree.nodes _)
        exact NodeTree.nodesOfAll_subset_nodes _ _ (callee.tree :: Expr.trees arguments)
      cases violation with
      | argument _ argumentError =>
          exact (Expr.pointsTo_of_firstViolations arguments argumentError).mono inside
      | arity isCallee _ _ =>
          rcases isCallee.exists_declaration with ⟨declaration, member, signed⟩
          refine ⟨rfl, own, ?_⟩
          intro origin origin_eq
          cases origin_eq
          exact ⟨declaration, member, _, signed, .inl rfl⟩
      | mismatch isCallee _ _ mismatch =>
          rcases isCallee.exists_declaration with ⟨declaration, member, signed⟩
          exact (mismatch.pointsTo member signed (List.Subset.refl _)).mono inside
  | .grouping inner span type, _, violation => by
      cases violation with
      | inner innerError =>
          apply (inner.pointsTo_of_firstViolation innerError).mono
          exact NodeTree.nodes_subset_of_part _ _ List.mem_cons_self
  | .literal value span type, _, violation => by
      cases violation with
      | literal _ => exact .single (Expr.exists_node (.literal value span type)) rfl
  | .identifier name symbol type, _, violation => by cases violation

theorem Expr.pointsTo_of_firstViolations {source : SourceId} {context : Context} :
    (values : List Expr) → {error : TypeError} → Expr.FirstViolations source context values error →
      error.PointsTo source context (NodeTree.nodesOfAll (Expr.trees values))
  | [], _, violations => by cases violations
  | first :: rest, _, violations => by
      cases violations with
      | head firstError =>
          exact (first.pointsTo_of_firstViolation firstError).mono (List.subset_append_left _ _)
      | tail _ restError =>
          exact (Expr.pointsTo_of_firstViolations rest restError).mono
            (List.subset_append_right _ _)

end

/-- An error is in a value, and the declaration that it refers to is in a header. -/
structure TypeError.Placed (source : SourceId) (marks : List Mark) (error : TypeError) : Prop where
  source : error.source = source
  place : Mark.InValue marks error.span
  origin : ∀ origin, error.origin = some origin → Mark.InHeader marks origin.1

/-- In marks that stand apart, so do the two places of an error. -/
theorem TypeError.Placed.reportable {source : SourceId} {marks : List Mark} {error : TypeError}
    (placed : error.Placed source marks) {registry : Registry} (known : registry.contains source)
    (ordered : marks.Pairwise Mark.Before) : error.Reportable registry where
  source := placed.source ▸ known
  apart := fun origin origin_eq => (placed.origin origin origin_eq).apart ordered placed.place

/-- The places of a violation in a leaf are in marks. -/
theorem Leaf.placed_of_firstViolation {source : SourceId} {program : Program} {leaf : Leaf}
    (marked : leaf.IsMarked program.marks (program.functions.map FunDecl.declaration))
    {error : TypeError} (violation : leaf.FirstViolation source error) :
    error.Placed source program.marks := by
  have inValue : ∀ value, leaf.statement.value? = some value → ∀ node ∈ value.tree.nodes,
      Mark.InValue program.marks node.span := fun value value_eq node member =>
    ⟨_, marked.value value value_eq, rfl, List.mem_map_of_mem member⟩
  cases violation with
  | @value _ value _ value_eq violation =>
      have points := value.pointsTo_of_firstViolation violation
      rcases points.place with ⟨node, nodeMem, span_eq⟩
      refine ⟨points.source, span_eq ▸ inValue value value_eq node nodeMem, ?_⟩
      intro origin origin_eq
      rcases points.origin origin origin_eq with ⟨declaration, member, signature, signed, mentions⟩
      have isFunction := marked.calls declaration member (by simp [signed])
      rcases List.mem_map.mp isFunction with ⟨decl, declMem, rfl⟩
      cases signed
      exact (FunDecl.inHeader_of_mentions mentions).mono
        (Program.marks_sublist_of_mem_functions declMem).subset
  | @initializer context decl value type value_eq _ _ =>
      rcases value.exists_node with ⟨node, nodeMem, span_eq⟩
      refine ⟨rfl, span_eq ▸ inValue value value_eq node nodeMem, ?_⟩
      intro origin origin_eq
      cases origin_eq
      exact marked.written decl.type rfl
  | @returning context value returnType type _ _ =>
      rcases value.exists_node with ⟨node, nodeMem, span_eq⟩
      refine ⟨rfl, span_eq ▸ inValue value rfl node nodeMem, ?_⟩
      intro origin origin_eq
      cases origin_eq
      exact marked.written returnType rfl

namespace Declaration

/-- The names of two declarations do not touch. -/
def NamesApart (declaration other : Declaration) : Prop :=
  declaration.name.span.intersects other.name.span = false

theorem repetitions_namesApart : (before declarations : List Declaration) →
    (before ++ declarations).Pairwise NamesApart →
      ∀ repetition ∈ repetitions before declarations, NamesApart repetition.1 repetition.2
  | _, [], _ => by simp [repetitions]
  | before, declaration :: rest, apart => by
      intro repetition member
      rcases List.mem_append.mp member with member | member
      · rcases Option.map_eq_some_iff.mp (Option.mem_toList.mp member) with ⟨first, found, rfl⟩
        exact (List.pairwise_append.mp apart).2.2 first (List.mem_of_find?_eq_some found) declaration
          List.mem_cons_self
      · refine repetitions_namesApart (before ++ [declaration]) rest ?_ repetition member
        simpa using apart

theorem mem_of_mem_repetitions : (before declarations : List Declaration) →
    ∀ repetition ∈ repetitions before declarations,
      repetition.1 ∈ before ++ declarations ∧ repetition.2 ∈ declarations
  | _, [] => by simp [repetitions]
  | before, declaration :: rest => by
      intro repetition member
      rcases List.mem_append.mp member with member | member
      · rcases Option.map_eq_some_iff.mp (Option.mem_toList.mp member) with ⟨first, found, rfl⟩
        exact ⟨List.mem_append_left _ (List.mem_of_find?_eq_some found), List.mem_cons_self⟩
      · have others := mem_of_mem_repetitions _ rest repetition member
        rw [List.append_assoc, List.singleton_append] at others
        exact ⟨others.1, List.mem_cons_of_mem _ others.2⟩

end Declaration

/-- A global declaration as the rules of visibility see it. -/
def Decl.declaration : Decl → Declaration
  | .funDecl decl => decl.declaration
  | .letDecl decl => decl.declaration .globalVariable

theorem Program.globalDeclarations_perm (program : Program) :
    program.globalDeclarations.Perm (program.declarations.map Decl.declaration) := by
  rw [globalDeclarations, functions, globals]
  generalize program.declarations = declarations
  induction declarations with
  | nil => exact .nil
  | cons decl rest ih =>
      cases decl with
      | funDecl decl => exact ih.cons _
      | letDecl decl => exact List.perm_middle.trans (ih.cons _)

/-- The name of a declaration is in one of the marks. -/
def Declaration.IsMarked (marks : List Mark) (declaration : Declaration) : Prop :=
  ∃ mark ∈ marks, declaration.name.span ∈ mark.spans ∧ declaration.name.key ∈ mark.keys

theorem Declaration.namesApart_of_before {marks later : List Mark} {declaration other : Declaration}
    (marked : declaration.IsMarked marks) (otherMarked : other.IsMarked later)
    (before : ∀ mark ∈ marks, ∀ otherMark ∈ later, mark.Before otherMark) :
    declaration.NamesApart other := by
  rcases marked with ⟨mark, markMem, spanMem, _⟩
  rcases otherMarked with ⟨otherMark, otherMarkMem, otherSpanMem, _⟩
  exact (before mark markMem otherMark otherMarkMem).apart _ spanMem _ otherSpanMem

theorem Decl.declaration_isMarked (decl : Decl) : decl.declaration.IsMarked decl.marks := by
  cases decl with
  | funDecl decl => exact ⟨_, List.mem_cons_self, List.mem_cons_self, List.mem_cons_self⟩
  | letDecl decl => exact ⟨_, List.mem_cons_self, List.mem_cons_self, List.mem_cons_self⟩

theorem Parameter.declaration_isMarked (parameter : Parameter) :
    parameter.declaration.IsMarked [parameter.mark] :=
  ⟨_, List.mem_cons_self, List.mem_cons_self, List.mem_cons_self⟩

section Names

variable {program : Program}

theorem Program.globalDeclarations_namesApart (ordered : program.marks.Pairwise Mark.Before) :
    program.globalDeclarations.Pairwise Declaration.NamesApart := by
  have symm : ∀ {declaration other : Declaration}, declaration.NamesApart other →
      other.NamesApart declaration := by
    intro declaration other apart
    rw [Declaration.NamesApart, Span.intersects_comm]
    exact apart
  rw [program.globalDeclarations_perm.pairwise_iff symm, List.pairwise_map]
  apply (List.pairwise_flatMap.mp ordered).2.imp
  intro decl other before
  exact Declaration.namesApart_of_before decl.declaration_isMarked other.declaration_isMarked before

theorem FunDecl.parameters_namesApart {decl : FunDecl} (ordered : decl.marks.Pairwise Mark.Before) :
    (decl.parameters.map Parameter.declaration).Pairwise Declaration.NamesApart := by
  have parametersOrdered := (List.pairwise_append.mp (List.pairwise_cons.mp ordered).2).1
  rw [List.pairwise_map] at parametersOrdered ⊢
  apply parametersOrdered.imp
  intro parameter other before
  apply Declaration.namesApart_of_before parameter.declaration_isMarked other.declaration_isMarked
  simpa using before

theorem Program.repetitions_namesApart (ordered : program.marks.Pairwise Mark.Before) :
    ∀ repetition ∈ program.repetitions, repetition.1.NamesApart repetition.2 := by
  intro repetition member
  rcases List.mem_append.mp member with member | member
  · exact Declaration.repetitions_namesApart [] _ (program.globalDeclarations_namesApart ordered)
      repetition member
  · rcases List.mem_flatMap.mp member with ⟨decl, declMem, member⟩
    have declOrdered := ordered.sublist (Program.marks_sublist_of_mem_functions declMem)
    exact Declaration.repetitions_namesApart [] _ (FunDecl.parameters_namesApart declOrdered)
      repetition member

theorem Program.globalDeclarations_isMarked :
    ∀ declaration ∈ program.globalDeclarations, declaration.IsMarked program.marks := by
  intro declaration member
  rcases List.mem_map.mp (program.globalDeclarations_perm.mem_iff.mp member) with
    ⟨decl, declMem, rfl⟩
  rcases decl.declaration_isMarked with ⟨mark, markMem, found⟩
  exact ⟨mark, List.mem_flatMap.mpr ⟨decl, declMem, markMem⟩, found⟩

theorem Program.parameters_isMarked {decl : FunDecl} (declMem : decl ∈ program.functions) :
    ∀ declaration ∈ decl.parameters.map Parameter.declaration,
      declaration.IsMarked program.marks := by
  intro declaration member
  rcases List.mem_map.mp member with ⟨parameter, parameterMem, rfl⟩
  rcases parameter.declaration_isMarked with ⟨mark, markMem, found⟩
  cases List.mem_singleton.mp markMem
  refine ⟨parameter.mark, (Program.marks_sublist_of_mem_functions declMem).subset ?_, found⟩
  exact List.mem_cons_of_mem _ (List.mem_append_left _ (List.mem_map_of_mem parameterMem))

theorem Program.repetitions_isMarked : ∀ repetition ∈ program.repetitions,
    repetition.1.IsMarked program.marks ∧ repetition.2.IsMarked program.marks := by
  intro repetition member
  rcases List.mem_append.mp member with member | member
  · have declared := Declaration.mem_of_mem_repetitions _ _ repetition member
    exact ⟨globalDeclarations_isMarked _ declared.1, globalDeclarations_isMarked _ declared.2⟩
  · rcases List.mem_flatMap.mp member with ⟨decl, declMem, member⟩
    have declared := Declaration.mem_of_mem_repetitions _ _ repetition member
    exact ⟨parameters_isMarked declMem _ declared.1, parameters_isMarked declMem _ declared.2⟩

/-- An occurrence of a name in a leaf is in its value. -/
theorem Leaf.exists_value_of_occurrence {leaf : Leaf} {occurrence : Occurrence}
    (member : occurrence ∈ leaf.occurrences) : ∃ value, leaf.statement.value? = some value ∧
      occurrence.name.span ∈ (Mark.ofValue value).spans ∧
      occurrence.name.key ∈ (Mark.ofValue value).keys := by
  rcases List.mem_flatMap.mp member with ⟨value, valueMem, occurrenceMem⟩
  refine ⟨value, Option.mem_toList.mp valueMem, ?_⟩
  have nodeMem : occurrence.node ∈ Node.identifiers value.tree.nodes := by
    rw [value.identifiers_tree leaf.context .value]
    exact List.mem_map_of_mem occurrenceMem
  have nodeMem := (List.mem_filter.mp nodeMem).1
  exact ⟨List.mem_map.mpr ⟨occurrence.node, nodeMem, rfl⟩,
    List.mem_filterMap.mpr ⟨occurrence.node, nodeMem, rfl⟩⟩

mutual

theorem Expr.exists_node_of_mem_callees : (value : Expr) → ∀ callee ∈ value.callees,
    ∃ node ∈ value.tree.nodes, node.span = callee.span
  | .binary op left right span type => by
      intro callee member
      have leftInside : left.tree.nodes ⊆ (Expr.binary op left right span type).tree.nodes :=
        NodeTree.nodes_subset_of_part _ _ List.mem_cons_self
      have rightInside : right.tree.nodes ⊆ (Expr.binary op left right span type).tree.nodes :=
        NodeTree.nodes_subset_of_part _ _ (List.mem_cons_of_mem _ List.mem_cons_self)
      rcases List.mem_append.mp member with member | member
      · rcases left.exists_node_of_mem_callees callee member with ⟨node, nodeMem, span_eq⟩
        exact ⟨node, leftInside nodeMem, span_eq⟩
      · rcases right.exists_node_of_mem_callees callee member with ⟨node, nodeMem, span_eq⟩
        exact ⟨node, rightInside nodeMem, span_eq⟩
  | .unary op operand span type => by
      intro callee member
      rcases operand.exists_node_of_mem_callees callee member with ⟨node, nodeMem, span_eq⟩
      exact ⟨node, NodeTree.nodes_subset_of_part _ _ List.mem_cons_self nodeMem, span_eq⟩
  | .call own arguments span type => by
      intro callee member
      have ownInside : own.tree.nodes ⊆ (Expr.call own arguments span type).tree.nodes :=
        NodeTree.nodes_subset_of_part _ _ List.mem_cons_self
      have inside : NodeTree.nodesOfAll (Expr.trees arguments) ⊆
          (Expr.call own arguments span type).tree.nodes :=
        List.Subset.trans (List.subset_append_right own.tree.nodes _)
          (NodeTree.nodesOfAll_subset_nodes _ _ (own.tree :: Expr.trees arguments))
      rcases List.mem_cons.mp member with callee_eq | member
      · rcases own.exists_node with ⟨node, nodeMem, span_eq⟩
        exact ⟨node, ownInside nodeMem, callee_eq ▸ span_eq⟩
      rcases List.mem_append.mp member with member | member
      · rcases own.exists_node_of_mem_callees callee member with ⟨node, nodeMem, span_eq⟩
        exact ⟨node, ownInside nodeMem, span_eq⟩
      · rcases Expr.exists_node_of_mem_calleesOfAll arguments callee member with
          ⟨node, nodeMem, span_eq⟩
        exact ⟨node, inside nodeMem, span_eq⟩
  | .grouping inner span type => by
      intro callee member
      rcases inner.exists_node_of_mem_callees callee member with ⟨node, nodeMem, span_eq⟩
      exact ⟨node, NodeTree.nodes_subset_of_part _ _ List.mem_cons_self nodeMem, span_eq⟩
  | .literal _ _ _ => by simp [Expr.callees]
  | .identifier _ _ _ => by simp [Expr.callees]

theorem Expr.exists_node_of_mem_calleesOfAll : (values : List Expr) →
    ∀ callee ∈ Expr.calleesOfAll values,
      ∃ node ∈ NodeTree.nodesOfAll (Expr.trees values), node.span = callee.span
  | [] => by simp [Expr.calleesOfAll]
  | first :: rest => by
      intro callee member
      rcases List.mem_append.mp member with member | member
      · rcases first.exists_node_of_mem_callees callee member with ⟨node, nodeMem, span_eq⟩
        exact ⟨node, List.mem_append_left _ nodeMem, span_eq⟩
      · rcases Expr.exists_node_of_mem_calleesOfAll rest callee member with
          ⟨node, nodeMem, span_eq⟩
        exact ⟨node, List.mem_append_right _ nodeMem, span_eq⟩

end

/-- All that an error refers to is in marks: its own place, an earlier one, and its name. -/
structure ResolutionError.Placed (source : SourceId) (marks : List Mark)
    (error : ResolutionError) : Prop where
  source : error.source = source
  place : Mark.Inside marks error.span
  earlier : ∀ earlier, error.cause.earlier? = some earlier → Mark.Inside marks earlier
  name : ∀ key, error.cause.name? = some key → ∃ mark ∈ marks, key ∈ mark.keys
  nameless : error.cause.name? = none → error.code = .kindMismatch

theorem Occurrence.errors_placed {source : SourceId} {marks : List Mark} {occurrence : Occurrence}
    {mark : Mark} (markMem : mark ∈ marks) (spanMem : occurrence.name.span ∈ mark.spans)
    (keyMem : occurrence.name.key ∈ mark.keys) :
    ∀ error ∈ occurrence.errors source, error.Placed source marks := by
  intro error member
  have name : ∀ key, some occurrence.name.key = some key → ∃ mark ∈ marks, key ∈ mark.keys := by
    rintro key ⟨⟩
    exact ⟨mark, markMem, keyMem⟩
  rw [Occurrence.errors] at member
  split at member
  · cases List.mem_singleton.mp member
    exact ⟨rfl, ⟨mark, markMem, spanMem⟩, by simp [ResolutionErrorCause.earlier?], name,
      fun nameless => by cases nameless⟩
  · split at member
    · cases member
    · cases List.mem_singleton.mp member
      exact ⟨rfl, ⟨mark, markMem, spanMem⟩, by simp [ResolutionErrorCause.earlier?], name,
        fun _ => rfl⟩

/-- All that an error of names refers to is in the marks of the program. -/
theorem Program.scopeErrors_placed (program : Program) :
    ∀ error ∈ program.scopeErrors, error.Placed program.source program.marks := by
  intro error member
  rcases List.mem_append.mp member with member | member
  · rcases List.mem_append.mp member with member | member
    · rcases List.mem_flatMap.mp member with ⟨occurrence, occurrenceMem, errorMem⟩
      rcases List.mem_flatMap.mp occurrenceMem with ⟨leaf, leafMem, found⟩
      rcases Leaf.exists_value_of_occurrence found with ⟨value, value_eq, spanMem, keyMem⟩
      exact Occurrence.errors_placed ((program.leaves_isMarked leaf leafMem).value value value_eq)
        spanMem keyMem error errorMem
    · rcases List.mem_map.mp member with ⟨callee, calleeMem, rfl⟩
      rcases List.mem_flatMap.mp (List.mem_filter.mp calleeMem).1 with ⟨leaf, leafMem, found⟩
      rcases List.mem_flatMap.mp found with ⟨value, valueMem, found⟩
      rcases value.exists_node_of_mem_callees callee found with ⟨node, nodeMem, span_eq⟩
      have marked := (program.leaves_isMarked leaf leafMem).value value (Option.mem_toList.mp valueMem)
      refine ⟨rfl, ⟨_, marked, List.mem_map.mpr ⟨node, nodeMem, span_eq⟩⟩, ?_, ?_, fun _ => rfl⟩
      · simp [Expr.callError, ResolutionErrorCause.earlier?]
      · simp [Expr.callError, ResolutionErrorCause.name?]
  · rcases List.mem_map.mp member with ⟨repetition, repetitionMem, rfl⟩
    rcases program.repetitions_isMarked repetition repetitionMem with
      ⟨⟨firstMark, firstMem, firstSpanMem, _⟩, mark, markMem, spanMem, keyMem⟩
    refine ⟨rfl, ⟨mark, markMem, spanMem⟩, ?_, ?_, fun nameless => by cases nameless⟩
    · rintro earlier ⟨⟩
      exact ⟨firstMark, firstMem, firstSpanMem⟩
    · rintro key ⟨⟩
      exact ⟨mark, markMem, keyMem⟩

/-- In marks that stand apart, an error of names is apart from the earlier place it refers to. -/
theorem Program.scopeErrors_apart (ordered : program.marks.Pairwise Mark.Before) :
    ∀ error ∈ program.scopeErrors, ∀ earlier, error.cause.earlier? = some earlier →
      earlier.intersects error.span = false := by
  intro error member earlier earlier_eq
  rcases List.mem_append.mp member with member | member
  · rcases List.mem_append.mp member with member | member
    · rcases List.mem_flatMap.mp member with ⟨occurrence, _, errorMem⟩
      rw [Occurrence.errors] at errorMem
      split at errorMem
      · cases List.mem_singleton.mp errorMem
        cases earlier_eq
      · split at errorMem
        · cases errorMem
        · cases List.mem_singleton.mp errorMem
          cases earlier_eq
    · rcases List.mem_map.mp member with ⟨callee, _, rfl⟩
      cases earlier_eq
  · rcases List.mem_map.mp member with ⟨repetition, repetitionMem, rfl⟩
    cases earlier_eq
    exact program.repetitions_namesApart ordered repetition repetitionMem

/-- In marks that stand apart and whose names are known, all errors of names can be reported. -/
theorem Program.scopeErrors_reportable {registry : Registry} {interner : Interner}
    (known : registry.contains program.source) (ordered : program.marks.Pairwise Mark.Before)
    (keys : ∀ mark ∈ program.marks, ∀ key ∈ mark.keys, key < interner.size) :
    ∀ error ∈ program.scopeErrors, error.Reportable registry interner := by
  intro error member
  have placed := program.scopeErrors_placed error member
  refine ⟨placed.source ▸ known, ?_, Program.scopeErrors_apart ordered error member⟩
  intro key key_eq
  rcases placed.name key key_eq with ⟨mark, markMem, keyMem⟩
  exact keys mark markMem key keyMem

end Names

end TypedLang
