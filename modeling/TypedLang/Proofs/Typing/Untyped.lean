import TypedLang.Proofs.Scope.Erasure
import TypedLang.Proofs.Typing.Annotations

/-!
# Trees before checking

What tokens spell has no types, and resolution adds none. So the tree that the checker gets has
none, and every type in the tree that it gives is one that it has written.
-/

namespace TypedLang

mutual

theorem Stmt.expressions_leaves (returnType : WrittenType) : (context : Context) →
    (statement : Stmt) →
      (statement.leaves context returnType).flatMap Leaf.expressions = statement.expressions
  | _, .expression value _ => by
      simp only [Stmt.leaves, List.flatMap_singleton, Leaf.expressions, LeafStatement.value?,
        Option.toList_some, Stmt.expressions]
  | _, .letDecl decl => List.flatMap_singleton _ _
  | context, .block statements _ => Stmt.expressions_leavesOfAll returnType context [] statements
  | _, .returning value _ => List.flatMap_singleton _ _

theorem Stmt.expressions_leavesOfAll (returnType : WrittenType) : (outer : Context) →
    (locals : List Declaration) → (statements : List Stmt) →
      (Stmt.leavesOfAll outer returnType locals statements).flatMap Leaf.expressions =
        Stmt.expressionsOfAll statements
  | _, _, [] => rfl
  | outer, locals, first :: rest => by
      rw [Stmt.leavesOfAll, List.flatMap_append, first.expressions_leaves returnType,
        Stmt.expressions_leavesOfAll returnType outer _ rest, Stmt.expressionsOfAll]

end

theorem Decl.expressions_leavesOfAll (functions : List Declaration) :
    (globals : List Declaration) → (declarations : List Decl) →
      (Decl.leavesOfAll functions globals declarations).flatMap Leaf.expressions =
        declarations.flatMap Decl.expressions
  | _, [] => rfl
  | globals, .funDecl decl :: rest => by
      rw [Decl.leavesOfAll, List.flatMap_append, FunDecl.leaves, Stmt.expressions_leavesOfAll,
        Decl.expressions_leavesOfAll functions globals rest]
      rfl
  | globals, .letDecl decl :: rest => by
      rw [Decl.leavesOfAll, List.flatMap_cons, Decl.expressions_leavesOfAll functions _ rest]
      rfl

/-- The expressions of a program are those of its leaves. -/
theorem Program.expressions_leaves (program : Program) :
    program.leaves.flatMap Leaf.expressions = program.expressions :=
  Decl.expressions_leavesOfAll _ [] program.declarations

mutual

theorem Expr.subexpressions_withoutSymbols : (value : Expr) →
    value.withoutSymbols.subexpressions = value.subexpressions.map Expr.withoutSymbols
  | .binary op left right span type => by
      simp only [Expr.withoutSymbols, Expr.subexpressions, List.map_cons, List.map_append,
        left.subexpressions_withoutSymbols, right.subexpressions_withoutSymbols]
  | .unary op operand span type => by
      simp only [Expr.withoutSymbols, Expr.subexpressions, List.map_cons,
        operand.subexpressions_withoutSymbols]
  | .call callee arguments span type => by
      simp only [Expr.withoutSymbols, Expr.subexpressions, List.map_cons, List.map_append,
        callee.subexpressions_withoutSymbols, Expr.subexpressionsOfAll_withoutSymbols arguments]
  | .grouping inner span type => by
      simp only [Expr.withoutSymbols, Expr.subexpressions, List.map_cons,
        inner.subexpressions_withoutSymbols]
  | .literal value span type => rfl
  | .identifier name symbol type => rfl

theorem Expr.subexpressionsOfAll_withoutSymbols : (values : List Expr) →
    Expr.subexpressionsOfAll (Expr.withoutSymbolsOfAll values) =
      (Expr.subexpressionsOfAll values).map Expr.withoutSymbols
  | [] => rfl
  | first :: rest => by
      simp only [Expr.withoutSymbolsOfAll, Expr.subexpressionsOfAll, List.map_append,
        first.subexpressions_withoutSymbols, Expr.subexpressionsOfAll_withoutSymbols rest]

end

theorem Expr.type_withoutSymbols (value : Expr) : value.withoutSymbols.type = value.type := by
  cases value <;> rfl

namespace Leaf

theorem expressions_withoutSymbols (leaf : Leaf) :
    leaf.withoutSymbols.expressions = leaf.expressions.map Expr.withoutSymbols := by
  simp only [expressions, withoutSymbols, LeafStatement.value?_withoutSymbols]
  cases leaf.statement.value? with
  | none => rfl
  | some value =>
      simp only [Option.map_some, Option.toList_some, List.flatMap_singleton,
        value.subexpressions_withoutSymbols]

theorem isUntyped_withoutSymbols (leaf : Leaf) :
    leaf.withoutSymbols.IsUntyped ↔ leaf.IsUntyped := by
  simp only [IsUntyped, expressions_withoutSymbols, List.forall_mem_map, Expr.type_withoutSymbols]

end Leaf

theorem Program.leaves_isUntyped_resolve {program : Program} (arena : Arena)
    (untyped : ∀ leaf ∈ program.leaves, leaf.IsUntyped) :
    ∀ leaf ∈ (program.resolve arena).program.leaves, leaf.IsUntyped := by
  intro leaf leafMem
  have member := List.mem_map_of_mem (f := Leaf.withoutSymbols) leafMem
  rw [← Program.leaves_withoutSymbols, program.withoutSymbols_resolve,
    Program.leaves_withoutSymbols] at member
  rcases List.mem_map.mp member with ⟨origin, originMem, same⟩
  rw [← leaf.isUntyped_withoutSymbols, ← same, origin.isUntyped_withoutSymbols]
  exact untyped origin originMem

theorem Expr.Spelled.type_eq_none {level : Nat} {tokens : List Token} {value : Expr}
    (spelled : Expr.Spelled level tokens value) : value.type = none := by
  cases spelled <;> rfl

/-- The leaves that the parser gives have no types, in a complete tree and in a partial one. -/
theorem Parsed.leaves_isUntyped (source : SourceId) (tokens : List Token) :
    ∀ leaf ∈ (ofTokens source tokens).program.leaves, leaf.IsUntyped := by
  intro leaf leafMem node member
  have nodeMem : node ∈ (ofTokens source tokens).program.expressions := by
    rw [← Program.expressions_leaves]
    exact List.mem_flatMap.mpr ⟨leaf, leafMem, member⟩
  rcases expressions_spelled source tokens node nodeMem with ⟨_, _, spelled⟩
  exact spelled.type_eq_none

end TypedLang
