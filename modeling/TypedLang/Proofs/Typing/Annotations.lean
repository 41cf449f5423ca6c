import TypedLang.Proofs.Typing.Leaves

/-!
# Types in checked trees

The checker writes the type of a node as soon as it has found it, before it knows whether the rest
of the statement keeps the rules, and what it has written stays when it gives up. It never has to
take anything back: each type that it writes is the one that the rules give to the node, and a node
gets none before all nodes below it have theirs.
-/

namespace TypedLang

namespace Expr

/-- A node carries no type, or the one that the rules give to it. -/
def IsRight (context : Context) (node : Expr) : Prop :=
  ∀ type, node.type = some type → node.GetsType context type

/-- What checking leaves in an expression, beside what it finds out about it. -/
structure Annotated (source : SourceId) (context : Context) (value : Expr)
    (verdict : Except TypeError Ty) : Prop where
  judged : value.Judged source context verdict
  right : ∀ node ∈ value.subexpressions, node.IsRight context
  complete : verdict.isOk → ∀ node ∈ value.subexpressions, node.type ≠ none

/-- What checking leaves in several expressions, beside what it finds out about them. -/
structure AllAnnotated (source : SourceId) (context : Context) (values : List Expr)
    (verdict : Except TypeError (List Ty)) : Prop where
  judged : AllJudged source context values verdict
  right : ∀ node ∈ subexpressionsOfAll values, node.IsRight context
  complete : verdict.isOk → ∀ node ∈ subexpressionsOfAll values, node.type ≠ none

section Nodes

variable {source : SourceId} {context : Context} {value : Expr} {parts : List Expr}

theorem IsRight.of_untyped {node : Expr} (untyped : node.type = none) : node.IsRight context := by
  intro type type_eq
  rw [untyped] at type_eq
  cases type_eq

theorem IsRight.of_typed {node : Expr} {type : Ty} (typed : node.type = some type)
    (getsType : node.GetsType context type) : node.IsRight context := by
  intro other type_eq
  cases typed.symm.trans type_eq
  exact getsType

/-- A node that violates a rule stays without a type, whatever was written below it. -/
theorem Annotated.of_error {error : TypeError} (split : value.subexpressions = value :: parts)
    (violation : value.FirstViolation source context error) (untyped : value.type = none)
    (right : ∀ node ∈ parts, node.IsRight context) :
    value.Annotated source context (.error error) where
  judged := .error violation
  right := by
    rw [split]
    exact List.forall_mem_cons.mpr ⟨.of_untyped untyped, right⟩
  complete := nofun

/-- A node that keeps the rules gets its type behind all nodes below it. -/
theorem Annotated.of_ok {type : Ty} (split : value.subexpressions = value :: parts)
    (hasType : value.HasType context type) (typed : value.type = some type)
    (right : ∀ node ∈ parts, node.IsRight context) (complete : ∀ node ∈ parts, node.type ≠ none) :
    value.Annotated source context (.ok type) where
  judged := .ok hasType
  right := by
    rw [split]
    exact List.forall_mem_cons.mpr ⟨.of_typed typed (.value hasType), right⟩
  complete := by
    intro _
    rw [split]
    refine List.forall_mem_cons.mpr ⟨?_, complete⟩
    rw [typed]
    exact Option.some_ne_none type

end Nodes

end Expr

theorem Expr.type_withType (value : Expr) (type : Option Ty) :
    (value.withType type).type = type := by
  cases value <;> rfl

namespace Context.Callee

variable {context : Context} {callee : Expr} {signature : Signature}

theorem withType (isCallee : context.Callee callee signature) (type : Option Ty) :
    context.Callee (callee.withType type) signature := by
  rcases isCallee with ⟨name, symbol, _, declaration, rfl, means, isFunction⟩
  exact ⟨name, symbol, type, declaration, rfl, means, isFunction⟩

/-- The type that a callee gets is the right one. -/
theorem right (isCallee : context.Callee callee signature)
    (typed : callee.type = some signature.returnType.type) :
    ∀ node ∈ callee.subexpressions, node.IsRight context := by
  rw [isCallee.subexpressions, List.forall_mem_singleton]
  exact .of_typed typed (.callee isCallee)

theorem complete (isCallee : context.Callee callee signature)
    (typed : callee.type = some signature.returnType.type) :
    ∀ node ∈ callee.subexpressions, node.type ≠ none := by
  rw [isCallee.subexpressions, List.forall_mem_singleton, typed]
  exact Option.some_ne_none _

end Context.Callee

section Checking

variable (source : SourceId) {arena : Arena} {context : Context}

mutual

/-- Checking an expression that has no types yet leaves the right ones in it. -/
theorem Expr.check_annotated : (value : Expr) →
    (∀ occurrence ∈ value.occurrences context .value, occurrence.IsTyped arena) →
    (∀ callee ∈ value.callees, callee.isIdentifier) →
    (∀ node ∈ value.subexpressions, node.type = none) →
      (value.check source arena).1.Annotated source context (value.check source arena).2
  | .binary op left right span type, typed, callees, untyped => by
      simp only [Expr.occurrences, Expr.callees, Expr.subexpressions, List.forall_mem_append,
        List.forall_mem_cons] at typed callees untyped
      rcases untyped with ⟨rootUntyped, leftUntyped, rightUntyped⟩
      have leftAnnotated := left.check_annotated typed.1 callees.1 leftUntyped
      have rightAnnotated := right.check_annotated typed.2 callees.2 rightUntyped
      rw [Expr.check]
      generalize left.check source arena = leftChecked at leftAnnotated ⊢
      generalize right.check source arena = rightChecked at rightAnnotated ⊢
      rcases leftChecked with ⟨newLeft, leftVerdict⟩
      rcases rightChecked with ⟨newRight, rightVerdict⟩
      rcases leftAnnotated with ⟨leftJudged, leftRight, leftComplete⟩
      rcases rightAnnotated with ⟨rightJudged, rightRight, rightComplete⟩
      cases leftJudged with
      | error leftError =>
          refine .of_error rfl (.left leftError) rootUntyped ?_
          refine List.forall_mem_append.mpr ⟨leftRight, ?_⟩
          exact fun node member => .of_untyped (rightUntyped node member)
      | ok leftTyped =>
          have bothRight := List.forall_mem_append.mpr ⟨leftRight, rightRight⟩
          cases rightJudged with
          | error rightError =>
              exact .of_error rfl (.right leftTyped rightError) rootUntyped bothRight
          | ok rightTyped =>
              have bothComplete := List.forall_mem_append.mpr ⟨leftComplete rfl, rightComplete rfl⟩
              dsimp only
              split
              · rename_i result_eq
                have fails := (op.result?_eq_none_iff _ _).mp result_eq
                exact .of_error rfl (.binary leftTyped rightTyped fails) rootUntyped bothRight
              · rename_i result_eq
                have yields := (op.result?_eq_some_iff _ _ _).mp result_eq
                exact .of_ok rfl (.binary leftTyped rightTyped yields) rfl bothRight bothComplete
  | .unary op operand span type, typed, callees, untyped => by
      simp only [Expr.subexpressions, List.forall_mem_cons] at untyped
      rcases untyped with ⟨rootUntyped, operandUntyped⟩
      have operandAnnotated := operand.check_annotated typed callees operandUntyped
      rw [Expr.check]
      generalize operand.check source arena = checked at operandAnnotated ⊢
      rcases checked with ⟨newOperand, verdict⟩
      rcases operandAnnotated with ⟨judged, right, complete⟩
      cases judged with
      | error operandError => exact .of_error rfl (.operand operandError) rootUntyped right
      | ok operandTyped =>
          dsimp only
          split
          · rename_i result_eq
            have fails := (op.result?_eq_none_iff _).mp result_eq
            exact .of_error rfl (.unary operandTyped fails) rootUntyped right
          · rename_i result_eq
            have yields := (op.result?_eq_some_iff _ _).mp result_eq
            exact .of_ok rfl (.unary operandTyped yields) rfl right (complete rfl)
  | .call callee arguments span type, typed, callees, untyped => by
      simp only [Expr.occurrences, Expr.callees, Expr.subexpressions, List.cons_append,
        List.forall_mem_cons, List.forall_mem_append] at typed callees untyped
      rcases untyped with ⟨rootUntyped, _, argumentsUntyped⟩
      have argumentsAnnotated :=
        Expr.checkAll_annotated arguments typed.2 callees.2.2 argumentsUntyped
      rcases Expr.callee_of_isTyped callees.1 typed.1 with ⟨signature, isCallee, found⟩
      have newIsCallee := isCallee.withType (some signature.returnType.type)
      have newTyped := callee.type_withType (some signature.returnType.type)
      simp only [Expr.check, found]
      generalize Expr.checkAll source arena arguments = checked at argumentsAnnotated ⊢
      generalize callee.withType (some signature.returnType.type) = newCallee
        at newIsCallee newTyped ⊢
      rcases checked with ⟨newArguments, verdict⟩
      rcases argumentsAnnotated with ⟨judged, right, complete⟩
      have partsRight := List.forall_mem_append.mpr ⟨newIsCallee.right newTyped, right⟩
      cases judged with
      | error argumentError =>
          exact .of_error rfl (.argument newIsCallee argumentError) rootUntyped partsRight
      | ok argumentsTyped =>
          have partsComplete :=
            List.forall_mem_append.mpr ⟨newIsCallee.complete newTyped, complete rfl⟩
          have callJudged := Expr.judged_call source newIsCallee argumentsTyped span
          dsimp only
          split
          · rename_i error_eq
            have rootJudged := callJudged type
            rw [error_eq, Option.elim_some] at rootJudged
            cases rootJudged with
            | error violation => exact .of_error rfl violation rootUntyped partsRight
          · rename_i error_eq
            have rootJudged := callJudged (some signature.returnType.type)
            rw [error_eq, Option.elim_none] at rootJudged
            cases rootJudged with
            | ok hasType => exact .of_ok rfl hasType rfl partsRight partsComplete
  | .grouping inner span type, typed, callees, untyped => by
      simp only [Expr.subexpressions, List.forall_mem_cons] at untyped
      rcases untyped with ⟨rootUntyped, innerUntyped⟩
      have innerAnnotated := inner.check_annotated typed callees innerUntyped
      rw [Expr.check]
      generalize inner.check source arena = checked at innerAnnotated ⊢
      rcases checked with ⟨newInner, verdict⟩
      rcases innerAnnotated with ⟨judged, right, complete⟩
      cases judged with
      | error innerError => exact .of_error rfl (.inner innerError) rootUntyped right
      | ok innerTyped => exact .of_ok rfl (.grouping innerTyped) rfl right (complete rfl)
  | .literal value span type, _, _, untyped => by
      rw [Expr.check]
      split
      · rename_i type_eq
        have fails := value.type?_eq_none_iff.mp type_eq
        exact .of_error rfl (.literal fails) (untyped _ List.mem_cons_self) (List.forall_mem_nil _)
      · rename_i type_eq
        have valueTyped := (value.type?_eq_some_iff _).mp type_eq
        exact .of_ok rfl (.literal valueTyped) rfl (List.forall_mem_nil _) (List.forall_mem_nil _)
  | .identifier name symbol type, typed, _, _ => by
      rcases Name.variableType_of_isTyped source (typed _ List.mem_cons_self) with
        ⟨declaration, means, isVariable, variableType⟩
      rw [Expr.check, variableType]
      exact .of_ok rfl (.identifier means isVariable) rfl (List.forall_mem_nil _)
        (List.forall_mem_nil _)

/-- Checking several expressions that have no types yet leaves the right ones in them. -/
theorem Expr.checkAll_annotated : (values : List Expr) →
    (∀ occurrence ∈ Expr.occurrencesOfAll context values, occurrence.IsTyped arena) →
    (∀ callee ∈ Expr.calleesOfAll values, callee.isIdentifier) →
    (∀ node ∈ Expr.subexpressionsOfAll values, node.type = none) →
      Expr.AllAnnotated source context (Expr.checkAll source arena values).1
        (Expr.checkAll source arena values).2
  | [], _, _, _ => ⟨.ok .nil, List.forall_mem_nil _, fun _ => List.forall_mem_nil _⟩
  | first :: rest, typed, callees, untyped => by
      simp only [Expr.occurrencesOfAll, Expr.calleesOfAll, Expr.subexpressionsOfAll,
        List.forall_mem_append] at typed callees untyped
      have firstAnnotated := first.check_annotated typed.1 callees.1 untyped.1
      have restAnnotated := Expr.checkAll_annotated rest typed.2 callees.2 untyped.2
      rw [Expr.checkAll]
      generalize first.check source arena = firstChecked at firstAnnotated ⊢
      generalize Expr.checkAll source arena rest = restChecked at restAnnotated ⊢
      rcases firstChecked with ⟨newFirst, firstVerdict⟩
      rcases restChecked with ⟨newRest, restVerdict⟩
      rcases firstAnnotated with ⟨firstJudged, firstRight, firstComplete⟩
      rcases restAnnotated with ⟨restJudged, restRight, restComplete⟩
      cases firstJudged with
      | error firstError =>
          refine ⟨.error (.head firstError), List.forall_mem_append.mpr ⟨firstRight, ?_⟩, nofun⟩
          exact fun node member => .of_untyped (untyped.2 node member)
      | ok firstTyped =>
          have bothRight := List.forall_mem_append.mpr ⟨firstRight, restRight⟩
          cases restJudged with
          | error restError => exact ⟨.error (.tail firstTyped restError), bothRight, nofun⟩
          | ok restTyped =>
              refine ⟨.ok (.cons firstTyped restTyped), bothRight, fun _ => ?_⟩
              exact List.forall_mem_append.mpr ⟨firstComplete rfl, restComplete rfl⟩

end

end Checking

namespace Leaf

/-- The expressions in a leaf, callees included. -/
def expressions (leaf : Leaf) : List Expr :=
  leaf.statement.value?.toList.flatMap Expr.subexpressions

/--
The types in a leaf are right. They are complete if the leaf keeps the typing rules, and withheld
from every node in which a rule is violated, be it at the node itself or below.
-/
structure Annotated (source : SourceId) (leaf : Leaf) : Prop where
  right : ∀ node ∈ leaf.expressions, ∀ type, node.type = some type →
    node.GetsType leaf.context type
  complete : leaf.WellTyped → ∀ node ∈ leaf.expressions, node.type ≠ none
  withheld : ∀ node ∈ leaf.expressions, ∀ inner ∈ node.subexpressions, ∀ error,
    inner.FirstViolation source leaf.context error → node.type = none

variable {source : SourceId} {leaf : Leaf}

theorem WellTyped.hasType {value : Expr} (wellTyped : leaf.WellTyped)
    (value_eq : leaf.statement.value? = some value) :
    ∃ type, value.HasType leaf.context type := by
  cases wellTyped with
  | expression hasType =>
      cases value_eq
      exact ⟨_, hasType⟩
  | uninitialized none_eq => cases none_eq.symm.trans value_eq
  | initialized initializer_eq hasType _ =>
      cases initializer_eq.symm.trans value_eq
      exact ⟨_, hasType⟩
  | returningNothing => cases value_eq
  | returning hasType =>
      cases value_eq
      exact ⟨_, hasType⟩

theorem Annotated.of_none (value_eq : leaf.statement.value? = none) : leaf.Annotated source := by
  have nothing : leaf.expressions = [] := by
    simp only [expressions, value_eq, Option.toList_none, List.flatMap_nil]
  constructor <;> simp [nothing]

theorem Annotated.of_some {value : Expr} {verdict : Except TypeError Ty}
    (value_eq : leaf.statement.value? = some value)
    (annotated : value.Annotated source leaf.context verdict) : leaf.Annotated source := by
  have only : leaf.expressions = value.subexpressions := by
    simp only [expressions, value_eq, Option.toList_some, List.flatMap_singleton]
  constructor
  · rw [only]
    exact annotated.right
  · intro wellTyped
    rw [only]
    rcases wellTyped.hasType value_eq with ⟨type, hasType⟩
    rcases annotated with ⟨judged, _, complete⟩
    cases judged with
    | ok _ => exact complete rfl
    | error violation => exact absurd violation hasType.not_firstViolation
  · intro node member inner innerMem error violation
    rw [only] at member
    by_contra typed
    rcases Option.ne_none_iff_exists'.mp typed with ⟨type, type_eq⟩
    exact (annotated.right node member type type_eq).clean inner innerMem source error violation

/-- A leaf before and after its check: the checker only changes the value. -/
structure ChecksTo (source : SourceId) (arena : Arena) (leaf result : Leaf) : Prop where
  context_eq : result.context = leaf.context
  value_eq : result.statement.value? =
    leaf.statement.value?.map fun value => (value.check source arena).1

/-- A leaf none of whose expressions has a type yet. -/
def IsUntyped (leaf : Leaf) : Prop :=
  ∀ node ∈ leaf.expressions, node.type = none

theorem ChecksTo.annotated {base arena : Arena} {done pending : List Declaration} {result : Leaf}
    (checks : leaf.ChecksTo source arena result)
    (ready : leaf.context.Ready done (done ++ pending)) (holds : arena.Holds done pending)
    (resolved : leaf.IsResolved base) (untyped : leaf.IsUntyped) : result.Annotated source := by
  have typed := Leaf.isTyped_of_ready ready holds resolved
  have callees := resolved.callees
  have result_eq := checks.value_eq
  cases value_eq : leaf.statement.value? with
  | none =>
      rw [value_eq] at result_eq
      exact .of_none result_eq
  | some value =>
      rw [value_eq] at result_eq
      simp only [IsUntyped, expressions, occurrences, Leaf.callees, value_eq, Option.toList_some,
        List.flatMap_singleton] at typed callees untyped
      have annotated := value.check_annotated source typed callees untyped
      rw [← checks.context_eq] at annotated
      exact .of_some result_eq annotated

end Leaf

end TypedLang
