import TypedLang.Proofs.Parsing.Precedence
import TypedLang.Proofs.Typing.Rules

/-!
# The typing rules give one answer

An expression has at most one type, and it has none if it violates a rule. Below an expression that
has a type nothing violates a rule either: each node in it is a value that has a type, or a callee,
which stands for the type that its function returns.
-/

namespace TypedLang

theorem BinaryOp.Yields.unique {op : BinaryOp} {left right result other : Ty}
    (first : op.Yields left right result) (second : op.Yields left right other) :
    result = other := by
  rw [← BinaryOp.result?_eq_some_iff] at first second
  exact Option.some.inj (first.symm.trans second)

theorem UnaryOp.Yields.unique {op : UnaryOp} {operand result other : Ty}
    (first : op.Yields operand result) (second : op.Yields operand other) : result = other := by
  rw [← UnaryOp.result?_eq_some_iff] at first second
  exact Option.some.inj (first.symm.trans second)

theorem Literal.HasType.unique {literal : Literal} {type other : Ty}
    (first : literal.HasType type) (second : literal.HasType other) : type = other := by
  rw [← Literal.type?_eq_some_iff] at first second
  exact Option.some.inj (first.symm.trans second)

theorem WrittenType.FirstMismatch.not_assignable {source : SourceId}
    {parameters : List WrittenType} {arguments : List Expr} {types : List Ty} {error : TypeError}
    (mismatch : WrittenType.FirstMismatch source parameters arguments types error) :
    ¬ List.Forall₂ Ty.AssignableTo types (parameters.map WrittenType.type) := by
  intro assignable
  induction mismatch with
  | head notAssignable =>
      cases assignable with
      | cons holds _ => exact notAssignable holds
  | tail _ _ ih =>
      cases assignable with
      | cons _ others => exact ih others

section Expressions

variable {context : Context}

theorem Expr.HaveTypes.length_eq {values : List Expr} {types : List Ty}
    (typed : Expr.HaveTypes context values types) : values.length = types.length := by
  induction values generalizing types with
  | nil =>
      cases typed
      rfl
  | cons first rest ih =>
      cases typed with
      | cons _ others => simp [ih others]

theorem Context.Callee.unique {callee : Expr} {signature other : Signature}
    (first : context.Callee callee signature) (second : context.Callee callee other) :
    signature = other := by
  rcases first with ⟨name, symbol, type, declaration, rfl, means, isFunction⟩
  rcases second with ⟨_, _, _, otherDeclaration, callee_eq, otherMeans, otherIsFunction⟩
  cases callee_eq
  rw [means] at otherMeans
  cases otherMeans
  rw [isFunction] at otherIsFunction
  exact Option.some.inj otherIsFunction

mutual

/-- An expression has at most one type. -/
theorem Expr.HasType.unique : {value : Expr} → {type other : Ty} →
    value.HasType context type → value.HasType context other → type = other
  | .binary op left right span _, _, _, first, second => by
      cases first with
      | binary leftTyped rightTyped yields =>
          cases second with
          | binary otherLeft otherRight otherYields =>
              cases leftTyped.unique otherLeft
              cases rightTyped.unique otherRight
              exact yields.unique otherYields
  | .unary op operand span _, _, _, first, second => by
      cases first with
      | unary operandTyped yields =>
          cases second with
          | unary otherOperand otherYields =>
              cases operandTyped.unique otherOperand
              exact yields.unique otherYields
  | .call callee arguments span _, _, _, first, second => by
      cases first with
      | call isCallee _ _ =>
          cases second with
          | call otherIsCallee _ _ => rw [isCallee.unique otherIsCallee]
  | .grouping inner span _, _, _, first, second => by
      cases first with
      | grouping innerTyped =>
          cases second with
          | grouping otherInner => exact innerTyped.unique otherInner
  | .literal value span _, _, _, first, second => by
      cases first with
      | literal valueTyped =>
          cases second with
          | literal otherTyped => exact valueTyped.unique otherTyped
  | .identifier name symbol _, _, _, first, second => by
      cases first with
      | identifier means _ =>
          cases second with
          | identifier otherMeans _ =>
              rw [means] at otherMeans
              cases otherMeans
              rfl

/-- Several expressions have types in at most one way. -/
theorem Expr.HaveTypes.unique : {values : List Expr} → {types others : List Ty} →
    Expr.HaveTypes context values types → Expr.HaveTypes context values others → types = others
  | [], _, _, first, second => by
      cases first
      cases second
      rfl
  | _ :: _, _, _, first, second => by
      cases first with
      | cons headTyped tailTyped =>
          cases second with
          | cons otherHead otherTail =>
              rw [headTyped.unique otherHead, tailTyped.unique otherTail]

end

section Violations

variable {source : SourceId} {error : TypeError}

mutual

/-- An expression that has a type violates no rule. -/
theorem Expr.HasType.not_firstViolation : {value : Expr} → {type : Ty} →
    value.HasType context type → ¬ value.FirstViolation source context error
  | .binary op left right span _, _, hasType, violation => by
      cases hasType with
      | binary leftTyped rightTyped yields =>
          cases violation with
          | left leftError => exact leftTyped.not_firstViolation leftError
          | right _ rightError => exact rightTyped.not_firstViolation rightError
          | binary otherLeft otherRight fails =>
              cases leftTyped.unique otherLeft
              cases rightTyped.unique otherRight
              exact fails _ yields
  | .unary op operand span _, _, hasType, violation => by
      cases hasType with
      | unary operandTyped yields =>
          cases violation with
          | operand operandError => exact operandTyped.not_firstViolation operandError
          | unary otherOperand fails =>
              cases operandTyped.unique otherOperand
              exact fails _ yields
  | .call callee arguments span _, _, hasType, violation => by
      cases hasType with
      | call isCallee argumentsTyped assignable =>
          cases violation with
          | argument _ argumentError => exact argumentsTyped.not_firstViolations argumentError
          | arity otherIsCallee _ arity =>
              cases isCallee.unique otherIsCallee
              have sameLength := argumentsTyped.length_eq.trans assignable.length_eq
              rw [List.length_map] at sameLength
              exact arity sameLength
          | mismatch otherIsCallee otherTyped _ mismatch =>
              cases isCallee.unique otherIsCallee
              cases argumentsTyped.unique otherTyped
              exact mismatch.not_assignable assignable
  | .grouping inner span _, _, hasType, violation => by
      cases hasType with
      | grouping innerTyped =>
          cases violation with
          | inner innerError => exact innerTyped.not_firstViolation innerError
  | .literal value span _, _, hasType, violation => by
      cases hasType with
      | literal valueTyped =>
          cases violation with
          | literal fails => exact fails _ valueTyped
  | .identifier name symbol _, _, _, violation => by cases violation

/-- Expressions that have types violate no rule. -/
theorem Expr.HaveTypes.not_firstViolations : {values : List Expr} → {types : List Ty} →
    Expr.HaveTypes context values types →
      ¬ Expr.FirstViolations source context values error
  | [], _, _, violations => by cases violations
  | _ :: _, _, haveTypes, violations => by
      cases haveTypes with
      | cons headTyped tailTyped =>
          cases violations with
          | head headError => exact headTyped.not_firstViolation headError
          | tail _ tailError => exact tailTyped.not_firstViolations tailError

end

end Violations

/--
The type that the rules give to a node of an expression: as a value the one that it has, as a callee
the one that its function returns. No name means both a variable and a function.
-/
inductive Expr.GetsType (context : Context) (node : Expr) : Ty → Prop where
  | value {type : Ty} : node.HasType context type → GetsType context node type
  | callee {signature : Signature} :
      context.Callee node signature → GetsType context node signature.returnType.type

theorem Context.Callee.subexpressions {callee : Expr} {signature : Signature}
    (isCallee : context.Callee callee signature) : callee.subexpressions = [callee] := by
  rcases isCallee with ⟨name, symbol, type, declaration, rfl, _⟩
  rfl

mutual

/-- Each node of an expression that has a type gets one. -/
theorem Expr.HasType.getsType_of_mem : {value : Expr} → {type : Ty} →
    value.HasType context type → ∀ node ∈ value.subexpressions, ∃ own, node.GetsType context own
  | .binary op left right span _, _, hasType => by
      simp only [Expr.subexpressions, List.forall_mem_cons, List.forall_mem_append]
      refine ⟨⟨_, .value hasType⟩, ?_⟩
      cases hasType with
      | binary leftTyped rightTyped _ =>
          exact ⟨leftTyped.getsType_of_mem, rightTyped.getsType_of_mem⟩
  | .unary op operand span _, _, hasType => by
      refine List.forall_mem_cons.mpr ⟨⟨_, .value hasType⟩, ?_⟩
      cases hasType with
      | unary operandTyped _ => exact operandTyped.getsType_of_mem
  | .call callee arguments span _, _, hasType => by
      simp only [Expr.subexpressions, List.forall_mem_cons, List.forall_mem_append]
      refine ⟨⟨_, .value hasType⟩, ?_⟩
      cases hasType with
      | call isCallee argumentsTyped _ =>
          rw [isCallee.subexpressions]
          exact ⟨List.forall_mem_singleton.mpr ⟨_, .callee isCallee⟩,
            argumentsTyped.getsType_of_mem⟩
  | .grouping inner span _, _, hasType => by
      refine List.forall_mem_cons.mpr ⟨⟨_, .value hasType⟩, ?_⟩
      cases hasType with
      | grouping innerTyped => exact innerTyped.getsType_of_mem
  | .literal value span _, _, hasType => List.forall_mem_singleton.mpr ⟨_, .value hasType⟩
  | .identifier name symbol _, _, hasType => List.forall_mem_singleton.mpr ⟨_, .value hasType⟩

/-- Each node of some expressions that have types gets one. -/
theorem Expr.HaveTypes.getsType_of_mem : {values : List Expr} → {types : List Ty} →
    Expr.HaveTypes context values types →
      ∀ node ∈ Expr.subexpressionsOfAll values, ∃ own, node.GetsType context own
  | [], _, _ => List.forall_mem_nil _
  | _ :: _, _, haveTypes => by
      simp only [Expr.subexpressionsOfAll, List.forall_mem_append]
      cases haveTypes with
      | cons headTyped tailTyped => exact ⟨headTyped.getsType_of_mem, tailTyped.getsType_of_mem⟩

end

namespace Expr.GetsType

variable {node : Expr} {type : Ty}

theorem not_firstViolation {source : SourceId} {error : TypeError}
    (getsType : node.GetsType context type) : ¬ node.FirstViolation source context error := by
  cases getsType with
  | value hasType => exact hasType.not_firstViolation
  | callee isCallee =>
      rcases isCallee with ⟨name, symbol, own, declaration, rfl, _⟩
      exact nofun

/-- What gets a type violates no rule, at its root or below. -/
theorem clean (getsType : node.GetsType context type) :
    ∀ inner ∈ node.subexpressions, ∀ source error,
      ¬ inner.FirstViolation source context error := by
  intro inner member source error
  cases getsType with
  | value hasType =>
      rcases hasType.getsType_of_mem inner member with ⟨own, innerGets⟩
      exact innerGets.not_firstViolation
  | callee isCallee =>
      rw [isCallee.subexpressions, List.mem_singleton] at member
      rw [member]
      exact not_firstViolation (.callee isCallee)

end Expr.GetsType

end Expressions

end TypedLang
