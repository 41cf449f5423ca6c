import TypedLang.Proofs.Scope.Violations
import TypedLang.Proofs.Typing.Uniqueness

/-!
# Checking expressions

Where the arena knows the type of every variable and the signature of every function that an
expression names, the checker finds what the typing rules say: the type of the expression, or its
first violation. What it finds is called its verdict here; the types that it writes into the tree
play no part in it.
-/

namespace TypedLang

/-- What the checker finds out about an expression. -/
def Expr.verdict (source : SourceId) (arena : Arena) (value : Expr) : Except TypeError Ty :=
  (value.check source arena).2

/-- What the checker finds out about several expressions. -/
def Expr.verdicts (source : SourceId) (arena : Arena) (values : List Expr) :
    Except TypeError (List Ty) :=
  (Expr.checkAll source arena values).2

/-- An expression has the type that a verdict gives, or the first violation that it tells. -/
inductive Expr.Judged (source : SourceId) (context : Context) (value : Expr) :
    Except TypeError Ty → Prop where
  | ok {type : Ty} : value.HasType context type → Judged source context value (.ok type)
  | error {error : TypeError} :
      value.FirstViolation source context error → Judged source context value (.error error)

/-- Several expressions have the types that a verdict gives, or the first violation that it tells. -/
inductive Expr.AllJudged (source : SourceId) (context : Context) (values : List Expr) :
    Except TypeError (List Ty) → Prop where
  | ok {types : List Ty} :
      Expr.HaveTypes context values types → AllJudged source context values (.ok types)
  | error {error : TypeError} :
      Expr.FirstViolations source context values error →
      AllJudged source context values (.error error)

/--
The arena knows what the rules need of an identifier: the written type of a variable, the signature
of a function.
-/
inductive Occurrence.IsTyped (arena : Arena) : Occurrence → Prop where
  | value {name : Name} {id : SymbolId} {context : Context} {declaration : Declaration}
      {symbol : Symbol} :
      context.declaration? name.key = some declaration → declaration.kind ≠ .function →
      arena.get? id = some symbol → symbol.type = some declaration.type.type →
      IsTyped arena ⟨name, some id, .value, context⟩
  | callee {name : Name} {id : SymbolId} {context : Context} {declaration : Declaration}
      {symbol : Symbol} {signature : Signature} :
      context.declaration? name.key = some declaration →
      declaration.signature = some signature →
      arena.get? id = some symbol → symbol.signature = some signature →
      IsTyped arena ⟨name, some id, .callee, context⟩

section Verdicts

variable (source : SourceId) (arena : Arena)

theorem Expr.verdict_binary (op : BinaryOp) (left right : Expr) (span : Span) (type : Option Ty) :
    (binary op left right span type).verdict source arena = (do
      let leftType ← left.verdict source arena
      let rightType ← right.verdict source arena
      (op.result? leftType rightType).elim
        (.error ⟨source, span, .invalidBinary op.spelling (some leftType) (some rightType)⟩) .ok) := by
  simp only [verdict, check]
  rcases left.check source arena with ⟨left, _ | leftType⟩
  · rfl
  · rcases right.check source arena with ⟨right, _ | rightType⟩
    · rfl
    · cases result_eq : op.result? leftType rightType <;> simp [Bind.bind, Except.bind, result_eq]

theorem Expr.verdict_unary (op : UnaryOp) (operand : Expr) (span : Span) (type : Option Ty) :
    (unary op operand span type).verdict source arena = (do
      let operandType ← operand.verdict source arena
      (op.result? operandType).elim
        (.error ⟨source, span, .invalidUnary op.spelling (some operandType)⟩) .ok) := by
  simp only [verdict, check]
  rcases operand.check source arena with ⟨operand, _ | operandType⟩
  · rfl
  · cases result_eq : op.result? operandType <;> simp [Bind.bind, Except.bind, result_eq]

theorem Expr.verdict_grouping (inner : Expr) (span : Span) (type : Option Ty) :
    (grouping inner span type).verdict source arena = inner.verdict source arena := by
  simp only [verdict, check]
  rcases inner.check source arena with ⟨inner, _ | innerType⟩ <;> rfl

theorem Expr.verdict_literal (value : Literal) (span : Span) (type : Option Ty) :
    (literal value span type).verdict source arena =
      value.type?.elim (.error ⟨source, span, .unsupportedLiteral⟩) .ok := by
  simp only [verdict, check]
  cases value.type? <;> rfl

theorem Expr.verdict_identifier (name : Name) (symbol : Option SymbolId) (type : Option Ty) :
    (identifier name symbol type).verdict source arena = name.variableType source arena symbol := by
  simp only [verdict, check]
  cases name.variableType source arena symbol <;> rfl

theorem Expr.verdicts_cons (first : Expr) (rest : List Expr) :
    Expr.verdicts source arena (first :: rest) = (do
      let type ← first.verdict source arena
      let types ← Expr.verdicts source arena rest
      .ok (type :: types)) := by
  simp only [verdicts, verdict, checkAll]
  rcases first.check source arena with ⟨first, _ | type⟩
  · rfl
  · rcases Expr.checkAll source arena rest with ⟨rest, _ | types⟩ <;> rfl

theorem Expr.span_check (value : Expr) : (value.check source arena).1.span = value.span := by
  cases value <;> unfold check
  all_goals repeat' split
  all_goals rfl

theorem Expr.spans_checkAll (values : List Expr) :
    (Expr.checkAll source arena values).1.map Expr.span = values.map Expr.span := by
  induction values with
  | nil => rfl
  | cons first rest ih =>
      have span_eq := first.span_check source arena
      simp only [checkAll]
      rcases checked : first.check source arena with ⟨first', _ | type⟩
      · simp_all
      · rcases restChecked : Expr.checkAll source arena rest with ⟨rest', _ | types⟩ <;> simp_all

theorem Signature.argumentError?_congr : (parameters : List WrittenType) →
    (arguments others : List Expr) → (types : List Ty) →
      arguments.map Expr.span = others.map Expr.span →
        argumentError? source parameters arguments types =
          argumentError? source parameters others types
  | [], _, _, _, _ => by simp [argumentError?]
  | _ :: _, [], [], _, _ => rfl
  | _ :: _, [], _ :: _, _, spans_eq => by simp at spans_eq
  | _ :: _, _ :: _, [], _, spans_eq => by simp at spans_eq
  | _ :: _, _ :: _, _ :: _, [], _ => by simp [argumentError?]
  | parameter :: parameters, argument :: arguments, other :: others, type :: types, spans_eq => by
      simp only [List.map_cons, List.cons.injEq] at spans_eq
      simp only [argumentError?, spans_eq.1,
        Signature.argumentError?_congr parameters arguments others types spans_eq.2]

theorem Signature.callError?_congr (signature : Signature) (span : Span)
    {arguments others : List Expr} (types : List Ty)
    (spans_eq : arguments.map Expr.span = others.map Expr.span) :
    signature.callError? source span arguments types =
      signature.callError? source span others types := by
  rw [callError?, callError?, argumentError?_congr source _ arguments others types spans_eq]

theorem Expr.verdict_call {callee : Expr} {signature : Signature}
    (found : callee.signature? arena = some signature) (arguments : List Expr) (span : Span)
    (type : Option Ty) :
    (call callee arguments span type).verdict source arena = (do
      let types ← Expr.verdicts source arena arguments
      (signature.callError? source span arguments types).elim (.ok signature.returnType.type)
        .error) := by
  have spans_eq := Expr.spans_checkAll source arena arguments
  simp only [verdict, verdicts, check, found]
  generalize Expr.checkAll source arena arguments = checked at spans_eq ⊢
  rcases checked with ⟨others, _ | types⟩
  · rfl
  · have same := Signature.callError?_congr source signature span types spans_eq
    simp only [Bind.bind, Except.bind, ← same]
    cases signature.callError? source span others types <;> rfl

end Verdicts

section Arguments

variable {source : SourceId} {parameters : List WrittenType} {arguments : List Expr}
  {types : List Ty}

theorem Signature.firstMismatch_of_argumentError? {error : TypeError}
    (found : argumentError? source parameters arguments types = some error) :
    WrittenType.FirstMismatch source parameters arguments types error := by
  induction parameters generalizing arguments types with
  | nil => simp [argumentError?] at found
  | cons parameter parameters ih =>
      rcases arguments with _ | ⟨argument, arguments⟩
      · simp [argumentError?] at found
      · rcases types with _ | ⟨type, types⟩
        · simp [argumentError?] at found
        · rw [argumentError?] at found
          split at found
          · rename_i assignable
            exact .tail ((Ty.isAssignable_iff _ _).mp assignable) (ih found)
          · rename_i notAssignable
            cases found
            exact .head fun assignable => notAssignable ((Ty.isAssignable_iff _ _).mpr assignable)

theorem Signature.argumentError?_of_firstMismatch {error : TypeError}
    (mismatch : WrittenType.FirstMismatch source parameters arguments types error) :
    argumentError? source parameters arguments types = some error := by
  induction mismatch with
  | head notAssignable =>
      rw [argumentError?, if_neg (fun holds => notAssignable ((Ty.isAssignable_iff _ _).mp holds))]
      rfl
  | tail assignable _ ih =>
      rw [argumentError?, if_pos ((Ty.isAssignable_iff _ _).mpr assignable), ih]

theorem Signature.argumentError?_eq_none_iff (parameters : List WrittenType)
    (arguments : List Expr) (types : List Ty) (sameLength : arguments.length = types.length)
    (arity : types.length = parameters.length) :
    argumentError? source parameters arguments types = none ↔
      List.Forall₂ Ty.AssignableTo types (parameters.map WrittenType.type) := by
  induction parameters generalizing arguments types with
  | nil =>
      have nothing : types = [] := List.length_eq_zero_iff.mp arity
      simp [argumentError?, nothing]
  | cons parameter parameters ih =>
      rcases types with _ | ⟨type, types⟩
      · simp at arity
      · rcases arguments with _ | ⟨argument, arguments⟩
        · simp at sameLength
        · simp only [List.length_cons, Nat.add_right_cancel_iff] at sameLength arity
          rw [argumentError?, List.map_cons, List.forall₂_cons, ← Ty.isAssignable_iff,
            ← ih arguments types sameLength arity]
          split <;> simp_all

end Arguments

section Steps

variable (source : SourceId) {context : Context}

theorem Expr.judged_binary (op : BinaryOp) {left right : Expr} {leftType rightType : Ty}
    (leftTyped : left.HasType context leftType) (rightTyped : right.HasType context rightType)
    (span : Span) (type : Option Ty) :
    (binary op left right span type).Judged source context
      ((op.result? leftType rightType).elim
        (.error ⟨source, span, .invalidBinary op.spelling (some leftType) (some rightType)⟩) .ok) := by
  cases result_eq : op.result? leftType rightType with
  | none =>
      have fails := (op.result?_eq_none_iff _ _).mp result_eq
      exact .error (.binary leftTyped rightTyped fails)
  | some result =>
      have yields := (op.result?_eq_some_iff _ _ _).mp result_eq
      exact .ok (.binary leftTyped rightTyped yields)

theorem Expr.judged_unary (op : UnaryOp) {operand : Expr} {operandType : Ty}
    (operandTyped : operand.HasType context operandType) (span : Span) (type : Option Ty) :
    (unary op operand span type).Judged source context
      ((op.result? operandType).elim
        (.error ⟨source, span, .invalidUnary op.spelling (some operandType)⟩) .ok) := by
  cases result_eq : op.result? operandType with
  | none =>
      have fails := (op.result?_eq_none_iff _).mp result_eq
      exact .error (.unary operandTyped fails)
  | some result =>
      have yields := (op.result?_eq_some_iff _ _).mp result_eq
      exact .ok (.unary operandTyped yields)

theorem Expr.judged_literal (value : Literal) (span : Span) (type : Option Ty) :
    (literal value span type).Judged source context
      (value.type?.elim (.error ⟨source, span, .unsupportedLiteral⟩) .ok) := by
  cases type_eq : value.type? with
  | none => exact .error (.literal (value.type?_eq_none_iff.mp type_eq))
  | some result => exact .ok (.literal ((value.type?_eq_some_iff _).mp type_eq))

theorem Expr.judged_call {callee : Expr} {signature : Signature} {arguments : List Expr}
    {types : List Ty} (isCallee : context.Callee callee signature)
    (argumentsTyped : Expr.HaveTypes context arguments types) (span : Span) (type : Option Ty) :
    (call callee arguments span type).Judged source context
      ((signature.callError? source span arguments types).elim (.ok signature.returnType.type)
        .error) := by
  have sameLength := argumentsTyped.length_eq
  rw [Signature.callError?]
  by_cases arity : types.length = signature.parameters.length
  · rw [if_neg (not_not_intro arity)]
    cases found : Signature.argumentError? source signature.parameters arguments types with
    | none =>
        have assignable := (Signature.argumentError?_eq_none_iff _ _ _ sameLength arity).mp found
        exact .ok (.call isCallee argumentsTyped assignable)
    | some error =>
        have mismatch := Signature.firstMismatch_of_argumentError? found
        exact .error (.mismatch isCallee argumentsTyped (sameLength.trans arity) mismatch)
  · rw [if_pos arity, ← sameLength]
    rw [← sameLength] at arity
    exact .error (.arity isCallee argumentsTyped arity)

end Steps

section Judgement

variable (source : SourceId) {arena : Arena} {context : Context}

theorem Name.variableType_of_isTyped {name : Name} {symbol : Option SymbolId}
    (typed : Occurrence.IsTyped arena ⟨name, symbol, .value, context⟩) :
    ∃ declaration, context.declaration? name.key = some declaration ∧
      declaration.kind ≠ .function ∧
      name.variableType source arena symbol = .ok declaration.type.type := by
  cases typed with
  | value means isVariable found typed =>
      refine ⟨_, means, isVariable, ?_⟩
      simp [Name.variableType, found, typed]

theorem Expr.callee_of_isTyped {callee : Expr} (isIdentifier : callee.isIdentifier)
    (typed : ∀ occurrence ∈ callee.occurrences context .callee, occurrence.IsTyped arena) :
    ∃ signature, context.Callee callee signature ∧ callee.signature? arena = some signature := by
  cases callee with
  | identifier name symbol type =>
      have named := typed _ List.mem_cons_self
      cases named with
      | callee means isFunction found signed =>
          refine ⟨_, ⟨name, _, type, _, rfl, means, isFunction⟩, ?_⟩
          simp [signature?, found, signed]
  | _ => cases isIdentifier

mutual

/-- What the checker finds out about an expression is what the rules say. -/
theorem Expr.judged_verdict : (value : Expr) →
    (∀ occurrence ∈ value.occurrences context .value, occurrence.IsTyped arena) →
    (∀ callee ∈ value.callees, callee.isIdentifier) →
      value.Judged source context (value.verdict source arena)
  | .binary op left right span type, typed, callees => by
      simp only [Expr.occurrences, Expr.callees, List.forall_mem_append] at typed callees
      have leftJudged := left.judged_verdict typed.1 callees.1
      have rightJudged := right.judged_verdict typed.2 callees.2
      rw [Expr.verdict_binary]
      generalize left.verdict source arena = leftVerdict at leftJudged ⊢
      generalize right.verdict source arena = rightVerdict at rightJudged ⊢
      cases leftJudged with
      | error leftError => exact .error (.left leftError)
      | ok leftTyped =>
          cases rightJudged with
          | error rightError => exact .error (.right leftTyped rightError)
          | ok rightTyped => exact Expr.judged_binary source op leftTyped rightTyped span type
  | .unary op operand span type, typed, callees => by
      have operandJudged := operand.judged_verdict typed callees
      rw [Expr.verdict_unary]
      generalize operand.verdict source arena = operandVerdict at operandJudged ⊢
      cases operandJudged with
      | error operandError => exact .error (.operand operandError)
      | ok operandTyped => exact Expr.judged_unary source op operandTyped span type
  | .call callee arguments span type, typed, callees => by
      simp only [Expr.occurrences, Expr.callees, List.cons_append, List.forall_mem_cons,
        List.forall_mem_append] at typed callees
      have argumentsJudged := Expr.allJudged_verdicts arguments typed.2 callees.2.2
      rcases Expr.callee_of_isTyped callees.1 typed.1 with ⟨signature, isCallee, found⟩
      rw [Expr.verdict_call source arena found]
      generalize Expr.verdicts source arena arguments = argumentsVerdict at argumentsJudged ⊢
      cases argumentsJudged with
      | error argumentError => exact .error (.argument isCallee argumentError)
      | ok argumentsTyped => exact Expr.judged_call source isCallee argumentsTyped span type
  | .grouping inner span type, typed, callees => by
      have innerJudged := inner.judged_verdict typed callees
      rw [Expr.verdict_grouping]
      generalize inner.verdict source arena = innerVerdict at innerJudged ⊢
      cases innerJudged with
      | error innerError => exact .error (.inner innerError)
      | ok innerTyped => exact .ok (.grouping innerTyped)
  | .literal value span type, _, _ => by
      rw [Expr.verdict_literal]
      exact Expr.judged_literal source value span type
  | .identifier name symbol type, typed, _ => by
      rcases Name.variableType_of_isTyped source (typed _ List.mem_cons_self) with
        ⟨declaration, means, isVariable, variableType⟩
      rw [Expr.verdict_identifier, variableType]
      exact .ok (.identifier means isVariable)

/-- What the checker finds out about several expressions is what the rules say. -/
theorem Expr.allJudged_verdicts : (values : List Expr) →
    (∀ occurrence ∈ Expr.occurrencesOfAll context values, occurrence.IsTyped arena) →
    (∀ callee ∈ Expr.calleesOfAll values, callee.isIdentifier) →
      Expr.AllJudged source context values (Expr.verdicts source arena values)
  | [], _, _ => .ok .nil
  | first :: rest, typed, callees => by
      simp only [Expr.occurrencesOfAll, Expr.calleesOfAll, List.forall_mem_append] at typed callees
      have firstJudged := first.judged_verdict typed.1 callees.1
      have restJudged := Expr.allJudged_verdicts rest typed.2 callees.2
      rw [Expr.verdicts_cons]
      generalize first.verdict source arena = firstVerdict at firstJudged ⊢
      generalize Expr.verdicts source arena rest = restVerdict at restJudged ⊢
      cases firstJudged with
      | error firstError => exact .error (.head firstError)
      | ok firstTyped =>
          cases restJudged with
          | error restError => exact .error (.tail firstTyped restError)
          | ok restTyped => exact .ok (.cons firstTyped restTyped)

end

theorem Expr.verdict_of_hasType (value : Expr) {type : Ty}
    (typed : ∀ occurrence ∈ value.occurrences context .value, occurrence.IsTyped arena)
    (callees : ∀ callee ∈ value.callees, callee.isIdentifier)
    (hasType : value.HasType context type) : value.verdict source arena = .ok type := by
  have judged := value.judged_verdict source typed callees
  generalize value.verdict source arena = verdict at judged ⊢
  cases judged with
  | ok otherTyped => rw [otherTyped.unique hasType]
  | error violation => exact absurd violation hasType.not_firstViolation

theorem Expr.verdicts_of_haveTypes (values : List Expr) {types : List Ty}
    (typed : ∀ occurrence ∈ Expr.occurrencesOfAll context values, occurrence.IsTyped arena)
    (callees : ∀ callee ∈ Expr.calleesOfAll values, callee.isIdentifier)
    (haveTypes : Expr.HaveTypes context values types) :
    Expr.verdicts source arena values = .ok types := by
  have judged := Expr.allJudged_verdicts source values typed callees
  generalize Expr.verdicts source arena values = verdict at judged ⊢
  cases judged with
  | ok otherTyped => rw [otherTyped.unique haveTypes]
  | error violations => exact absurd violations haveTypes.not_firstViolations

mutual

theorem Expr.verdict_of_firstViolation : (value : Expr) → {error : TypeError} →
    (∀ occurrence ∈ value.occurrences context .value, occurrence.IsTyped arena) →
    (∀ callee ∈ value.callees, callee.isIdentifier) →
      value.FirstViolation source context error → value.verdict source arena = .error error
  | .binary op left right span _, _, typed, callees, violation => by
      simp only [Expr.occurrences, Expr.callees, List.forall_mem_append] at typed callees
      rw [Expr.verdict_binary]
      cases violation with
      | left leftError =>
          rw [left.verdict_of_firstViolation typed.1 callees.1 leftError]
          rfl
      | right leftTyped rightError =>
          rw [left.verdict_of_hasType source typed.1 callees.1 leftTyped,
            right.verdict_of_firstViolation typed.2 callees.2 rightError]
          rfl
      | binary leftTyped rightTyped fails =>
          rw [left.verdict_of_hasType source typed.1 callees.1 leftTyped,
            right.verdict_of_hasType source typed.2 callees.2 rightTyped]
          simp [Bind.bind, Except.bind, (op.result?_eq_none_iff _ _).mpr fails]
  | .unary op operand span _, _, typed, callees, violation => by
      rw [Expr.verdict_unary]
      cases violation with
      | operand operandError =>
          rw [operand.verdict_of_firstViolation typed callees operandError]
          rfl
      | unary operandTyped fails =>
          rw [operand.verdict_of_hasType source typed callees operandTyped]
          simp [Bind.bind, Except.bind, (op.result?_eq_none_iff _).mpr fails]
  | .call callee arguments span _, _, typed, callees, violation => by
      simp only [Expr.occurrences, Expr.callees, List.cons_append, List.forall_mem_cons,
        List.forall_mem_append] at typed callees
      rcases Expr.callee_of_isTyped callees.1 typed.1 with ⟨signature, known, found⟩
      rw [Expr.verdict_call source arena found]
      cases violation with
      | argument isCallee argumentError =>
          rw [Expr.verdicts_of_firstViolations arguments typed.2 callees.2.2 argumentError]
          rfl
      | arity isCallee argumentsTyped arity =>
          cases isCallee.unique known
          rw [Expr.verdicts_of_haveTypes source arguments typed.2 callees.2.2 argumentsTyped]
          rw [argumentsTyped.length_eq] at arity ⊢
          simp [Bind.bind, Except.bind, Signature.callError?, arity]
      | mismatch isCallee argumentsTyped arity mismatch =>
          cases isCallee.unique known
          rw [Expr.verdicts_of_haveTypes source arguments typed.2 callees.2.2 argumentsTyped]
          rw [argumentsTyped.length_eq] at arity
          simp [Bind.bind, Except.bind, Signature.callError?, arity,
            Signature.argumentError?_of_firstMismatch mismatch]
  | .grouping inner span _, _, typed, callees, violation => by
      cases violation with
      | inner innerError =>
          rw [Expr.verdict_grouping, inner.verdict_of_firstViolation typed callees innerError]
  | .literal value span _, _, _, _, violation => by
      cases violation with
      | literal fails =>
          rw [Expr.verdict_literal, value.type?_eq_none_iff.mpr fails]
          rfl
  | .identifier name symbol _, _, _, _, violation => by cases violation

theorem Expr.verdicts_of_firstViolations : (values : List Expr) → {error : TypeError} →
    (∀ occurrence ∈ Expr.occurrencesOfAll context values, occurrence.IsTyped arena) →
    (∀ callee ∈ Expr.calleesOfAll values, callee.isIdentifier) →
      Expr.FirstViolations source context values error →
        Expr.verdicts source arena values = .error error
  | [], _, _, _, violations => by cases violations
  | first :: rest, _, typed, callees, violations => by
      simp only [Expr.occurrencesOfAll, Expr.calleesOfAll, List.forall_mem_append] at typed callees
      rw [Expr.verdicts_cons]
      cases violations with
      | head firstError =>
          rw [first.verdict_of_firstViolation typed.1 callees.1 firstError]
          rfl
      | tail firstTyped restError =>
          rw [first.verdict_of_hasType source typed.1 callees.1 firstTyped,
            Expr.verdicts_of_firstViolations rest typed.2 callees.2 restError]
          rfl

end

end Judgement

end TypedLang
