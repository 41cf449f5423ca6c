import Mathlib.Algebra.Group.Nat.Defs
import Mathlib.Data.List.Forall2
import TypedLang.Proofs.Scope.Visibility
import TypedLang.Typing.Check

/-!
# The typing rules

The typing rules as relations between expressions, types and errors. They look at the declarations
that names mean and at the types written there, never at symbols or at the order in which a checker
works. The relations on types are shown to agree with the functions that compute them.

An expression that has no type violates a rule. The relation for violations tells the first one, from
left to right and from the leaves to the root.
-/

namespace TypedLang

/-- The categories of types, which no value ever leaves. -/
inductive Category where
  | integer | decimal | boolean
  deriving Repr, DecidableEq

namespace Ty

/-- The category of a type. -/
def category : Ty → Category
  | integer _ _ => .integer
  | decimal _ => .decimal
  | boolean => .boolean

/-- A value of the first type may stand where one of the second is declared. -/
inductive AssignableTo : Ty → Ty → Prop where
  | boolean : AssignableTo boolean boolean
  | decimal {origin target : DecimalWidth} :
      origin.bits ≤ target.bits → AssignableTo (decimal origin) (decimal target)
  | sameSign {signedness : Signedness} {origin target : IntegerWidth} :
      origin.bits ≤ target.bits →
      AssignableTo (integer signedness origin) (integer signedness target)
  | gainsSign {origin target : IntegerWidth} :
      origin.bits < target.bits →
      AssignableTo (integer .unsigned origin) (integer .signed target)

/--
Arithmetic on the first two types yields the third. Beside a signed operand an unsigned one counts as
signed of twice its width, which may be more than there is.
-/
inductive Promotes : Ty → Ty → Ty → Prop where
  | sameSign {signedness : Signedness} {left right result : IntegerWidth} :
      result.bits = Max.max left.bits right.bits →
      Promotes (integer signedness left) (integer signedness right) (integer signedness result)
  | signedLeft {left right result : IntegerWidth} :
      result.bits = Max.max left.bits (2 * right.bits) →
      Promotes (integer .signed left) (integer .unsigned right) (integer .signed result)
  | signedRight {left right result : IntegerWidth} :
      result.bits = Max.max (2 * left.bits) right.bits →
      Promotes (integer .unsigned left) (integer .signed right) (integer .signed result)
  | decimal {left right result : DecimalWidth} :
      result.bits = Max.max left.bits right.bits →
      Promotes (decimal left) (decimal right) (decimal result)

end Ty

/-- An operator on operands of two types yields a third one. -/
inductive BinaryOp.Yields : BinaryOp → Ty → Ty → Ty → Prop where
  | equality {op : EqualityOp} {left right : Ty} :
      left.category = right.category → Yields (.equality op) left right .boolean
  | comparison {op : ComparisonOp} {left right : Ty} :
      left.category = right.category → left.category ≠ .boolean →
      Yields (.comparison op) left right .boolean
  | term {op : TermOp} {left right result : Ty} :
      left.Promotes right result → Yields (.term op) left right result
  | factor {op : FactorOp} {left right result : Ty} :
      left.Promotes right result → Yields (.factor op) left right result

/-- An operator on an operand of one type yields another one. -/
inductive UnaryOp.Yields : UnaryOp → Ty → Ty → Prop where
  | negateInteger {width : IntegerWidth} :
      Yields .negate (.integer .signed width) (.integer .signed width)
  | negateDecimal {width : DecimalWidth} : Yields .negate (.decimal width) (.decimal width)
  | complement : Yields .complement .boolean .boolean

/-- A literal has a type: an integer the narrowest unsigned one that holds it, a string none. -/
inductive Literal.HasType : Literal → Ty → Prop where
  | integer {value : UInt64} {width : IntegerWidth} :
      value.toNat < 2 ^ width.bits →
      (∀ other : IntegerWidth, value.toNat < 2 ^ other.bits → width.bits ≤ other.bits) →
      HasType (.integer value) (.integer .unsigned width)
  | single {value : Binary64} :
      value.magnitudeBits ≤ Ty.largestSingle → HasType (.decimal value) (.decimal .bits32)
  | double {value : Binary64} :
      Ty.largestSingle < value.magnitudeBits → HasType (.decimal value) (.decimal .bits64)
  | boolean {value : Bool} : HasType (.boolean value) .boolean

theorem Ty.isAssignable_iff (origin target : Ty) :
    origin.isAssignable target = true ↔ origin.AssignableTo target := by
  constructor
  · intro holds
    unfold isAssignable at holds
    split at holds
    · exact .boolean
    · exact .decimal (by simpa using holds)
    · exact .sameSign (by simpa using holds)
    · exact .sameSign (by simpa using holds)
    · exact .gainsSign (by simpa using holds)
    · cases holds
  · intro assignable
    cases assignable with
    | boolean => rfl
    | decimal le => simpa [isAssignable] using le
    | @sameSign signedness origin target le => cases signedness <;> simpa [isAssignable] using le
    | gainsSign lt => simpa [isAssignable] using lt

theorem IntegerWidth.bits_eq_max_iff (left right result : IntegerWidth) :
    result.bits = Max.max left.bits right.bits ↔ left.max right = result := by
  cases left <;> cases right <;> cases result <;> decide

theorem IntegerWidth.bits_eq_double_iff (left right result : IntegerWidth) :
    result.bits = Max.max left.bits (2 * right.bits) ↔
      right.double?.map (fun doubled => Ty.integer .signed (left.max doubled)) =
        some (Ty.integer .signed result) := by
  cases left <;> cases right <;> cases result <;> decide

theorem DecimalWidth.bits_eq_max_iff (left right result : DecimalWidth) :
    result.bits = Max.max left.bits right.bits ↔ left.max right = result := by
  cases left <;> cases right <;> cases result <;> decide

theorem Ty.arithmetic?_of_promotes {left right result : Ty} (promotes : left.Promotes right result) :
    left.arithmetic? right = some result := by
  cases promotes with
  | @sameSign signedness left right result bits_eq =>
      rw [IntegerWidth.bits_eq_max_iff] at bits_eq
      cases signedness <;> simp [arithmetic?, bits_eq]
  | signedLeft bits_eq => exact (IntegerWidth.bits_eq_double_iff _ _ _).mp bits_eq
  | signedRight bits_eq =>
      rw [Nat.max_comm] at bits_eq
      exact (IntegerWidth.bits_eq_double_iff _ _ _).mp bits_eq
  | decimal bits_eq =>
      rw [DecimalWidth.bits_eq_max_iff] at bits_eq
      simp [arithmetic?, bits_eq]

theorem Ty.promotes_of_arithmetic? {left right result : Ty}
    (found : left.arithmetic? right = some result) : left.Promotes right result := by
  unfold arithmetic? at found
  split at found
  · cases found
    exact .sameSign ((IntegerWidth.bits_eq_max_iff _ _ _).mpr rfl)
  · cases found
    exact .sameSign ((IntegerWidth.bits_eq_max_iff _ _ _).mpr rfl)
  · rcases Option.map_eq_some_iff.mp found with ⟨doubled, _, rfl⟩
    exact .signedLeft ((IntegerWidth.bits_eq_double_iff _ _ _).mpr found)
  · rcases Option.map_eq_some_iff.mp found with ⟨doubled, _, rfl⟩
    refine .signedRight ?_
    rw [Nat.max_comm]
    exact (IntegerWidth.bits_eq_double_iff _ _ _).mpr found
  · cases found
    exact .decimal ((DecimalWidth.bits_eq_max_iff _ _ _).mpr rfl)
  · cases found

theorem Ty.arithmetic?_eq_some_iff (left right result : Ty) :
    left.arithmetic? right = some result ↔ left.Promotes right result :=
  ⟨promotes_of_arithmetic?, arithmetic?_of_promotes⟩

theorem BinaryOp.result?_eq_some_iff (op : BinaryOp) (left right result : Ty) :
    op.result? left right = some result ↔ op.Yields left right result := by
  cases op with
  | equality op =>
      constructor
      · intro found
        cases left <;> cases right <;> cases found <;> exact .equality rfl
      · intro yields
        cases yields with
        | equality same => cases left <;> cases right <;> first | rfl | cases same
  | comparison op =>
      constructor
      · intro found
        cases left <;> cases right <;> cases found <;> exact .comparison rfl nofun
      · intro yields
        cases yields with
        | comparison same ordered =>
            cases left <;> cases right <;> first | rfl | exact absurd rfl ordered | cases same
  | term op =>
      rw [result?, Ty.arithmetic?_eq_some_iff]
      constructor
      · exact .term
      · intro yields
        cases yields with
        | term promotes => exact promotes
  | factor op =>
      rw [result?, Ty.arithmetic?_eq_some_iff]
      constructor
      · exact .factor
      · intro yields
        cases yields with
        | factor promotes => exact promotes

theorem BinaryOp.result?_eq_none_iff (op : BinaryOp) (left right : Ty) :
    op.result? left right = none ↔ ∀ result, ¬ op.Yields left right result := by
  simp only [Option.eq_none_iff_forall_ne_some, ne_eq, result?_eq_some_iff]

theorem UnaryOp.result?_eq_some_iff (op : UnaryOp) (operand result : Ty) :
    op.result? operand = some result ↔ op.Yields operand result := by
  constructor
  · intro found
    cases op with
    | negate =>
        change operand.negation? = some result at found
        unfold Ty.negation? at found
        split at found
        · cases found
          exact .negateInteger
        · cases found
          exact .negateDecimal
        · cases found
    | complement =>
        change operand.complement? = some result at found
        unfold Ty.complement? at found
        split at found
        · cases found
          exact .complement
        · cases found
  · intro yields
    cases yields <;> rfl

theorem UnaryOp.result?_eq_none_iff (op : UnaryOp) (operand : Ty) :
    op.result? operand = none ↔ ∀ result, ¬ op.Yields operand result := by
  simp only [Option.eq_none_iff_forall_ne_some, ne_eq, result?_eq_some_iff]

theorem Literal.hasType_ofInteger (value : UInt64) :
    (Literal.integer value).HasType (Ty.ofInteger value) := by
  change HasType _
    (if value.toNat < 2 ^ 8 then _
    else if value.toNat < 2 ^ 16 then _
    else if value.toNat < 2 ^ 32 then _
    else _)
  by_cases fits8 : value.toNat < 2 ^ 8
  · rw [if_pos fits8]
    refine .integer fits8 ?_
    intro other _
    cases other <;> decide
  · rw [if_neg fits8]
    by_cases fits16 : value.toNat < 2 ^ 16
    · rw [if_pos fits16]
      refine .integer fits16 ?_
      intro other holds
      cases other <;> first | exact absurd holds fits8 | decide
    · rw [if_neg fits16]
      by_cases fits32 : value.toNat < 2 ^ 32
      · rw [if_pos fits32]
        refine .integer fits32 ?_
        intro other holds
        cases other <;> first | exact absurd holds fits8 | exact absurd holds fits16 | decide
      · rw [if_neg fits32]
        refine .integer value.toNat_lt ?_
        intro other holds
        cases other <;>
          first
          | exact absurd holds fits8
          | exact absurd holds fits16
          | exact absurd holds fits32
          | decide

theorem IntegerWidth.eq_of_bits_eq {left right : IntegerWidth} (same : left.bits = right.bits) :
    left = right := by
  cases left <;> cases right <;> first | rfl | cases same

/-- No two widths are both the narrowest one. -/
theorem Literal.eq_ofInteger {value : UInt64} {type : Ty}
    (hasType : (Literal.integer value).HasType type) : Ty.ofInteger value = type := by
  have narrowest := hasType_ofInteger value
  generalize Ty.ofInteger value = other at narrowest
  cases hasType with
  | integer fits least =>
      cases narrowest with
      | integer otherFits otherLeast =>
          have same := Nat.le_antisymm (otherLeast _ fits) (least _ otherFits)
          rw [IntegerWidth.eq_of_bits_eq same]

theorem Literal.type?_eq_some_iff (literal : Literal) (type : Ty) :
    literal.type? = some type ↔ literal.HasType type := by
  cases literal with
  | integer value =>
      rw [type?, Option.some_inj]
      constructor
      · rintro rfl
        exact hasType_ofInteger value
      · exact eq_ofInteger
  | decimal value =>
      rw [type?, Option.some_inj]
      constructor
      · rintro rfl
        unfold Ty.ofDecimal
        split
        · exact .single ‹_›
        · exact .double (Nat.lt_of_not_le ‹_›)
      · intro hasType
        cases hasType with
        | single le => exact if_pos le
        | double lt => exact if_neg (Nat.not_le_of_lt lt)
  | string key =>
      constructor
      · intro found
        cases found
      · intro hasType
        cases hasType
  | boolean value =>
      constructor
      · intro found
        cases found
        exact .boolean
      · intro hasType
        cases hasType
        rfl

theorem Literal.type?_eq_none_iff (literal : Literal) :
    literal.type? = none ↔ ∀ result, ¬ literal.HasType result := by
  simp only [Option.eq_none_iff_forall_ne_some, ne_eq, type?_eq_some_iff]

/-- A callee names a function of a signature. -/
def Context.Callee (context : Context) (callee : Expr) (signature : Signature) : Prop :=
  ∃ name symbol type declaration, callee = .identifier name symbol type ∧
    context.declaration? name.key = some declaration ∧ declaration.signature = some signature

mutual

/-- An expression in a context has a type. -/
inductive Expr.HasType (context : Context) : Expr → Ty → Prop where
  | binary {op : BinaryOp} {left right : Expr} {span : Span} {type : Option Ty}
      {leftType rightType result : Ty} :
      left.HasType context leftType → right.HasType context rightType →
      op.Yields leftType rightType result → HasType context (.binary op left right span type) result
  | unary {op : UnaryOp} {operand : Expr} {span : Span} {type : Option Ty}
      {operandType result : Ty} :
      operand.HasType context operandType → op.Yields operandType result →
      HasType context (.unary op operand span type) result
  | call {callee : Expr} {arguments : List Expr} {span : Span} {type : Option Ty}
      {signature : Signature} {types : List Ty} :
      context.Callee callee signature → Expr.HaveTypes context arguments types →
      List.Forall₂ Ty.AssignableTo types (signature.parameters.map WrittenType.type) →
      HasType context (.call callee arguments span type) signature.returnType.type
  | grouping {inner : Expr} {span : Span} {type : Option Ty} {result : Ty} :
      inner.HasType context result → HasType context (.grouping inner span type) result
  | literal {value : Literal} {span : Span} {type : Option Ty} {result : Ty} :
      value.HasType result → HasType context (.literal value span type) result
  | identifier {name : Name} {symbol : Option SymbolId} {type : Option Ty}
      {declaration : Declaration} :
      context.declaration? name.key = some declaration → declaration.kind ≠ .function →
      HasType context (.identifier name symbol type) declaration.type.type

/-- Several expressions in a context have types. -/
inductive Expr.HaveTypes (context : Context) : List Expr → List Ty → Prop where
  | nil : HaveTypes context [] []
  | cons {first : Expr} {rest : List Expr} {type : Ty} {types : List Ty} :
      first.HasType context type → Expr.HaveTypes context rest types →
      HaveTypes context (first :: rest) (type :: types)

end

/-- The first argument whose type its parameter does not take. -/
inductive WrittenType.FirstMismatch (source : SourceId) :
    List WrittenType → List Expr → List Ty → TypeError → Prop where
  | head {parameter : WrittenType} {parameters : List WrittenType} {argument : Expr}
      {arguments : List Expr} {type : Ty} {types : List Ty} :
      ¬ type.AssignableTo parameter.type →
      FirstMismatch source (parameter :: parameters) (argument :: arguments) (type :: types)
        ⟨source, argument.span,
          .mismatch (some parameter.type) (some type) (some parameter.span)⟩
  | tail {parameter : WrittenType} {parameters : List WrittenType} {argument : Expr}
      {arguments : List Expr} {type : Ty} {types : List Ty} {error : TypeError} :
      type.AssignableTo parameter.type → FirstMismatch source parameters arguments types error →
      FirstMismatch source (parameter :: parameters) (argument :: arguments) (type :: types) error

mutual

/--
The first violation of the typing rules in an expression, from left to right and from the leaves to
the root. In a call, the arguments come before their number, and their number before what the
parameters take.
-/
inductive Expr.FirstViolation (source : SourceId) (context : Context) :
    Expr → TypeError → Prop where
  | left {op : BinaryOp} {left right : Expr} {span : Span} {type : Option Ty} {error : TypeError} :
      left.FirstViolation source context error →
      FirstViolation source context (.binary op left right span type) error
  | right {op : BinaryOp} {left right : Expr} {span : Span} {type : Option Ty} {leftType : Ty}
      {error : TypeError} :
      left.HasType context leftType → right.FirstViolation source context error →
      FirstViolation source context (.binary op left right span type) error
  | binary {op : BinaryOp} {left right : Expr} {span : Span} {type : Option Ty}
      {leftType rightType : Ty} :
      left.HasType context leftType → right.HasType context rightType →
      (∀ result, ¬ op.Yields leftType rightType result) →
      FirstViolation source context (.binary op left right span type)
        ⟨source, span, .invalidBinary op.spelling (some leftType) (some rightType)⟩
  | operand {op : UnaryOp} {operand : Expr} {span : Span} {type : Option Ty} {error : TypeError} :
      operand.FirstViolation source context error →
      FirstViolation source context (.unary op operand span type) error
  | unary {op : UnaryOp} {operand : Expr} {span : Span} {type : Option Ty} {operandType : Ty} :
      operand.HasType context operandType → (∀ result, ¬ op.Yields operandType result) →
      FirstViolation source context (.unary op operand span type)
        ⟨source, span, .invalidUnary op.spelling (some operandType)⟩
  | argument {callee : Expr} {arguments : List Expr} {span : Span} {type : Option Ty}
      {signature : Signature} {error : TypeError} :
      context.Callee callee signature → Expr.FirstViolations source context arguments error →
      FirstViolation source context (.call callee arguments span type) error
  | arity {callee : Expr} {arguments : List Expr} {span : Span} {type : Option Ty}
      {signature : Signature} {types : List Ty} :
      context.Callee callee signature → Expr.HaveTypes context arguments types →
      arguments.length ≠ signature.parameters.length →
      FirstViolation source context (.call callee arguments span type)
        ⟨source, span,
          .arity signature.parameters.length arguments.length (some signature.name.span)⟩
  | mismatch {callee : Expr} {arguments : List Expr} {span : Span} {type : Option Ty}
      {signature : Signature} {types : List Ty} {error : TypeError} :
      context.Callee callee signature → Expr.HaveTypes context arguments types →
      arguments.length = signature.parameters.length →
      WrittenType.FirstMismatch source signature.parameters arguments types error →
      FirstViolation source context (.call callee arguments span type) error
  | inner {inner : Expr} {span : Span} {type : Option Ty} {error : TypeError} :
      inner.FirstViolation source context error →
      FirstViolation source context (.grouping inner span type) error
  | literal {value : Literal} {span : Span} {type : Option Ty} :
      (∀ result, ¬ value.HasType result) →
      FirstViolation source context (.literal value span type) ⟨source, span, .unsupportedLiteral⟩

/-- The first violation of the typing rules in several expressions. -/
inductive Expr.FirstViolations (source : SourceId) (context : Context) :
    List Expr → TypeError → Prop where
  | head {first : Expr} {rest : List Expr} {error : TypeError} :
      first.FirstViolation source context error →
      FirstViolations source context (first :: rest) error
  | tail {first : Expr} {rest : List Expr} {type : Ty} {error : TypeError} :
      first.HasType context type → Expr.FirstViolations source context rest error →
      FirstViolations source context (first :: rest) error

end

/-- A leaf keeps the typing rules. -/
inductive Leaf.WellTyped : Leaf → Prop where
  | expression {context : Context} {value : Expr} {type : Ty} :
      value.HasType context type → WellTyped ⟨context, .expression value⟩
  | uninitialized {context : Context} {decl : LetDecl} :
      decl.initializer = none → WellTyped ⟨context, .letDecl decl⟩
  | initialized {context : Context} {decl : LetDecl} {value : Expr} {type : Ty} :
      decl.initializer = some value → value.HasType context type →
      type.AssignableTo decl.type.type → WellTyped ⟨context, .letDecl decl⟩
  | returningNothing {context : Context} {returnType : WrittenType} :
      WellTyped ⟨context, .returning none returnType⟩
  | returning {context : Context} {value : Expr} {returnType : WrittenType} :
      value.HasType context returnType.type →
      WellTyped ⟨context, .returning (some value) returnType⟩

/-- The first violation of the typing rules in a leaf: those of its value come before its own. -/
inductive Leaf.FirstViolation (source : SourceId) : Leaf → TypeError → Prop where
  | value {leaf : Leaf} {value : Expr} {error : TypeError} :
      leaf.statement.value? = some value → value.FirstViolation source leaf.context error →
      FirstViolation source leaf error
  | initializer {context : Context} {decl : LetDecl} {value : Expr} {type : Ty} :
      decl.initializer = some value → value.HasType context type →
      ¬ type.AssignableTo decl.type.type →
      FirstViolation source ⟨context, .letDecl decl⟩
        ⟨source, value.span, .mismatch (some decl.type.type) (some type) (some decl.type.span)⟩
  | returning {context : Context} {value : Expr} {returnType : WrittenType} {type : Ty} :
      value.HasType context type → type ≠ returnType.type →
      FirstViolation source ⟨context, .returning (some value) returnType⟩
        ⟨source, value.span,
          .mismatch (some returnType.type) (some type) (some returnType.span)⟩

/-- What the typing rules say of a leaf: its first violation, or nothing if it keeps the rules. -/
inductive Leaf.HasVerdict (source : SourceId) (leaf : Leaf) : Option TypeError → Prop where
  | good : leaf.WellTyped → HasVerdict source leaf none
  | bad {error : TypeError} : leaf.FirstViolation source error → HasVerdict source leaf (some error)

end TypedLang
