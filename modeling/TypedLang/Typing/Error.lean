import TypedLang.Diagnostic
import TypedLang.Program

/-!
# Type errors

A type error is a violation of the typing rules, or one of three defects of an earlier stage: a
symbol that is given a type twice, an expression without a type, a node without a symbol. Types
that are not known are shown as such in messages.
-/

namespace TypedLang

/-- Why a statement is ill-typed. -/
inductive TypeErrorCause where
  | invalidBinary (op : Bytes) (left right : Option Ty)
  | invalidUnary (op : Bytes) (operand : Option Ty)
  | mismatch (expected got : Option Ty) (declaration : Option Span)
  | arity (expected got : Nat) (declaration : Option Span)
  | unsupportedLiteral
  | typeAlreadyAssigned
  | missingType
  | missingSymbol
  deriving Repr, DecidableEq

/-- A type error at its place in a source. -/
structure TypeError where
  source : SourceId
  span : Span
  cause : TypeErrorCause
  deriving Repr, DecidableEq

namespace TypeError

/-- A type between single quotes. -/
def typeText : Option Ty → Bytes
  | none => "'<unknown>'"
  | some type => Bytes.quoted type.name

/-- The severity of a type error; defects of the program that checks are no mistakes of the user. -/
def severity (error : TypeError) : Severity :=
  match error.cause with
  | .typeAlreadyAssigned => .bug
  | .missingType => .bug
  | .missingSymbol => .bug
  | _ => .error

/-- The code of a type error. -/
def code (error : TypeError) : Code :=
  match error.cause with
  | .invalidBinary _ _ _ => .invalidBinaryType
  | .invalidUnary _ _ => .invalidUnaryType
  | .mismatch _ _ _ => .typeMismatch
  | .arity _ _ _ => .invalidArity
  | .unsupportedLiteral => .unsupportedLiteral
  | .typeAlreadyAssigned => .typeAlreadyAssigned
  | .missingType => .missingType
  | .missingSymbol => .missingSymbol

/-- The message of a type error. -/
def message (error : TypeError) : Bytes :=
  match error.cause with
  | .invalidBinary op left right =>
      Bytes.concat ["The operator ", Bytes.quoted op, " cannot be applied to ", typeText left,
        " and ", typeText right, "."]
  | .invalidUnary op operand =>
      Bytes.concat
        ["The operator ", Bytes.quoted op, " cannot be applied to ", typeText operand, "."]
  | .mismatch expected got _ =>
      Bytes.concat ["Expected the type ", typeText expected, " but found ", typeText got, "."]
  | .arity expected got _ =>
      Bytes.concat
        ["Expected ", Bytes.ofNat expected, " argument(s) but got ", Bytes.ofNat got, "."]
  | .unsupportedLiteral => "String literals cannot be used as values."
  | .typeAlreadyAssigned => "Internal error: a symbol was assigned a type twice."
  | .missingType => "Internal error: no type was computed for this expression."
  | .missingSymbol => "Internal error: no symbol was resolved for this node."

/-- The message of the label at the place of a type error. -/
def labelMessage (error : TypeError) : Option Bytes :=
  match error.cause with
  | .invalidBinary _ _ _ => some "invalid operand types"
  | .invalidUnary _ _ => some "invalid operand type"
  | .mismatch _ got _ => some (Bytes.concat ["found ", typeText got])
  | .arity _ _ _ => some "called here"
  | .unsupportedLiteral => some "string literal"
  | .typeAlreadyAssigned => none
  | .missingType => none
  | .missingSymbol => none

/-- The declaration that a type error refers to, with the message of its label. -/
def origin (error : TypeError) : Option (Span × Bytes) :=
  match error.cause with
  | .mismatch _ _ declaration => declaration.map (·, "expected because of this")
  | .arity _ _ declaration => declaration.map (·, "function declared here")
  | _ => none

/-- The labels of a type error: the declaration, if there is one, and the place. -/
def labels (error : TypeError) (registry : Registry) : Except Fault (List Label) :=
  match error.origin with
  | none => do
      let place ← registry.label error.source error.span error.labelMessage
      pure [place]
  | some (span, message) => do
      let origin ← registry.label error.source span (some message)
      let place ← registry.label error.source error.span error.labelMessage
      pure [origin, place]

/-- The report about a type error. -/
def report (error : TypeError) (registry : Registry) : Except Fault Report := do
  let labels ← error.labels registry
  let draft := Draft.empty |>.setSeverity error.severity |>.setCode error.code
    |>.setMessage error.message
  (labels.foldl Draft.addLabel draft).build

end TypeError

end TypedLang
