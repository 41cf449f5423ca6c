import TypedLang.Source

/-!
# Diagnostics

A report tells the user about one mistake: how severe it is, its numeric code, a message, labels
that point into sources, and notes. Two labels of one report never share an offset of the same
source, with the offset at the stop of a span counted in. A draft collects the parts of a report
in any order and checks them once, when the report is built.
-/

namespace TypedLang

/-- How severe a report is. -/
inductive Severity where
  | help | note | warning | error | bug
  deriving Repr, DecidableEq

namespace Severity

/-- The name of a severity, as printed in front of a report. -/
def name : Severity → String
  | help => "help"
  | note => "note"
  | warning => "warning"
  | error => "error"
  | bug => "bug"

/-- The rank of a severity, from the mildest on. -/
def rank : Severity → Nat
  | help => 0
  | note => 1
  | warning => 2
  | error => 3
  | bug => 4

/-- Whether a report of a severity makes a run fail. -/
def isFailure : Severity → Bool
  | error => true
  | bug => true
  | _ => false

end Severity

/-- The numeric code of a kind of report. -/
structure Code where
  number : UInt16
  deriving Repr, DecidableEq

namespace Code

/-- A byte that starts no token. -/
def unexpectedCharacter : Code := ⟨1⟩

/-- A literal that is not closed or whose value is out of range. -/
def invalidLiteral : Code := ⟨2⟩

/-- A token that the grammar does not allow at its place. -/
def unexpectedToken : Code := ⟨10⟩

/-- A program that ends too early. -/
def unexpectedEndOfInput : Code := ⟨11⟩

/-- A parser that reads on behind the end, which is a defect of the parser. -/
def internalEndOfInput : Code := ⟨12⟩

/-- A name without a visible declaration. -/
def symbolNotFound : Code := ⟨20⟩

/-- A declaration of a name that is taken. -/
def nameAlreadyUsed : Code := ⟨21⟩

/-- A function where a variable is needed, or the other way round. -/
def kindMismatch : Code := ⟨22⟩

/-- Operands that a binary operator does not take. -/
def invalidBinaryType : Code := ⟨30⟩

/-- An operand that a unary operator does not take. -/
def invalidUnaryType : Code := ⟨31⟩

/-- A value of another type than expected. -/
def typeMismatch : Code := ⟨32⟩

/-- A call with too few or too many arguments. -/
def invalidArity : Code := ⟨33⟩

/-- A literal that cannot be used as a value. -/
def unsupportedLiteral : Code := ⟨34⟩

/-- A symbol that is given a type twice, which is a defect of the checker. -/
def typeAlreadyAssigned : Code := ⟨37⟩

/-- An expression whose type is not known, which is a defect of the checker. -/
def missingType : Code := ⟨38⟩

/-- A node that no symbol was bound to, which is a defect of an earlier stage. -/
def missingSymbol : Code := ⟨39⟩

/-- A code as it is printed: at least four digits behind a letter. -/
def text (code : Code) : Bytes :=
  let digits := Bytes.ofNat code.number.toNat
  Bytes.concat ["E", List.replicate (4 - digits.length) Byte.zero, digits]

end Code

/--
A span of a source that a report points to. The lines that the span touches, counted from zero, are
known once the label was made from a registry.
-/
structure Label where
  source : SourceId
  span : Span
  message : Option Bytes := none
  lines : Option Span := none
  deriving Repr, DecidableEq

namespace Label

/-- Whether a label is known to touch more than one line. -/
def isMultiline (label : Label) : Bool :=
  match label.lines with
  | some lines => !lines.isEmpty
  | none => false

/-- Whether two labels share an offset of one source. -/
def overlaps (left right : Label) : Bool :=
  left.source == right.source && left.span.intersects right.span

end Label

/-- A label with its lines looked up, refused for an unknown source. -/
def Registry.label (registry : Registry) (id : SourceId) (span : Span)
    (message : Option Bytes := none) : Except Fault Label := do
  let source ← registry.get id
  let lines ← source.lineSpan span
  pure ⟨id, span, message, lines⟩

/-- A finished report. -/
structure Report where
  severity : Severity
  code : Code
  message : Bytes
  labels : List Label
  notes : List Bytes
  deriving Repr, DecidableEq

/-- Whether a list of reports makes a run fail. -/
def Report.anyFailure (reports : List Report) : Bool :=
  reports.any fun report => report.severity.isFailure

/-- A report in the making, its labels and notes in the order in which they were added. -/
structure Draft where
  message : Option Bytes := none
  code : Option Code := none
  severity : Option Severity := none
  labels : List Label := []
  notes : List Bytes := []
  deriving Repr, DecidableEq

namespace Draft

/-- The draft without any part. -/
def empty : Draft := {}

/-- Sets the message, in place of an earlier one. -/
def setMessage (draft : Draft) (message : Bytes) : Draft :=
  { draft with message := some message }

/-- Sets the code, in place of an earlier one. -/
def setCode (draft : Draft) (code : Code) : Draft :=
  { draft with code := some code }

/-- Sets the severity, in place of an earlier one. -/
def setSeverity (draft : Draft) (severity : Severity) : Draft :=
  { draft with severity := some severity }

/-- Adds a label behind the earlier ones. -/
def addLabel (draft : Draft) (label : Label) : Draft :=
  { draft with labels := draft.labels ++ [label] }

/-- Adds a note behind the earlier ones. -/
def addNote (draft : Draft) (note : Bytes) : Draft :=
  { draft with notes := draft.notes ++ [note] }

/-- Whether any label overlaps one behind it. -/
def anyOverlap : List Label → Bool
  | [] => false
  | label :: rest => rest.any label.overlaps || anyOverlap rest

/-- The finished report, refused if a part is missing or two labels overlap. -/
def build (draft : Draft) : Except Fault Report := do
  let some message := draft.message | .error .missingMessage
  let some code := draft.code | .error .missingCode
  let some severity := draft.severity | .error .missingSeverity
  if anyOverlap draft.labels then .error .overlappingLabels
  else .ok ⟨severity, code, message, draft.labels, draft.notes⟩

end Draft

end TypedLang
