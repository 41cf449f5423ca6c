import TypedLang.Diagnostic
import TypedLang.Token.Scan

/-!
# Lexical errors

A misspelling at its place in a source, and the report that tells the user about it.
-/

namespace TypedLang

/-- Bytes of a source that form no lexeme. -/
structure LexicalError where
  kind : LexicalErrorKind
  source : SourceId
  span : Span
  found : Bytes
  expected : Bytes
  deriving Repr, DecidableEq

namespace LexicalError

/-- A misspelling placed in a source. -/
def ofMisspelling (source : SourceId) (span : Span) (misspelling : Misspelling) : LexicalError :=
  ⟨misspelling.kind, source, span, misspelling.found, misspelling.expected⟩

/-- The code of a lexical error. -/
def code (error : LexicalError) : Code :=
  match error.kind with
  | .unexpectedCharacter => .unexpectedCharacter
  | .unterminatedLiteral => .invalidLiteral
  | .outOfRange => .invalidLiteral

/-- The message of a lexical error. -/
def message (error : LexicalError) : Bytes :=
  match error.kind with
  | .unexpectedCharacter =>
      Bytes.concat ["Expected to find ", Bytes.quoted error.expected, " but instead got ",
        Bytes.quoted error.found, "."]
  | .unterminatedLiteral => "Unterminated string literal."
  | .outOfRange => Bytes.concat ["The literal ", Bytes.quoted error.found, " is out of range."]

/-- The message of the label at the place of a lexical error. -/
def labelMessage (error : LexicalError) : Bytes :=
  match error.kind with
  | .unexpectedCharacter => "unexpected character"
  | .unterminatedLiteral =>
      Bytes.concat ["expected ", error.expected, " before the end of input"]
  | .outOfRange => Bytes.concat ["expected ", error.expected]

/-- The report about a lexical error. -/
def report (error : LexicalError) (registry : Registry) : Except Fault Report := do
  let label ← registry.label error.source error.span error.labelMessage
  Draft.empty |>.setSeverity .error |>.setCode error.code |>.setMessage error.message
    |>.addLabel label |>.build

end LexicalError

end TypedLang
