import TypedLang.Diagnostic
import TypedLang.Token

/-!
# Parse errors

A parse error names the kinds of tokens that the grammar allows where the parser stopped, and the
token that it found there unless the input had ended.
-/

namespace TypedLang

/-- Why a program could not be parsed. -/
inductive ParseErrorCause where
  | unexpectedToken (span : Option Span) (got : Option TokenKind) (expected : List TokenKind)
  | unexpectedEndOfInput (expected : List TokenKind)
  | internalEndOfInput
  deriving Repr, DecidableEq

/-- A parse error in a source. -/
structure ParseError where
  source : SourceId
  cause : ParseErrorCause
  deriving Repr, DecidableEq

namespace ParseError

/-- The descriptions of some kinds, the last one set off by a word, the others by commas. -/
def alternatives : List TokenKind → Bytes
  | [] => []
  | [kind] => kind.describe
  | [first, last] => Bytes.concat [first.describe, " or ", last.describe]
  | first :: rest => Bytes.concat [first.describe, ", ", alternatives rest]

/-- The description of the token that was found. -/
def found : Option TokenKind → Bytes
  | none => "a token"
  | some kind => kind.describe

/-- The severity of a parse error; reading behind the end would be a defect of the parser. -/
def severity (error : ParseError) : Severity :=
  match error.cause with
  | .unexpectedToken _ _ _ => .error
  | .unexpectedEndOfInput _ => .error
  | .internalEndOfInput => .bug

/-- The code of a parse error. -/
def code (error : ParseError) : Code :=
  match error.cause with
  | .unexpectedToken _ _ _ => .unexpectedToken
  | .unexpectedEndOfInput _ => .unexpectedEndOfInput
  | .internalEndOfInput => .internalEndOfInput

/-- The message of a parse error. -/
def message (error : ParseError) : Bytes :=
  match error.cause with
  | .unexpectedToken _ got expected =>
      Bytes.concat
        ["Expected to find ", alternatives expected, " but instead got ", found got, "."]
  | .unexpectedEndOfInput expected =>
      Bytes.concat ["Unexpected end of input, expected to find ", alternatives expected, "."]
  | .internalEndOfInput => "The parser tried to read past the end of the input."

/-- The labels of a parse error: the token that was found, if there is one. -/
def labels (error : ParseError) (registry : Registry) : Except Fault (List Label) :=
  match error.cause with
  | .unexpectedToken (some span) got _ => do
      let label ← registry.label error.source span (some (Bytes.concat ["found ", found got]))
      pure [label]
  | _ => pure []

/-- The report about a parse error. -/
def report (error : ParseError) (registry : Registry) : Except Fault Report := do
  let labels ← error.labels registry
  let draft := Draft.empty |>.setSeverity error.severity |>.setCode error.code
    |>.setMessage error.message
  (labels.foldl Draft.addLabel draft).build

end ParseError

end TypedLang
