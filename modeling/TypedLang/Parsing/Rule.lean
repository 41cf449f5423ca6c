import TypedLang.Parsing.Error
import TypedLang.Program

/-!
# Grammar rules

A rule of the grammar reads a construct from the front of a list of tokens. It gives the construct
and the tokens behind it, or a failure: the tokens from the one to blame on, and the kinds that were
possible in its place. A failure without tokens means that the input ended inside the construct.

A rule looks at the next token before it takes it. To take a token where none is left is a failure
of its own kind, which stands for a defect of the rule and not of the input.

An attempt also lists failures from which a rule recovered on its way, as the rule for blocks does.
-/

namespace TypedLang

/-- Why a rule did not match. -/
structure Failure where
  rest : List Token
  expected : List TokenKind
  pastEnd : Bool
  deriving Repr, DecidableEq

namespace Failure

/-- Whether the input ended inside the construct, so that nothing is left to go on with. -/
def isFatal (failure : Failure) : Bool :=
  failure.rest.isEmpty

/-- A failure as an error of a source. -/
def error (source : SourceId) (failure : Failure) : ParseError :=
  if failure.pastEnd then ⟨source, .internalEndOfInput⟩
  else
    match failure.rest with
    | [] => ⟨source, .unexpectedEndOfInput failure.expected⟩
    | token :: _ =>
        ⟨source, .unexpectedToken (some token.span) (some token.kind) failure.expected⟩

end Failure

/-- A rule of the grammar. -/
abbrev Rule (Result : Type) := List Token → Except Failure (Result × List Token)

namespace Rule

variable {Result : Type}

/-- Blames the next token and names the kinds that were possible instead. -/
def reject (expected : List TokenKind) : Rule Result :=
  fun tokens => .error ⟨tokens, expected, false⟩

/-- Takes the next token, whatever it is. -/
def advance : Rule Token
  | [] => .error ⟨[], [], true⟩
  | token :: rest => .ok (token, rest)

/-- A token of one kind, given by its span. -/
def expect (kind : TokenKind) : Rule Span
  | [] => reject [kind] []
  | token :: rest =>
      if token.kind = kind then do
        let (taken, rest) ← advance (token :: rest)
        pure (taken.span, rest)
      else reject [kind] (token :: rest)

/-- A name. -/
def name : Rule Name
  | ⟨.identifier key, span⟩ :: rest => do
      let (taken, rest) ← advance (⟨.identifier key, span⟩ :: rest)
      pure (⟨key, taken.span⟩, rest)
  | tokens => reject [.identifier] tokens

/--
Constructs that each follow a comma, as long as there is a comma. The fuel bounds their number; a
rule that never gives back more tokens than it got needs no more than there are tokens.
-/
def afterCommas (element : Rule Result) : (fuel : Nat) → Rule (List Result)
  | 0, tokens => .ok ([], tokens)
  | fuel + 1, tokens =>
      match tokens with
      | ⟨.punct .comma, comma⟩ :: rest => do
          let (_, rest) ← advance (⟨.punct .comma, comma⟩ :: rest)
          let (first, rest) ← element rest
          let (others, rest) ← afterCommas element fuel rest
          pure (first :: others, rest)
      | _ => .ok ([], tokens)

/--
Constructs between commas up to a closing parenthesis, whose span is given with them. The list may
be empty, but no comma stands before the parenthesis.
-/
def closedList (element : Rule Result) : Rule (List Result × Span)
  | ⟨.punct .rightParen, close⟩ :: rest => do
      let (close, rest) ← expect (.punct .rightParen) (⟨.punct .rightParen, close⟩ :: rest)
      pure (([], close), rest)
  | tokens => do
      let (first, rest) ← element tokens
      let (others, rest) ← afterCommas element rest.length rest
      let (close, rest) ← expect (.punct .rightParen) rest
      pure ((first :: others, close), rest)

end Rule

/-- The result of a rule together with the failures from which it recovered. -/
structure Attempt (Result : Type) where
  failures : List Failure
  result : Except Failure (Result × List Token)

namespace Attempt

variable {Result Other : Type}

/-- The attempt of a rule that recovers from nothing. -/
def ofResult (result : Except Failure (Result × List Token)) : Attempt Result :=
  ⟨[], result⟩

/-- An attempt with another result of the same tokens. -/
def map (convert : Result → Other) (attempt : Attempt Result) : Attempt Other :=
  ⟨attempt.failures, attempt.result.map fun (value, rest) => (convert value, rest)⟩

/-- An attempt in front of which other failures happened. -/
def after (failures : List Failure) (attempt : Attempt Result) : Attempt Result :=
  { attempt with failures := failures ++ attempt.failures }

/-- An attempt and, if it succeeds, one on the tokens behind it. -/
def andThen (attempt : Attempt Result) (next : Result → List Token → Attempt Other) :
    Attempt Other :=
  match attempt.result with
  | .error failure => ⟨attempt.failures, .error failure⟩
  | .ok (value, rest) => (next value rest).after attempt.failures

end Attempt

end TypedLang
