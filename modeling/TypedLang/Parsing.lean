import TypedLang.Parsing.Declaration

/-!
# Parsing programs

A program is parsed declaration by declaration. A failure is recorded and the parser goes on where
the next declaration may start, so one run reports many failures and still gives a tree of all
that could be read. Only the end of the input inside a declaration stops it.
-/

namespace TypedLang

/-- A parsed program and the errors on the way; the tree is complete if there are none. -/
structure Parsed where
  program : Program
  errors : List ParseError
  deriving Repr

namespace Parsed

/-- Whether the program is free of parse errors. -/
def success (parsed : Parsed) : Bool :=
  parsed.errors.isEmpty

/--
The declarations among some tokens and the failures on the way. Every step takes a token, so fuel
for as many steps as there are tokens lasts to the end.
-/
def declarations : (fuel : Nat) → List Token → List Decl × List Failure
  | 0, _ => ([], [])
  | _ + 1, [] => ([], [])
  | fuel + 1, token :: rest =>
      let attempt := Rule.declaration (token :: rest)
      match attempt.result with
      | .ok (first, rest) =>
          let (others, failures) := declarations fuel rest
          (first :: others, attempt.failures ++ failures)
      | .error failure =>
          if failure.isFatal then ([], attempt.failures ++ [failure])
          else
            let progressed := decide (failure.rest.length < rest.length + 1)
            let (others, failures) :=
              declarations fuel (Recovery.inProgram progressed 0 failure.rest)
            (others, attempt.failures ++ failure :: failures)

/-- The span from the first to the last of some tokens, empty at zero if there are none. -/
def spanOf (tokens : List Token) : Span :=
  match tokens.head?, tokens.getLast? with
  | some first, some last => first.span.combine last.span
  | _, _ => .single 0

/-- The program that some tokens of a source form. -/
def ofTokens (source : SourceId) (tokens : List Token) : Parsed :=
  let (declarations, failures) := declarations tokens.length tokens
  ⟨⟨declarations, source, spanOf tokens⟩, failures.map (Failure.error source)⟩

end Parsed

end TypedLang
