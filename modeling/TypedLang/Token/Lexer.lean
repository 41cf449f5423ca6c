import TypedLang.Token.Error

/-!
# Lexers

A lexer hands out the tokens of one source, one at a time or all at once, and collects the errors
that it meets on the way. It interns the text of a token when it hands the token out.
-/

namespace TypedLang

/-- A lexer: the items that it has not reached yet, and what it collected so far. -/
structure Lexer where
  source : SourceId
  pending : List Item
  interner : Interner
  errors : List LexicalError
  deriving Repr

namespace Lexer

/-- A lexer at the start of a text. -/
def ofText (source : SourceId) (text : Bytes) (interner : Interner) : Lexer :=
  ⟨source, Item.list text, interner, []⟩

/-- A lexer at the start of a registered source. -/
def ofSource (registry : Registry) (id : SourceId) (interner : Interner) : Except Fault Lexer := do
  let source ← registry.get id
  pure (ofText id source.text interner)

/-- The first token among some items, and the lexer behind it; errors before it are collected. -/
def nextOf (lexer : Lexer) : List Item → Option Token × Lexer
  | [] => (none, { lexer with pending := [] })
  | item :: rest =>
      match item.result with
      | .ok lexeme =>
          let (lexeme, interner) := lexeme.intern lexer.interner
          (some ⟨lexeme, item.span⟩, { lexer with pending := rest, interner := interner })
      | .error misspelling =>
          let error := LexicalError.ofMisspelling lexer.source item.span misspelling
          nextOf { lexer with errors := lexer.errors ++ [error] } rest

/-- The next token, or none once the text is exhausted. -/
def next (lexer : Lexer) : Option Token × Lexer :=
  lexer.nextOf lexer.pending

/-- All tokens among some items, and the lexer behind them. -/
def tokensOf (lexer : Lexer) : List Item → List Token × Lexer
  | [] => ([], { lexer with pending := [] })
  | item :: rest =>
      match item.result with
      | .ok lexeme =>
          let (lexeme, interner) := lexeme.intern lexer.interner
          let (tokens, lexer) := tokensOf { lexer with interner := interner } rest
          (⟨lexeme, item.span⟩ :: tokens, lexer)
      | .error misspelling =>
          let error := LexicalError.ofMisspelling lexer.source item.span misspelling
          tokensOf { lexer with errors := lexer.errors ++ [error] } rest

/-- All tokens that are left. -/
def tokenize (lexer : Lexer) : List Token × Lexer :=
  lexer.tokensOf lexer.pending

/-- The errors collected so far, and a lexer that has collected none. -/
def takeErrors (lexer : Lexer) : List LexicalError × Lexer :=
  (lexer.errors, { lexer with errors := [] })

end Lexer

end TypedLang
