import TypedLang.Proofs.Parsing.Expectations
import TypedLang.Proofs.Parsing.Lookahead
import TypedLang.Proofs.Parsing.Sentences

/-!
# The first parse error

The parser reports an error as soon as there is one, and not before: the tokens in front of the
first error start a sentence, and with the token that it blames they do not. What it names as
expected could indeed stand there.

The first half is what a failure expects. The second half is lookahead: in a sentence that goes on
behind the blamed token in another way, the parser would blame the same token.
-/

namespace TypedLang

/-- Some kinds of tokens are the first ones of a sentence, of which they may be all. -/
def StartsSentence (kinds : List TokenKind) : Prop :=
  ∃ more, kinds ++ more ∈ Nonterminal.program.language

/--
A first error stands where some tokens cease to start a sentence: at a token that does not continue
them, while every expected kind would, or behind all of them, where a sentence does not end.
-/
inductive ParseError.EndsPrefix (source : SourceId) : List Token → ParseError → Prop where
  | unexpectedToken {before after : List Token} {token : Token} {expected : List TokenKind} :
      StartsSentence (before.map Token.kind) →
      ¬ StartsSentence ((before ++ [token]).map Token.kind) →
      (∀ kind ∈ expected, StartsSentence (before.map Token.kind ++ [kind])) →
      token.kind ∉ expected →
      EndsPrefix source (before ++ token :: after)
        ⟨source, .unexpectedToken (some token.span) (some token.kind) expected⟩
  | unexpectedEndOfInput {tokens : List Token} {expected : List TokenKind} :
      StartsSentence (tokens.map Token.kind) →
      tokens.map Token.kind ∉ Nonterminal.program.language →
      (∀ kind ∈ expected, StartsSentence (tokens.map Token.kind ++ [kind])) →
      EndsPrefix source tokens ⟨source, .unexpectedEndOfInput expected⟩

/-- There is a token of every kind. -/
theorem TokenKind.exists_token (kind : TokenKind) : ∃ token : Token, token.kind = kind := by
  cases kind with
  | identifier => exact ⟨⟨.identifier 0, .single 0⟩, rfl⟩
  | integer => exact ⟨⟨.integer 0, .single 0⟩, rfl⟩
  | decimal => exact ⟨⟨.decimal ⟨0⟩, .single 0⟩, rfl⟩
  | string => exact ⟨⟨.string 0, .single 0⟩, rfl⟩
  | boolean => exact ⟨⟨.boolean true, .single 0⟩, rfl⟩
  | keyword word => exact ⟨⟨.keyword word, .single 0⟩, rfl⟩
  | typeName word => exact ⟨⟨.typeName word, .single 0⟩, rfl⟩
  | punct mark => exact ⟨⟨.punct mark, .single 0⟩, rfl⟩

theorem TokenKind.exists_tokens (kinds : List TokenKind) :
    ∃ tokens : List Token, tokens.map Token.kind = kinds := by
  induction kinds with
  | nil => exact ⟨[], rfl⟩
  | cons kind kinds ih =>
      rcases kind.exists_token with ⟨token, kind_eq⟩
      rcases ih with ⟨tokens, kinds_eq⟩
      exact ⟨token :: tokens, by rw [List.map_cons, kind_eq, kinds_eq]⟩

theorem StartsSentence.of_append {kinds more : List TokenKind}
    (starts : StartsSentence (kinds ++ more)) : StartsSentence kinds := by
  rcases starts with ⟨others, sentence⟩
  exact ⟨more ++ others, by rwa [← List.append_assoc]⟩

/-- What the kinds of some tokens start, tokens in front of others spell. -/
theorem StartsSentence.exists_spelled {tokens : List Token}
    (starts : StartsSentence (tokens.map Token.kind)) :
    ∃ others decls, InSequence False (Decl.Spelled False) (tokens ++ others) decls := by
  rcases starts with ⟨more, sentence⟩
  rcases TokenKind.exists_tokens more with ⟨others, rfl⟩
  rw [← List.map_append, Nonterminal.map_kind_mem_language_iff] at sentence
  rcases sentence with ⟨decls, spelled⟩
  exact ⟨others, decls, spelled⟩

theorem startsSentence_of_spelled {tokens others : List Token} {decls : List Decl}
    (spelled : InSequence False (Decl.Spelled False) (tokens ++ others) decls) :
    StartsSentence (tokens.map Token.kind) := by
  refine ⟨others.map Token.kind, ?_⟩
  rw [← List.map_append, Nonterminal.map_kind_mem_language_iff]
  exact ⟨decls, spelled⟩

/-- What a failure expects continues a sentence, and so there is one to continue. -/
theorem Failure.Expects.startsSentence {failure : Failure} {tokens : List Token}
    (expects : failure.Expects tokens fun used =>
      ∃ decls, InSequence False (Decl.Spelled False) used decls) :
    ∃ used, tokens = used ++ failure.rest ∧ StartsSentence (used.map Token.kind) ∧
      ∀ kind ∈ failure.expected, StartsSentence (used.map Token.kind ++ [kind]) := by
  rcases expects with ⟨used, tokens_eq, nonempty, possible⟩
  have continues : ∀ kind ∈ failure.expected,
      StartsSentence (used.map Token.kind ++ [kind]) := by
    intro kind member
    rcases possible kind member with ⟨token, more, rfl, decls, spelled⟩
    rw [← List.singleton_append, ← List.append_assoc] at spelled
    simpa using startsSentence_of_spelled spelled
  rcases List.exists_mem_of_ne_nil _ nonempty with ⟨kind, member⟩
  exact ⟨used, tokens_eq, (continues kind member).of_append, continues⟩

namespace Parsed

/-- Behind a token at which a program fails first, nothing makes a sentence of it. -/
theorem not_startsSentence_of_first_failure {before after : List Token} {token : Token}
    {expected : List TokenKind} {pastEnd : Bool} {fuel : Nat}
    (failed : (declarations fuel (before ++ token :: after)).2.head? =
      some ⟨token :: after, expected, pastEnd⟩) :
    ¬ StartsSentence ((before ++ [token]).map Token.kind) := by
  intro starts
  rcases starts.exists_spelled with ⟨other, decls, spelled⟩
  rw [List.append_assoc, List.singleton_append] at spelled
  have clean := declarations_eq_of_spelled spelled (Nat.le_refl _)
  have same := @first_failure_alike token after other expected pastEnd fuel before
    (before ++ token :: other).length (by simp) failed
  rw [clean] at same
  cases same

/--
The first parse error has the correct-prefix property. If it blames a token, the tokens in front of
that token start a sentence, with it they do not, and with a token of any expected kind in its place
they do; so its own kind is not among the expected ones. If it blames the end of the input, all
tokens together start a sentence but are none, and every expected kind continues them.
-/
theorem first_error_ends_prefix (source : SourceId) (tokens : List Token) (error : ParseError)
    (first : (ofTokens source tokens).errors.head? = some error) :
    error.EndsPrefix source tokens := by
  have errors_eq : (ofTokens source tokens).errors =
      (declarations tokens.length tokens).2.map (Failure.error source) := rfl
  rw [errors_eq, List.head?_map, Option.map_eq_some_iff] at first
  rcases first with ⟨failure, failed, rfl⟩
  have blames := declarations_blame _ _ failure (List.mem_of_head? failed)
  rcases (first_failure_expects _ tokens failure failed).startsSentence with
    ⟨used, tokens_eq, starts, continues⟩
  rcases failure with ⟨_ | ⟨token, after⟩, expected, pastEnd⟩
  · rw [List.append_nil] at tokens_eq
    subst tokens_eq
    cases blames.not_pastEnd
    refine .unexpectedEndOfInput starts ?_ continues
    intro sentence
    have clean := (errors_eq_nil_iff_spelled source tokens).mpr
      ((Nonterminal.map_kind_mem_language_iff .program tokens).mp sentence)
    rw [errors_eq, List.map_eq_nil_iff] at clean
    rw [clean] at failed
    cases failed
  · subst tokens_eq
    cases blames.not_pastEnd
    have stops := not_startsSentence_of_first_failure failed
    refine .unexpectedToken starts stops continues fun member => stops ?_
    simpa using continues _ member

end Parsed

/-- A brace where the first parameter of a function may stand. -/
theorem Parsed.first_error_ends_prefix_parameters :
    let tokens : List Token :=
      [⟨.keyword .funWord, .single 0⟩, ⟨.identifier 0, .single 1⟩, ⟨.punct .leftParen, .single 2⟩,
        ⟨.punct .leftBrace, .single 3⟩, ⟨.punct .rightBrace, .single 4⟩]
    let error : ParseError :=
      ⟨0, .unexpectedToken (some (.single 3)) (some (.punct .leftBrace)) [.identifier]⟩
    (ofTokens 0 tokens).errors.head? = some error ∧ error.EndsPrefix 0 tokens :=
  ⟨by decide, Parsed.first_error_ends_prefix 0 _ _ (by decide)⟩

end TypedLang
