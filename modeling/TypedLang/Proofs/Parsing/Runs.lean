import TypedLang.Proofs.Parsing.Bodies
import TypedLang.Proofs.Parsing.Peeking

/-!
# Runs of the parser

The loops over the statements of a block and over the declarations of a program, told without a
bound on their rounds: tokens are related to what the loop makes of them if finitely many rounds
lead there. The parser follows both relations on all tokens, so no loop goes on for ever, whatever
fails on the way. The run over a program ends where every token is read.
-/

namespace TypedLang

namespace Recovery

/-- The kinds in front of which a recovery inside a block may stop. -/
def ResumesBlock (kind : TokenKind) : Prop :=
  kind = .punct .rightBrace ∨ kind = .keyword .letWord ∨ kind = .keyword .returnWord

/-- The kinds in front of which a recovery among declarations may stop. -/
def ResumesProgram (kind : TokenKind) : Prop :=
  kind = .keyword .funWord ∨ kind = .keyword .structWord ∨ kind = .keyword .letWord

variable {token : Token} {rest : List Token} {progressed : Bool}

/--
A recovery inside a block drops the next token or stops in front of it. A keyword stops it only if
there was progress before.
-/
theorem inBlock_drops_or_stops (progressed : Bool) (token : Token) (rest : List Token) :
    inBlock progressed 0 (token :: rest) <:+ rest ∨
      inBlock progressed 0 (token :: rest) = token :: rest ∧ ResumesBlock token.kind ∧
        (progressed = true ∨ token.kind = .punct .rightBrace) := by
  rcases (inBlock_runs progressed 0 (token :: rest)).drops_or_stops with
    drops | ⟨kept, _, close | ⟨progress, keyword⟩⟩
  · exact .inl drops
  · exact .inr ⟨kept, .inl close, .inr close⟩
  · exact .inr ⟨kept, .inr keyword, .inl progress⟩

/-- A recovery among declarations drops the next token or, after progress, stops in front of it. -/
theorem inProgram_drops_or_stops (progressed : Bool) (token : Token) (rest : List Token) :
    inProgram progressed 0 (token :: rest) <:+ rest ∨
      inProgram progressed 0 (token :: rest) = token :: rest ∧ ResumesProgram token.kind ∧
        progressed = true := by
  rcases (inProgram_runs progressed 0 (token :: rest)).drops_or_stops with
    drops | ⟨kept, progress, _, keyword⟩
  · exact .inl drops
  · exact .inr ⟨kept, keyword, progress⟩

end Recovery

/-- The tokens with which a block goes on after a statement of it failed. -/
def Failure.blockRecovery (failure : Failure) (tokens : List Token) : List Token :=
  Recovery.inBlock (decide (failure.rest.length < tokens.length)) 0 failure.rest

namespace Rule

/--
Behind the recovery from a failed statement, the block goes on behind the blamed token, or with the
blamed token itself if a new statement or the end of the block may be there.
-/
theorem blockRecovery_cases {tokens : List Token} {failure : Failure} {token : Token}
    {rest : List Token} (rest_eq : failure.rest = token :: rest) :
    failure.blockRecovery tokens <:+ rest ∨
      failure.blockRecovery tokens = failure.rest ∧ Recovery.ResumesBlock token.kind := by
  rw [Failure.blockRecovery, rest_eq]
  rcases Recovery.inBlock_drops_or_stops (decide ((token :: rest).length < tokens.length)) token rest
    with drops | ⟨stops, resumes, _⟩
  · exact .inl drops
  · exact .inr ⟨stops, resumes⟩

/-- Behind the recovery from a failed statement there are fewer tokens than in front of it. -/
theorem length_blockRecovery_lt {tokens : List Token} {failure : Failure}
    (failed : statement tokens = .error failure) (noBlock : StartsOffBraces tokens)
    (more : failure.rest ≠ []) : (failure.blockRecovery tokens).length < tokens.length := by
  have suffix := ((statement_reads False).error failed).suffix
  rcases List.exists_cons_of_ne_nil more with ⟨token, rest, rest_eq⟩
  rw [rest_eq] at suffix
  have rest_le := suffix.length_le
  rw [Failure.blockRecovery, rest_eq]
  rcases Recovery.inBlock_drops_or_stops (decide ((token :: rest).length < tokens.length)) token rest
    with drops | ⟨stops, _, progressed | closes⟩
  · have dropped_le := drops.length_le
    rw [List.length_cons] at rest_le
    omega
  · rw [stops]
    exact of_decide_eq_true progressed
  · -- A statement starts off braces, so a closing brace is blamed only behind its first token.
    rw [stops]
    refine Nat.lt_of_le_of_ne rest_le fun same => ?_
    rcases noBlock with ⟨first, others, rfl, _, noClose⟩
    cases suffix.eq_of_length same
    exact noClose closes

/--
What the rest of a block behind its opening brace comes to. The loop ends at the closing brace of
the block, at the end of the input, or where a statement runs into that end.
-/
inductive BlockRuns : List Token → Attempt (List Stmt × Span) → Prop where
  | ended : BlockRuns [] ⟨[], .error ⟨[], [.punct .rightBrace], false⟩⟩
  | closed {close : Span} {rest : List Token} :
      BlockRuns (⟨.punct .rightBrace, close⟩ :: rest) ⟨[], .ok (([], close), rest)⟩
  | block {opening : Span} {tokens rest : List Token} {inner others : Attempt (List Stmt × Span)}
      {block : List Stmt × Span} :
      BlockRuns tokens inner → inner.result = .ok (block, rest) → BlockRuns rest others →
      BlockRuns (⟨.punct .leftBrace, opening⟩ :: tokens)
        ((others.map fun (others, close) =>
          (.block block.1 (opening.combine block.2) :: others, close)).after inner.failures)
  | unclosed {opening : Span} {tokens : List Token} {inner : Attempt (List Stmt × Span)}
      {failure : Failure} :
      BlockRuns tokens inner → inner.result = .error failure →
      BlockRuns (⟨.punct .leftBrace, opening⟩ :: tokens) inner
  | statement {tokens rest : List Token} {first : Stmt} {others : Attempt (List Stmt × Span)} :
      StartsOffBraces tokens → statement tokens = .ok (first, rest) → BlockRuns rest others →
      BlockRuns tokens (others.map fun (others, close) => (first :: others, close))
  | recovered {tokens : List Token} {failure : Failure} {others : Attempt (List Stmt × Span)} :
      StartsOffBraces tokens → statement tokens = .error failure → failure.rest ≠ [] →
      BlockRuns (failure.blockRecovery tokens) others →
      BlockRuns tokens (others.after [failure])
  | stopped {tokens : List Token} {failure : Failure} :
      StartsOffBraces tokens → statement tokens = .error failure → failure.rest = [] →
      BlockRuns tokens ⟨[], .error failure⟩

/-- A block ends at once, starts with a brace, or starts with a statement that is no block. -/
theorem block_cases (tokens : List Token) :
    tokens = [] ∨ (∃ close rest, tokens = ⟨.punct .rightBrace, close⟩ :: rest) ∨
      (∃ opening rest, tokens = ⟨.punct .leftBrace, opening⟩ :: rest) ∨ StartsOffBraces tokens := by
  cases tokens with
  | nil => exact .inl rfl
  | cons token rest =>
      by_cases closes : token.kind = .punct .rightBrace
      · exact .inr (.inl ⟨token.span, rest, by rw [← eq_of_kind_punct closes]⟩)
      by_cases opens : token.kind = .punct .leftBrace
      · exact .inr (.inr (.inl ⟨token.span, rest, by rw [← eq_of_kind_punct opens]⟩))
      · exact .inr (.inr (.inr ⟨token, rest, rfl, opens, closes⟩))

/-- A block stops where a statement of it that is no block runs into the end of the input. -/
theorem blockRest_of_fatal {tokens : List Token} {failure : Failure}
    (failed : Rule.statement tokens = .error failure) (nothing : failure.rest = [])
    (noBlock : StartsOffBraces tokens) (fuel : Nat) :
    blockRest (fuel + 1) tokens = ⟨[], .error failure⟩ := by
  have fatal : failure.isFatal = true := by simp [Failure.isFatal, nothing]
  rcases noBlock with ⟨token, others, rfl, noOpening, noClose⟩
  unfold blockRest
  split
  · rename_i tokens_eq
    cases tokens_eq
  · rename_i tokens_eq
    cases tokens_eq
    exact absurd rfl noClose
  · rename_i tokens_eq
    cases tokens_eq
    exact absurd rfl noOpening
  · simp only [failed, fatal, if_true]
    rfl

/-- A block stops where a block inside it is not closed. -/
theorem blockRest_of_unclosed {fuel : Nat} {tokens : List Token} {failure : Failure}
    (failed : (blockRest fuel tokens).result = .error failure) (opening : Span) :
    blockRest (fuel + 1) (⟨.punct .leftBrace, opening⟩ :: tokens) = blockRest fuel tokens := by
  simp only [blockRest, expect_punct, Attempt.ofResult_andThen]
  rw [Attempt.andThen, failed]
  exact congrArg (Attempt.mk _) failed.symm

/-- The parser follows the run over a block to its end: each round leaves fewer tokens. -/
theorem blockRest_runs {fuel : Nat} {tokens : List Token} (enough : tokens.length ≤ fuel) :
    BlockRuns tokens (blockRest fuel tokens) := by
  induction fuel generalizing tokens with
  | zero =>
      rw [List.length_eq_zero_iff.mp (Nat.le_zero.mp enough)]
      exact .ended
  | succ fuel ih =>
      rcases block_cases tokens with rfl | ⟨close, rest, rfl⟩ | ⟨opening, rest, rfl⟩ | noBlock
      · exact .ended
      · exact .closed
      · have inner := ih (Nat.le_of_succ_le_succ enough)
        cases inner_eq : (blockRest fuel rest).result with
        | error failure =>
            rw [blockRest_of_unclosed inner_eq]
            exact .unclosed inner inner_eq
        | ok taken =>
            rcases taken with ⟨block, behind⟩
            have shorter : behind.length ≤ fuel := by
              rcases (blockRest_reads fuel rest).ok inner_eq with ⟨used, rfl, _⟩
              simp only [List.length_cons, List.length_append] at enough
              omega
            rw [blockRest_of_block inner_eq]
            exact .block inner inner_eq (ih shorter)
      · cases statement_eq : Rule.statement tokens with
        | ok taken =>
            have shorter := length_lt_of_statement statement_eq
            rw [blockRest_of_statement statement_eq noBlock]
            exact .statement noBlock statement_eq (ih (by omega))
        | error failure =>
            by_cases more : failure.rest = []
            · rw [blockRest_of_fatal statement_eq more noBlock]
              exact .stopped noBlock statement_eq more
            · have shorter := length_blockRecovery_lt statement_eq noBlock more
              rw [blockRest_of_failure statement_eq more noBlock]
              exact .recovered noBlock statement_eq more (ih (by omega))

/-- What one declaration comes to. -/
inductive DeclarationRuns : List Token → Attempt Decl → Prop where
  | header {keyword : Span} {tokens : List Token} {failure : Failure} :
      funHeader tokens = .error failure →
      DeclarationRuns (⟨.keyword .funWord, keyword⟩ :: tokens) ⟨[], .error failure⟩
  | function {keyword : Span} {tokens rest : List Token} {header : FunHeader}
      {body : Attempt (List Stmt × Span)} :
      funHeader tokens = .ok (header, rest) → BlockRuns rest body →
      DeclarationRuns (⟨.keyword .funWord, keyword⟩ :: tokens)
        ((body.map fun (statements, close) => header.declares keyword statements close).map
          .funDecl)
  | letDecl {keyword : Span} {tokens : List Token} :
      DeclarationRuns (⟨.keyword .letWord, keyword⟩ :: tokens)
        ((Attempt.ofResult (Rule.letDecl keyword tokens)).map .letDecl)
  | refused {token : Token} {tokens : List Token} :
      token.kind ≠ .keyword .funWord → token.kind ≠ .keyword .letWord →
      DeclarationRuns (token :: tokens)
        ⟨[], .error ⟨token :: tokens, [.keyword .funWord, .keyword .letWord], false⟩⟩

theorem DeclarationRuns.exists_cons {tokens : List Token} {attempt : Attempt Decl}
    (runs : DeclarationRuns tokens attempt) : ∃ token others, tokens = token :: others := by
  cases runs <;> exact ⟨_, _, rfl⟩

/-- The parser follows the run over a declaration to its end. -/
theorem declaration_runs (token : Token) (tokens : List Token) :
    DeclarationRuns (token :: tokens) (declaration (token :: tokens)) := by
  by_cases isFun : token.kind = .keyword .funWord
  · rw [eq_of_kind_keyword isFun]
    simp only [declaration, expect_keyword, Attempt.ofResult_andThen, funDecl]
    cases header_eq : funHeader tokens with
    | error failure => exact .header header_eq
    | ok taken =>
        rw [Attempt.ofResult_andThen]
        exact .function header_eq (blockRest_runs (Nat.le_refl _))
  · by_cases isLet : token.kind = .keyword .letWord
    · rw [eq_of_kind_keyword isLet]
      simp only [declaration, expect_keyword, Attempt.ofResult_andThen]
      exact .letDecl
    · rw [declaration_eq]
      simp only [List.head?_cons, Option.map_some, Option.some.injEq, isFun, isLet, if_false]
      exact .refused isFun isLet

end Rule

namespace Parsed

/--
What the loop over the declarations of a program comes to: the declarations, the failures and the
tokens that are not read. It ends at the end of the input, or where a declaration runs into that end.
-/
inductive Runs : List Token → List Decl → List Failure → List Token → Prop where
  | ended : Runs [] [] [] []
  | declared {tokens rest left : List Token} {attempt : Attempt Decl} {first : Decl}
      {others : List Decl} {failures : List Failure} :
      Rule.DeclarationRuns tokens attempt → attempt.result = .ok (first, rest) →
      Runs rest others failures left →
      Runs tokens (first :: others) (attempt.failures ++ failures) left
  | recovered {tokens left : List Token} {attempt : Attempt Decl} {failure : Failure}
      {others : List Decl} {failures : List Failure} :
      Rule.DeclarationRuns tokens attempt → attempt.result = .error failure → failure.rest ≠ [] →
      Runs (failure.recovery tokens) others failures left →
      Runs tokens others (attempt.failures ++ failure :: failures) left
  | stopped {tokens : List Token} {attempt : Attempt Decl} {failure : Failure} :
      Rule.DeclarationRuns tokens attempt → attempt.result = .error failure → failure.rest = [] →
      Runs tokens [] (attempt.failures ++ [failure]) failure.rest

/-- The parser follows the run over a program to its end, where every token is read. -/
theorem declarations_runs {fuel : Nat} {tokens : List Token} (enough : tokens.length ≤ fuel) :
    Runs tokens (declarations fuel tokens).1 (declarations fuel tokens).2 [] := by
  induction fuel generalizing tokens with
  | zero =>
      rw [List.length_eq_zero_iff.mp (Nat.le_zero.mp enough)]
      exact .ended
  | succ fuel ih =>
      cases tokens with
      | nil => exact .ended
      | cons token tokens =>
          have attempt := Rule.declaration_runs token tokens
          cases result_eq : (Rule.declaration (token :: tokens)).result with
          | ok taken =>
              have shorter := Rule.length_lt_of_declaration result_eq
              rw [declarations_of_ok result_eq]
              exact .declared attempt result_eq (ih (by omega))
          | error failure =>
              by_cases more : failure.rest = []
              · have stopped := Runs.stopped attempt result_eq more
                rw [more] at stopped
                simpa [declarations, result_eq, Failure.isFatal, more] using stopped
              · have shorter := Rule.length_recovery_lt result_eq more
                rw [declarations_of_error result_eq more (List.cons_ne_nil token tokens)]
                exact .recovered attempt result_eq more (ih (by omega))

end Parsed

end TypedLang
