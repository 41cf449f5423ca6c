import TypedLang.Proofs.Parsing.Braces
import TypedLang.Proofs.Parsing.Progress

/-!
# Broken bodies

However malformed the body of a function is, its closing brace ends it as long as its braces are
balanced. A statement takes no brace, a block in the body ends at its own closing brace, and a
recovery stays in front of the closing brace of the body. So every step of the parser leaves a rest
of the body that is balanced again and shorter.
-/

namespace TypedLang

/-- A failure blames one of some tokens. -/
def Failure.BlamesOneOf (failure : Failure) (tokens : List Token) : Prop :=
  failure.pastEnd = false ∧ ∃ token ∈ tokens, failure.rest.head? = some token

theorem Failure.BlamesOneOf.of_subset {failure : Failure} {fewer tokens : List Token}
    (blames : failure.BlamesOneOf fewer) (subset : fewer ⊆ tokens) :
    failure.BlamesOneOf tokens := by
  rcases blames with ⟨notPastEnd, token, member, blamed⟩
  exact ⟨notPastEnd, token, subset member, blamed⟩

/-- A failure in front of the closing brace of a block, or at it, blames a token up to there. -/
theorem Failure.BlamesOneOf.of_rest {failure : Failure} {stuck body rest : List Token}
    {close : Token} (notPastEnd : failure.pastEnd = false)
    (rest_eq : failure.rest = stuck ++ close :: rest) (suffix : stuck <:+ body) : failure.BlamesOneOf (body ++ [close]) := by
  cases stuck with
  | nil => exact ⟨notPastEnd, close, by simp, by simp [rest_eq]⟩
  | cons token stuck =>
      have member : token ∈ body := suffix.subset List.mem_cons_self
      exact ⟨notPastEnd, token, List.mem_append_left _ member, by simp [rest_eq]⟩

/-- An error blames a token of a source. -/
def ParseError.Blames (error : ParseError) (source : SourceId) (token : Token) : Prop :=
  ∃ expected, error = ⟨source, .unexpectedToken (some token.span) (some token.kind) expected⟩

theorem Failure.BlamesOneOf.error {failure : Failure} {tokens : List Token}
    (blames : failure.BlamesOneOf tokens) (source : SourceId) :
    ∃ token ∈ tokens, (failure.error source).Blames source token := by
  rcases blames with ⟨notPastEnd, token, member, blamed⟩
  rcases List.head?_eq_some_iff.mp blamed with ⟨others, rest_eq⟩
  refine ⟨token, member, failure.expected, ?_⟩
  simp [Failure.error, notPastEnd, rest_eq]

/-- Behind no brace, the rest of a body still ends at its closing brace. -/
theorem OffBraces.stays {body tokens behind : List Token} {close : Span}
    (off : OffBraces (body ++ ⟨.punct .rightBrace, close⟩ :: tokens) behind)
    (balanced : Balanced body) :
    ∃ kept, behind = kept ++ ⟨.punct .rightBrace, close⟩ :: tokens ∧ Balanced kept ∧
      kept <:+ body := by
  induction body with
  | nil =>
      cases off with
      | refl => exact ⟨[], rfl, .nil, List.suffix_refl []⟩
      | cons notBrace => exact absurd (.inr rfl) notBrace
  | cons token body ih =>
      cases off with
      | refl => exact ⟨token :: body, rfl, balanced, List.suffix_refl _⟩
      | cons notBrace off =>
          rcases ih off (balanced.of_cons notBrace) with ⟨kept, behind_eq, keptBalanced, suffix⟩
          exact ⟨kept, behind_eq, keptBalanced, suffix.trans (List.suffix_cons token body)⟩

namespace Rule

theorem length_lt_of_statement {tokens rest : List Token} {first : Stmt}
    (read : statement tokens = .ok (first, rest)) : rest.length < tokens.length := by
  rcases (statement_reads False).ok read with ⟨used, rfl, spelled⟩
  rw [List.length_append]
  rcases spelled.block_or with ⟨_, _, _, rfl, _⟩ | ⟨_, _, rfl, _⟩ <;> simp

/-- A block recovers from the failure of a statement of it that is no block. -/
theorem blockRest_of_failure {tokens : List Token} {failure : Failure}
    (failed : statement tokens = .error failure) (more : failure.rest ≠ [])
    (noBlock : StartsOffBraces tokens) (fuel : Nat) :
    blockRest (fuel + 1) tokens =
      (blockRest fuel
        (Recovery.inBlock (decide (failure.rest.length < tokens.length)) 0 failure.rest)).after
        [failure] := by
  have notFatal : failure.isFatal = false := by simpa [Failure.isFatal] using more
  -- As for a statement that was read: what is behind stays closed while the block is unfolded.
  generalize behind_eq : blockRest fuel
    (Recovery.inBlock (decide (failure.rest.length < tokens.length)) 0 failure.rest) = behind
  rcases noBlock with ⟨token, others, rfl, noOpening, noClose⟩
  unfold blockRest
  split
  · rename_i tokens_eq
    cases tokens_eq
  · rename_i tokens_eq
    cases tokens_eq
    exact absurd rfl noClose
  · rename_i tokens_eq
    cases tokens_eq
    exact absurd rfl noOpening
  · simp only [failed, notFatal, behind_eq, Bool.false_eq_true, if_false]

/-- The parser takes a block up to its closing brace, and blames nothing behind that brace. -/
def Closes (attempt : Attempt (List Stmt × Span)) (body : List Token) (close : Span)
    (rest : List Token) : Prop :=
  ∃ statements, attempt.result = .ok ((statements, close), rest) ∧
    ∀ failure ∈ attempt.failures, failure.BlamesOneOf (body ++ [⟨.punct .rightBrace, close⟩])

namespace Closes

variable {attempt : Attempt (List Stmt × Span)} {body kept : List Token} {close : Span}
  {rest : List Token} {failures : List Failure}

/-- What is taken of a rest of a body is taken of the body, behind failures in it. -/
theorem after (closes : Closes attempt kept close rest) (suffix : kept <:+ body)
    (blamed : ∀ failure ∈ failures, failure.BlamesOneOf (body ++ [⟨.punct .rightBrace, close⟩])) :
    Closes (attempt.after failures) body close rest := by
  rcases closes with ⟨statements, result_eq, keptBlamed⟩
  refine ⟨statements, result_eq, ?_⟩
  rw [Attempt.after, List.forall_mem_append]
  refine ⟨blamed, fun failure member => (keptBlamed failure member).of_subset ?_⟩
  exact List.append_subset.mpr ⟨List.Subset.trans suffix.subset (List.subset_append_left _ _),
    List.subset_append_right _ _⟩

theorem map (closes : Closes attempt body close rest) (convert : List Stmt → List Stmt) :
    Closes (attempt.map fun (statements, close) => (convert statements, close))
      body close rest := by
  rcases closes with ⟨statements, result_eq, blamed⟩
  refine ⟨convert statements, ?_, blamed⟩
  simp [Attempt.map, result_eq, Except.map]

end Closes

/-- A block with balanced braces ends at its closing brace, whatever is wrong in it. -/
theorem blockRest_closes {body : List Token} (balanced : Balanced body) {fuel : Nat}
    (enough : body.length < fuel) (close : Span) (rest : List Token) :
    Closes (blockRest fuel (body ++ ⟨.punct .rightBrace, close⟩ :: rest)) body close rest := by
  -- On the fuel and not on the body: a recovery leaves a rest that is no part of its structure.
  induction fuel generalizing body close rest with
  | zero => cases enough
  | succ fuel ih =>
      cases balanced with
      | nil => exact ⟨[], rfl, List.forall_mem_nil _⟩
      | @braces opening innerClose inner others innerBalanced othersBalanced =>
          simp only [List.length_append, List.length_cons] at enough
          rcases ih innerBalanced (by omega) innerClose
            (others ++ ⟨.punct .rightBrace, close⟩ :: rest) with ⟨statements, inner_eq, blamed⟩
          have othersClose := (ih othersBalanced (by omega) close rest).map
            (.block statements (opening.combine innerClose) :: ·)
          rw [List.append_assoc, List.cons_append, List.cons_append,
            blockRest_of_block inner_eq opening]
          refine othersClose.after ?_ fun failure member => (blamed failure member).of_subset ?_
          · exact (List.suffix_cons _ others).trans (List.suffix_append _ _)
          · intro token member
            rcases List.mem_append.mp member with member | member <;> simp_all
      | @token token others notBrace othersBalanced =>
          have balanced : Balanced (token :: others) := .token notBrace othersBalanced
          have nonempty := List.cons_ne_nil token others
          have noBlock : StartsOffBraces (token :: others ++ ⟨.punct .rightBrace, close⟩ :: rest) :=
            ⟨token, _, rfl, not_or.mp notBrace⟩
          generalize token :: others = body at *
          have off := statement_takesNoBrace (body ++ ⟨.punct .rightBrace, close⟩ :: rest)
          cases statement_eq : statement (body ++ ⟨.punct .rightBrace, close⟩ :: rest) with
          | ok taken =>
              rcases taken with ⟨first, behind⟩
              have shorter := length_lt_of_statement statement_eq
              rw [statement_eq] at off
              rcases off.stays balanced with ⟨kept, rfl, keptBalanced, suffix⟩
              simp only [List.length_append, List.length_cons] at shorter
              have keptCloses := (ih keptBalanced (by omega) close rest).map (first :: ·)
              rw [blockRest_of_statement statement_eq noBlock]
              exact keptCloses.after suffix (List.forall_mem_nil _)
          | error failure =>
              have blames := (statement_reads False).error statement_eq
              rw [statement_eq] at off
              rcases off.stays balanced with ⟨stuck, rest_eq, stuckBalanced, suffix⟩
              simp only [leftOver] at rest_eq
              rcases Recovery.inBlock_shortens stuckBalanced suffix nonempty close rest with
                ⟨kept, kept_eq, keptBalanced, keptSuffix, shorter⟩
              have keptCloses := ih keptBalanced (by omega) close rest
              rw [blockRest_of_failure statement_eq (by simp [rest_eq]) noBlock, rest_eq, kept_eq]
              apply keptCloses.after keptSuffix
              exact List.forall_mem_singleton.mpr (.of_rest blames.not_pastEnd rest_eq suffix)

/-- The declaration of a function with a header, some statements and the closing brace. -/
def FunHeader.declares (header : FunHeader) (keyword : Span) (statements : List Stmt)
    (close : Span) : FunDecl :=
  ⟨header.name, header.parameters, header.returnType, ⟨statements, header.opening.combine close⟩,
    none, keyword.combine (header.opening.combine close)⟩

/-- A function ends at the closing brace of its body, whatever is wrong in the body. -/
theorem declaration_of_body {front body : List Token} {header : FunHeader}
    (spelled : FunHeaderSpelled front header) (balanced : Balanced body) (keyword close : Span)
    (rest : List Token) :
    let attempt := declaration
      (⟨.keyword .funWord, keyword⟩ :: (front ++ (body ++ ⟨.punct .rightBrace, close⟩ :: rest)))
    ∃ statements,
      attempt.result = .ok (.funDecl (header.declares keyword statements close), rest) ∧
      ∀ failure ∈ attempt.failures,
        failure.BlamesOneOf (body ++ [⟨.punct .rightBrace, close⟩]) := by
  generalize behind_eq : body ++ ⟨.punct .rightBrace, close⟩ :: rest = behind
  have header_eq : funHeader (front ++ behind) = .ok (header, behind) :=
    funHeader_takes.ok spelled trivial
  have enough : body.length < behind.length := by
    simp [← behind_eq]
  have closes := blockRest_closes balanced enough close rest
  rw [behind_eq] at closes
  rcases closes with ⟨statements, result_eq, blamed⟩
  refine ⟨statements, ?_, ?_⟩
  · simp only [declaration, expect_keyword, Attempt.ofResult_andThen, funDecl, header_eq]
    simp [Attempt.map, result_eq, Except.map, FunHeader.declares]
  · simp only [declaration, expect_keyword, Attempt.ofResult_andThen, funDecl, header_eq]
    exact blamed

end Rule

/--
A function whose body has balanced braces ends at the closing brace of the body. The program goes on
as if it began there, and the errors before those of the rest blame tokens up to that brace.
-/
theorem Parsed.ofTokens_of_body (source : SourceId) {front body : List Token}
    {header : Rule.FunHeader} (spelled : Rule.FunHeaderSpelled front header)
    (balanced : Balanced body) (keyword close : Span) (rest : List Token) :
    let parsed := ofTokens source
      (⟨.keyword .funWord, keyword⟩ :: (front ++ (body ++ ⟨.punct .rightBrace, close⟩ :: rest)))
    let others := ofTokens source rest
    ∃ statements errors,
      parsed.program.declarations =
        .funDecl (header.declares keyword statements close) :: others.program.declarations ∧
      parsed.errors = errors ++ others.errors ∧
      ∀ error ∈ errors, ∃ token ∈ body ++ [⟨.punct .rightBrace, close⟩],
        error.Blames source token := by
  intro parsed others
  rcases Rule.declaration_of_body spelled balanced keyword close rest with
    ⟨statements, read, blamed⟩
  rcases ofTokens_of_declared source read with ⟨declarations_eq, errors_eq⟩
  refine ⟨statements, _, declarations_eq, errors_eq, ?_⟩
  rw [List.forall_mem_map]
  intro failure member
  exact (blamed failure member).error source

/-- A function with a variable that has no name, a block that is missing a value, and a word. -/
theorem Parsed.ofTokens_of_body_unnamed_variable :
    let header : Rule.FunHeader :=
      ⟨⟨0, .single 1⟩, [], ⟨TypeName.bool.type, (Span.single 4).combine (.single 5)⟩, .single 6⟩
    let front : List Token :=
      [⟨.identifier 0, .single 1⟩, ⟨.punct .leftParen, .single 2⟩, ⟨.punct .rightParen, .single 3⟩,
        ⟨.punct .atSign, .single 4⟩, ⟨.typeName .bool, .single 5⟩, ⟨.punct .leftBrace, .single 6⟩]
    let body : List Token :=
      [⟨.keyword .letWord, .single 7⟩, ⟨.punct .leftBrace, .single 8⟩,
        ⟨.punct .minus, .single 9⟩, ⟨.punct .rightBrace, .single 10⟩,
        ⟨.keyword .structWord, .single 11⟩]
    let rest : List Token := [⟨.keyword .funWord, .single 13⟩]
    let parsed := ofTokens 0
      (⟨.keyword .funWord, .single 0⟩ ::
        (front ++ (body ++ ⟨.punct .rightBrace, .single 12⟩ :: rest)))
    let others := ofTokens 0 rest
    ∃ statements errors,
      parsed.program.declarations =
        .funDecl (header.declares (.single 0) statements (.single 12)) ::
          others.program.declarations ∧
      parsed.errors = errors ++ others.errors ∧
      ∀ error ∈ errors, ∃ token ∈ body ++ [⟨.punct .rightBrace, .single 12⟩],
        error.Blames 0 token := by
  intro header front body rest
  have balanced : Balanced body :=
    .token (by decide) (@Balanced.braces _ _ [_] [_] (.token (by decide) .nil)
      (.token (by decide) .nil))
  have spelled : Rule.FunHeaderSpelled front header :=
    ⟨.single 2, .single 3, [], _, rfl, .nil, .intro⟩
  exact Parsed.ofTokens_of_body 0 spelled balanced (.single 0) (.single 12) rest

end TypedLang
