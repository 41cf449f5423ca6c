import TypedLang.Proofs.Parsing.Completeness

/-!
# Braces

A recovery counts braces, so it skips what stands between two of them as a whole and never leaves
the block in which it started. A rule for a piece of a statement takes no brace at all. Hence braces
keep the parser in step with a program, whatever else is wrong in it.
-/

namespace TypedLang

/-- A kind is one of the two braces. -/
def TokenKind.IsBrace (kind : TokenKind) : Prop :=
  kind = .punct .leftBrace ∨ kind = .punct .rightBrace

instance (kind : TokenKind) : Decidable kind.IsBrace :=
  inferInstanceAs (Decidable (_ ∨ _))

@[simp]
theorem TokenKind.isBrace_iff {kind : TokenKind} :
    kind.IsBrace ↔ kind = .punct .leftBrace ∨ kind = .punct .rightBrace :=
  Iff.rfl

/-- Every brace among some tokens has its partner among them. -/
inductive Balanced : List Token → Prop where
  | nil : Balanced []
  | token {token : Token} {rest : List Token} :
      ¬ token.kind.IsBrace → Balanced rest → Balanced (token :: rest)
  | braces {opening close : Span} {inner rest : List Token} :
      Balanced inner → Balanced rest →
      Balanced (⟨.punct .leftBrace, opening⟩ :: inner ++ ⟨.punct .rightBrace, close⟩ :: rest)

/-- Tokens that are balanced stay so without a first one that is no brace. -/
theorem Balanced.of_cons {token : Token} {rest : List Token} (balanced : Balanced (token :: rest))
    (notBrace : ¬ token.kind.IsBrace) : Balanced rest := by
  generalize tokens_eq : token :: rest = tokens at balanced
  cases balanced with
  | nil => cases tokens_eq
  | token _ others =>
      cases tokens_eq
      exact others
  | braces =>
      cases tokens_eq
      exact absurd (.inl rfl) notBrace

namespace Recovery

/-- Inside a block, what stands between braces is skipped together with the closing one. -/
theorem inBlock_balanced {inner : List Token} (balanced : Balanced inner) (progressed : Bool)
    (depth : Nat) (close : Span) (rest : List Token) :
    inBlock progressed (depth + 1) (inner ++ ⟨.punct .rightBrace, close⟩ :: rest) =
      inBlock true depth rest := by
  induction balanced generalizing progressed depth close rest with
  | nil => rfl
  | @token token others notBrace _ ih =>
      rw [TokenKind.isBrace_iff, not_or] at notBrace
      simp [inBlock_cons, notBrace, ih]
  | @braces opening innerClose inner others _ _ innerSkipped othersSkipped =>
      rw [List.append_assoc, List.cons_append, List.cons_append, inBlock]
      exact (innerSkipped true (depth + 1) innerClose _).trans
        (othersSkipped true depth close rest)

/-- Among declarations, what stands between braces is skipped together with the closing one. -/
theorem inProgram_balanced {inner : List Token} (balanced : Balanced inner) (progressed : Bool)
    (depth : Nat) (close : Span) (rest : List Token) :
    inProgram progressed (depth + 1) (inner ++ ⟨.punct .rightBrace, close⟩ :: rest) =
      if depth = 0 then rest else inProgram true depth rest := by
  induction balanced generalizing progressed depth close rest with
  | nil => cases depth <;> rfl
  | @token token others notBrace _ ih =>
      rw [TokenKind.isBrace_iff, not_or] at notBrace
      simp [inProgram_cons, notBrace, ih]
  | @braces opening innerClose inner others _ _ innerSkipped othersSkipped =>
      rw [List.append_assoc, List.cons_append, List.cons_append, inProgram]
      exact (innerSkipped true (depth + 1) innerClose _).trans
        (othersSkipped true depth close rest)

/--
What a recovery may leave of the rest of a block: it is balanced, and unless there was progress
before, a token is dropped if there is one.
-/
structure Leaves (progressed : Bool) (body kept : List Token) : Prop where
  balanced : Balanced kept
  suffix : kept <:+ body
  length_lt : progressed = false → body ≠ [] → kept.length < body.length

/-- With a token in front that is dropped, a recovery may leave what it may leave without it. -/
theorem Leaves.cons {progressed : Bool} {body kept : List Token} (leaves : Leaves true body kept)
    (token : Token) : Leaves progressed (token :: body) kept where
  balanced := leaves.balanced
  suffix := leaves.suffix.trans (List.suffix_cons token body)
  length_lt _ _ := Nat.lt_succ_of_le leaves.suffix.length_le

/-- A recovery inside a block stays in front of its closing brace. -/
theorem inBlock_leaves {body : List Token} (balanced : Balanced body) (progressed : Bool)
    (close : Span) (rest : List Token) :
    ∃ kept, inBlock progressed 0 (body ++ ⟨.punct .rightBrace, close⟩ :: rest) =
      kept ++ ⟨.punct .rightBrace, close⟩ :: rest ∧ Leaves progressed body kept := by
  induction balanced generalizing progressed with
  | nil => exact ⟨[], rfl, .nil, List.suffix_refl [], fun _ nonempty => absurd rfl nonempty⟩
  | @token token others notBrace othersBalanced ih =>
      rcases ih true with ⟨kept, kept_eq, leaves⟩
      have notLeft : token.kind ≠ .punct .leftBrace := fun same => notBrace (.inl same)
      have notRight : token.kind ≠ .punct .rightBrace := fun same => notBrace (.inr same)
      rw [List.cons_append, inBlock_cons, if_neg notLeft, if_neg notRight]
      split
      · -- A keyword that starts a statement stops the recovery, but only if there was progress.
        rename_i stops
        obtain ⟨_, close | ⟨progress, _⟩⟩ := stops
        · exact absurd close notRight
        · exact ⟨token :: others, rfl, .token notBrace othersBalanced, List.suffix_refl _,
            fun stuck => absurd progress (ne_true_of_eq_false stuck)⟩
      · split
        · exact ⟨others, rfl, othersBalanced, List.suffix_cons token others,
            fun _ _ => Nat.lt_succ_self _⟩
        · exact ⟨kept, kept_eq, leaves.cons token⟩
  | @braces opening innerClose inner others innerBalanced othersBalanced _ ih =>
      rcases ih true with ⟨kept, kept_eq, leaves⟩
      have suffix : others <:+ ⟨.punct .leftBrace, opening⟩ :: inner ++
          ⟨.punct .rightBrace, innerClose⟩ :: others :=
        (List.suffix_cons _ others).trans (List.suffix_append _ _)
      refine ⟨kept, ?_, leaves.balanced, leaves.suffix.trans suffix, fun _ _ => ?_⟩
      · rw [List.append_assoc, List.cons_append, List.cons_append, inBlock]
        exact (inBlock_balanced innerBalanced true 0 innerClose _).trans kept_eq
      · have kept_le := leaves.suffix.length_le
        simp only [List.length_append, List.length_cons]
        omega

/--
The recovery from a statement that failed somewhere in the rest of a block stays in front of the
closing brace and drops a token.
-/
theorem inBlock_shortens {body stuck : List Token} (balanced : Balanced stuck)
    (suffix : stuck <:+ body) (nonempty : body ≠ []) (close : Span) (rest : List Token) :
    let behind := stuck ++ ⟨.punct .rightBrace, close⟩ :: rest
    let all := body ++ ⟨.punct .rightBrace, close⟩ :: rest
    ∃ kept, inBlock (decide (behind.length < all.length)) 0 behind =
        kept ++ ⟨.punct .rightBrace, close⟩ :: rest ∧
      Balanced kept ∧ kept <:+ body ∧ kept.length < body.length := by
  intro behind all
  rcases inBlock_leaves balanced (decide (behind.length < all.length)) close rest with
    ⟨kept, kept_eq, leaves⟩
  refine ⟨kept, kept_eq, leaves.balanced, leaves.suffix.trans suffix, ?_⟩
  have kept_le := leaves.suffix.length_le
  have stuck_le := suffix.length_le
  by_cases progressed : stuck.length < body.length
  · omega
  · have stuck_ne : stuck ≠ [] := by
      rintro rfl
      exact progressed (List.length_pos_iff.mpr nonempty)
    have kept_lt := leaves.length_lt (by simpa [behind, all] using progressed) stuck_ne
    omega

end Recovery

/-- The rest of some tokens behind a stretch that has no brace. -/
inductive OffBraces : (tokens rest : List Token) → Prop where
  | refl {tokens : List Token} : OffBraces tokens tokens
  | cons {token : Token} {tokens rest : List Token} :
      ¬ token.kind.IsBrace → OffBraces tokens rest → OffBraces (token :: tokens) rest

namespace OffBraces

variable {tokens between rest : List Token}

theorem trans (first : OffBraces tokens between) (second : OffBraces between rest) :
    OffBraces tokens rest := by
  induction first with
  | refl => exact second
  | cons notBrace _ ih => exact .cons notBrace (ih second)

end OffBraces

namespace Rule

variable {Result Other : Type}

/-- The tokens that a rule leaves, also where it fails. -/
def leftOver : Except Failure (Result × List Token) → List Token
  | .ok (_, rest) => rest
  | .error failure => failure.rest

/-- A rule takes no brace, neither for what it gives nor on the way to a failure. -/
def TakesNoBrace (rule : Rule Result) : Prop :=
  ∀ tokens, OffBraces tokens (leftOver (rule tokens))

namespace TakesNoBrace

theorem pure (value : Result) : TakesNoBrace fun tokens => Pure.pure (value, tokens) :=
  fun _ => .refl

theorem reject (expected : List TokenKind) : TakesNoBrace (Rule.reject expected : Rule Result) :=
  fun _ => .refl

theorem fueled {rule : Nat → Rule Result} (noBrace : ∀ fuel, (rule fuel).TakesNoBrace) :
    TakesNoBrace fun tokens => rule tokens.length tokens :=
  fun tokens => noBrace tokens.length tokens

theorem bind {first : Rule Result} {next : Result → Rule Other} (firstNoBrace : first.TakesNoBrace)
    (nextNoBrace : ∀ value, (next value).TakesNoBrace) :
    TakesNoBrace (fun tokens => do
      let (value, rest) ← first tokens
      next value rest) := by
  intro tokens
  have front := firstNoBrace tokens
  cases firstRead : first tokens with
  | error failure =>
      rw [firstRead] at front
      simp only [firstRead]
      exact front
  | ok taken =>
      rcases taken with ⟨value, between⟩
      rw [firstRead] at front
      simp only [firstRead]
      exact front.trans (nextNoBrace value between)

end TakesNoBrace

theorem expect_takesNoBrace (kind : TokenKind) (notBrace : ¬ kind.IsBrace) :
    (expect kind).TakesNoBrace := by
  intro tokens
  cases tokens with
  | nil => exact .refl
  | cons token tokens =>
      simp only [expect]
      split
      · rename_i kind_eq
        exact .cons (kind_eq ▸ notBrace) .refl
      · exact .refl

theorem name_takesNoBrace : name.TakesNoBrace := by
  intro tokens
  unfold name
  split
  · exact .cons (by simp [Token.kind, Lexeme.kind]) .refl
  · exact .refl

theorem afterCommas_takesNoBrace {element : Rule Result} (noBrace : element.TakesNoBrace) :
    (fuel : Nat) → (afterCommas element fuel).TakesNoBrace
  | 0 => .pure []
  | fuel + 1 => by
      have others := noBrace.bind fun first =>
        (afterCommas_takesNoBrace noBrace fuel).bind fun others => .pure (first :: others)
      intro tokens
      unfold afterCommas
      split
      · exact .cons (by simp [Token.kind, Lexeme.kind]) (others _)
      · exact .refl

theorem closedList_takesNoBrace {element : Rule Result} (noBrace : element.TakesNoBrace) :
    (closedList element).TakesNoBrace := by
  have items := noBrace.bind fun first =>
    (TakesNoBrace.fueled (afterCommas_takesNoBrace noBrace)).bind fun others =>
      (expect_takesNoBrace (.punct .rightParen) (by decide)).bind fun close =>
        .pure (first :: others, close)
  intro tokens
  unfold closedList
  split
  · exact .cons (by simp [Token.kind, Lexeme.kind]) .refl
  · exact items _

section Expressions

variable {operand inner : Rule Expr} {operator? : TokenKind → Option BinaryOp}

/-- The operators that a test finds are no braces. -/
def FindsNoBrace {Operator : Type} (operator? : TokenKind → Option Operator) : Prop :=
  ∀ kind op, operator? kind = some op → ¬ kind.IsBrace

theorem TestsLevel.findsNoBrace {level : Nat} (tests : TestsLevel operator? level) :
    FindsNoBrace operator? := by
  intro kind op found
  have notBrace : ∀ op : BinaryOp, ¬ (TokenKind.punct op.mark).IsBrace := by decide
  rw [(tests kind op found).2]
  exact notBrace op

theorem unaryOp?_findsNoBrace : FindsNoBrace unaryOp? := by
  intro kind op found
  rw [unaryOp?_mark found]
  cases op <;> decide

theorem binaryTail_takesNoBrace (finds : FindsNoBrace operator?) (noBrace : operand.TakesNoBrace) :
    (fuel : Nat) → (left : Expr) → (binaryTail operand operator? fuel left).TakesNoBrace
  | 0, left => .pure left
  | fuel + 1, left => by
      have others := fun op : BinaryOp => noBrace.bind fun right =>
        binaryTail_takesNoBrace finds noBrace fuel
          (.binary op left right (left.span.combine right.span) none)
      intro tokens
      cases tokens with
      | nil => exact .refl
      | cons token tokens =>
          simp only [binaryTail]
          split
          · exact .refl
          · rename_i op found
            exact .cons (finds _ op found) (others op tokens)

theorem binaryLevel_takesNoBrace (finds : FindsNoBrace operator?)
    (noBrace : operand.TakesNoBrace) : (binaryLevel operand operator?).TakesNoBrace :=
  noBrace.bind fun first =>
    .fueled fun fuel => binaryTail_takesNoBrace finds noBrace fuel first

theorem unaryLevel_takesNoBrace (noBrace : operand.TakesNoBrace) :
    (unaryLevel operand).TakesNoBrace := by
  intro tokens
  induction tokens with
  | nil => exact noBrace []
  | cons token tokens ih =>
      simp only [unaryLevel]
      split
      · exact noBrace _
      · rename_i op found
        refine .cons (unaryOp?_findsNoBrace _ op found) ?_
        cases innerRead : unaryLevel operand tokens <;> rw [innerRead] at ih <;> exact ih

theorem callTail_takesNoBrace (noBrace : inner.TakesNoBrace) :
    (fuel : Nat) → (callee : Expr) → (callTail inner fuel callee).TakesNoBrace
  | 0, callee => .pure callee
  | fuel + 1, callee => by
      have others := (closedList_takesNoBrace noBrace).bind fun list =>
        callTail_takesNoBrace noBrace fuel (.call callee list.1 (callee.span.combine list.2) none)
      intro tokens
      unfold callTail
      split
      · exact .cons (by simp [Token.kind, Lexeme.kind]) (others _)
      · exact .refl

theorem primary_takesNoBrace (noBrace : inner.TakesNoBrace) : (primary inner).TakesNoBrace := by
  have parenthesis := fun opening : Span => noBrace.bind fun value =>
    (expect_takesNoBrace (.punct .rightParen) (by decide)).bind fun close =>
      .pure (Expr.grouping value (opening.combine close) none)
  intro tokens
  unfold primary
  split
  case h_6 => exact .cons (by simp [Token.kind, Lexeme.kind]) (parenthesis _ _)
  case h_7 => exact .refl
  all_goals exact .cons (by simp [Token.kind, Lexeme.kind]) .refl

theorem expressionBelow_takesNoBrace : (depth : Nat) → (expressionBelow depth).TakesNoBrace
  | 0 => .reject expressionStart
  | depth + 1 => by
      have inner := expressionBelow_takesNoBrace depth
      have call := (primary_takesNoBrace inner).bind fun callee =>
        TakesNoBrace.fueled fun fuel => callTail_takesNoBrace inner fuel callee
      have factor := binaryLevel_takesNoBrace factorOp?_tests.findsNoBrace
        (unaryLevel_takesNoBrace call)
      have term := binaryLevel_takesNoBrace termOp?_tests.findsNoBrace factor
      have comparison := binaryLevel_takesNoBrace comparisonOp?_tests.findsNoBrace term
      exact binaryLevel_takesNoBrace equalityOp?_tests.findsNoBrace comparison

theorem expression_takesNoBrace : expression.TakesNoBrace :=
  .fueled fun fuel => expressionBelow_takesNoBrace (fuel + 1)

end Expressions

theorem writtenType_takesNoBrace : writtenType.TakesNoBrace := by
  intro tokens
  have front := expect_takesNoBrace (.punct .atSign) (by decide) tokens
  unfold writtenType
  cases signRead : expect (.punct .atSign) tokens with
  | error failure =>
      rw [signRead] at front
      exact front
  | ok taken =>
      rcases taken with ⟨sign, between⟩
      rw [signRead] at front
      apply front.trans
      cases between with
      | nil => exact .refl
      | cons token behind =>
          simp only [Bind.bind, Except.bind]
          split
          · exact .refl
          · rename_i type found
            rcases eq_of_type? found with ⟨word, _, token_eq⟩
            exact .cons (by rw [token_eq]; simp [Token.kind, Lexeme.kind]) .refl

theorem initializer_takesNoBrace : initializer.TakesNoBrace := by
  have value := expression_takesNoBrace.bind fun value => .pure (some value)
  intro tokens
  unfold initializer
  split
  · exact .cons (by simp [Token.kind, Lexeme.kind]) (value _)
  · exact .refl

theorem letDecl_takesNoBrace (keyword : Span) : (letDecl keyword).TakesNoBrace :=
  name_takesNoBrace.bind fun name => writtenType_takesNoBrace.bind fun type =>
    initializer_takesNoBrace.bind fun initializer =>
      (expect_takesNoBrace (.punct .semicolon) (by decide)).bind fun semicolon =>
        .pure (⟨name, type, initializer, none, keyword.combine semicolon⟩ : LetDecl)

theorem returnValue_takesNoBrace : returnValue.TakesNoBrace := by
  have value := expression_takesNoBrace.bind fun value => .pure (some value)
  intro tokens
  unfold returnValue
  split
  · exact .refl
  · exact value _

theorem statement_takesNoBrace : statement.TakesNoBrace := by
  have declaring := fun keyword => (letDecl_takesNoBrace keyword).bind fun decl =>
    .pure (Stmt.letDecl decl)
  have returning := fun keyword : Span => returnValue_takesNoBrace.bind fun value =>
    (expect_takesNoBrace (.punct .semicolon) (by decide)).bind fun semicolon =>
      .pure (Stmt.returning value (keyword.combine semicolon))
  have value := expression_takesNoBrace.bind fun value =>
    (expect_takesNoBrace (.punct .semicolon) (by decide)).bind fun semicolon =>
      .pure (Stmt.expression value (value.span.combine semicolon))
  intro tokens
  unfold statement
  split
  · exact .cons (by simp [Token.kind, Lexeme.kind]) (declaring _ _)
  · exact .cons (by simp [Token.kind, Lexeme.kind]) (returning _ _)
  · exact value _

end Rule

end TypedLang
