import TypedLang.Proofs.Parsing.Completeness
import TypedLang.Proofs.Parsing.Strict

/-!
# What a failure expects

The kinds that a failure names were indeed possible: behind the tokens that were read, a token of
each of these kinds can stand, and more can follow that completes the construct. A failure in a part
of a construct is completed by completing the part and then the rest of the construct, so one short
way to complete each part is all that is needed.
-/

namespace TypedLang

/--
A failure on some tokens expects what was possible. The tokens in front of the blamed one can be
completed with a token of each expected kind behind them, and there is at least one such kind.
-/
def Failure.Expects (failure : Failure) (tokens : List Token) (complete : List Token → Prop) :
    Prop :=
  ∃ used, tokens = used ++ failure.rest ∧ failure.expected ≠ [] ∧
    ∀ kind ∈ failure.expected, ∃ token more, token.kind = kind ∧ complete (used ++ token :: more)

namespace Failure.Expects

variable {failure : Failure} {tokens : List Token} {part complete : List Token → Prop}

theorem now {expected : List TokenKind} (tokens : List Token) (nonempty : expected ≠ [])
    (possible : ∀ kind ∈ expected, ∃ token more, token.kind = kind ∧ complete (token :: more)) :
    Failure.Expects ⟨tokens, expected, false⟩ tokens complete :=
  ⟨[], rfl, nonempty, possible⟩

theorem behind (front : List Token)
    (expects : failure.Expects tokens fun back => complete (front ++ back)) :
    failure.Expects (front ++ tokens) complete := by
  rcases expects with ⟨used, rfl, nonempty, possible⟩
  refine ⟨front ++ used, (List.append_assoc _ _ _).symm, nonempty, fun kind member => ?_⟩
  rcases possible kind member with ⟨token, more, kind_eq, completed⟩
  exact ⟨token, more, kind_eq, by simpa using completed⟩

/-- What completes a part, and then the rest, completes the whole. -/
theorem extend (expects : failure.Expects tokens part)
    (rest : ∀ front, part front → ∃ back, complete (front ++ back)) :
    failure.Expects tokens complete := by
  rcases expects with ⟨used, tokens_eq, nonempty, possible⟩
  refine ⟨used, tokens_eq, nonempty, fun kind member => ?_⟩
  rcases possible kind member with ⟨token, more, kind_eq, partly⟩
  rcases rest _ partly with ⟨back, completed⟩
  exact ⟨token, more ++ back, kind_eq, by simpa using completed⟩

end Failure.Expects

namespace Rule

variable {Result Other : Type}

/-- Every failure of a rule expects what was possible. -/
def Expects (rule : Rule Result) (complete : List Token → Prop) : Prop :=
  ∀ tokens failure, rule tokens = .error failure → failure.Expects tokens complete

namespace Expects

variable {rule : Rule Result} {part complete : List Token → Prop}

theorem mono (expects : rule.Expects part) (weaken : ∀ used, part used → complete used) :
    rule.Expects complete := by
  intro tokens failure failed
  exact (expects tokens failure failed).extend fun front completed =>
    ⟨[], by simpa using weaken front completed⟩

theorem succeed (value : Result) : (Rule.succeed value).Expects complete := by
  intro tokens failure failed
  cases failed

theorem reject {expected : List TokenKind} (nonempty : expected ≠ [])
    (possible : ∀ kind ∈ expected, ∃ token more, token.kind = kind ∧ complete (token :: more)) :
    (Rule.reject expected : Rule Result).Expects complete := by
  intro tokens failure failed
  cases failed
  exact .now tokens nonempty possible

theorem fueled {rule : Nat → Rule Result} (expects : ∀ fuel, (rule fuel).Expects complete) :
    (Rule.fueled rule).Expects complete :=
  fun tokens => expects tokens.length tokens

/--
A rule and the one behind it. A failure of the first one is completed by what it expects and the
rest; a failure of the second one comes behind what the first one has read.
-/
theorem seq {first : Rule Result} {next : Result → Rule Other}
    {spelled : List Token → Result → Prop} (reads : first.Reads spelled)
    (expects : first.Expects part) (rest : ∀ front, part front → ∃ back, complete (front ++ back))
    (nextExpects : ∀ value front, spelled front value →
      (next value).Expects fun back => complete (front ++ back)) :
    (first.seq next).Expects complete := by
  intro tokens failure failed
  simp only [Rule.seq] at failed
  cases firstRead : first tokens with
  | error firstFailure =>
      rw [firstRead] at failed
      cases failed
      exact (expects tokens failure firstRead).extend rest
  | ok taken =>
      rcases taken with ⟨value, between⟩
      rw [firstRead] at failed
      rcases reads.ok firstRead with ⟨front, rfl, frontSpelled⟩
      exact (nextExpects value front frontSpelled between failure failed).behind front

end Expects

theorem expect_expects (mark : Punct) :
    (expect (.punct mark)).Expects fun used => ∃ span, used = [⟨.punct mark, span⟩] := by
  have possible : ∀ kind ∈ [TokenKind.punct mark], ∃ token more, Token.kind token = kind ∧
      ∃ span, token :: more = [⟨.punct mark, span⟩] := by
    simp only [List.mem_singleton, forall_eq]
    exact ⟨⟨.punct mark, .single 0⟩, [], rfl, .single 0, rfl⟩
  intro tokens failure failed
  rw [expect_eq] at failed
  simp only [peeking] at failed
  split at failed
  · rcases tokens with _ | ⟨token, rest⟩
    · rename_i kind_eq
      cases kind_eq
    · cases failed
  · cases failed
    exact .now tokens (by simp) possible

theorem name_expects :
    name.Expects fun used => ∃ name : Name, used = [⟨.identifier name.key, name.span⟩] := by
  intro tokens failure failed
  unfold name at failed
  split at failed
  · cases failed
  · cases failed
    refine .now _ (by simp) ?_
    simp only [List.mem_singleton, forall_eq]
    exact ⟨⟨.identifier 0, .single 0⟩, [], rfl, ⟨0, .single 0⟩, rfl⟩

section Lists

variable {element : Rule Result} {spelled : List Token → Result → Prop}

/-- Items behind commas continue a list that has an item in front of the first comma. -/
theorem afterCommas_expects (reads : element.Reads spelled)
    (expects : element.Expects fun used => ∃ item, spelled used item) : (fuel : Nat) →
      (afterCommas element fuel).Expects fun used =>
        ∀ tokens item, spelled tokens item →
          ∃ items, InList spelled (tokens ++ used) (item :: items)
  | 0 => .succeed []
  | fuel + 1 => by
      have behindComma (comma : Span) : (element.seq fun next =>
          (afterCommas element fuel).seq fun others => succeed (next :: others)).Expects
            fun used => ∀ tokens item, spelled tokens item → ∃ items,
              InList spelled (tokens ++ ⟨.punct .comma, comma⟩ :: used) (item :: items) := by
        refine .seq reads expects ?_ ?_
        · rintro front ⟨next, nextSpelled⟩
          refine ⟨[], fun tokens item itemSpelled => ⟨[next], ?_⟩⟩
          simpa using (InList.singleton nextSpelled).cons itemSpelled
        · intro next front nextSpelled
          refine .seq (afterCommas_reads reads fuel) (afterCommas_expects reads expects fuel) ?_
            fun _ _ _ => .succeed _
          intro back follows
          refine ⟨[], fun tokens item itemSpelled => ?_⟩
          rcases follows front next nextSpelled with ⟨others, list⟩
          exact ⟨next :: others, by simpa using list.cons itemSpelled⟩
      intro tokens failure failed
      unfold afterCommas at failed
      split at failed
      · rename_i comma rest
        exact (behindComma comma rest failure failed).behind [⟨.punct .comma, comma⟩]
      · cases failed

theorem closedList_expects (reads : element.Reads spelled)
    (expects : element.Expects fun used => ∃ item, spelled used item) :
    (closedList element).Expects fun used => ∃ list : List Result × Span, ∃ body,
      used = body ++ [⟨.punct .rightParen, list.2⟩] ∧ InList spelled body list.1 := by
  intro tokens failure failed
  rw [closedList_eq] at failed
  simp only [peeking] at failed
  split at failed
  · rename_i kind_eq
    rcases tokens with _ | ⟨token, rest⟩
    · cases kind_eq
    · rw [eq_of_kind_punct (Option.some.inj kind_eq), seq, expect_punct] at failed
      cases failed
  · refine Expects.seq reads expects ?_ ?_ tokens failure failed
    · rintro front ⟨first, firstSpelled⟩
      exact ⟨[⟨.punct .rightParen, .single 0⟩], ([first], .single 0), front, rfl,
        .singleton firstSpelled⟩
    · intro first front firstSpelled
      refine .seq (Reads.fueled (afterCommas_reads reads))
        (.fueled (afterCommas_expects reads expects)) ?_ ?_
      · intro middle follows
        rcases follows front first firstSpelled with ⟨others, list⟩
        exact ⟨[⟨.punct .rightParen, .single 0⟩], (first :: others, .single 0), front ++ middle,
          by simp, list⟩
      · intro others middle follows
        refine .seq (expect_reads .rightParen) (expect_expects .rightParen) ?_
          fun _ _ _ => .succeed _
        rintro _ ⟨close, rfl⟩
        exact ⟨[], (first :: others, close), front ++ middle, by simp,
          follows front first firstSpelled⟩

end Lists

section Expressions

theorem expressionStart_possible : ∀ kind ∈ expressionStart, ∃ token more, Token.kind token = kind ∧
    ∃ value, Expr.Spelled 4 (token :: more) value := by
  have one : Expr.Spelled 4 [⟨.boolean true, .single 0⟩] _ :=
    @Expr.Spelled.literal 4 (.boolean true) (.single 0)
  intro kind member
  simp only [expressionStart, List.mem_cons, List.not_mem_nil, or_false] at member
  rcases member with rfl | rfl | rfl | rfl | rfl | rfl | rfl | rfl
  · exact ⟨⟨.integer 0, .single 0⟩, [], rfl, _, @Expr.Spelled.literal 4 (.integer 0) _⟩
  · exact ⟨⟨.decimal ⟨0⟩, .single 0⟩, [], rfl, _, @Expr.Spelled.literal 4 (.decimal ⟨0⟩) _⟩
  · exact ⟨⟨.string 0, .single 0⟩, [], rfl, _, @Expr.Spelled.literal 4 (.string 0) _⟩
  · exact ⟨⟨.boolean true, .single 0⟩, [], rfl, _, one⟩
  · exact ⟨⟨.identifier 0, .single 0⟩, [], rfl, _, @Expr.Spelled.identifier 4 ⟨0, _⟩⟩
  · exact ⟨⟨.punct .leftParen, .single 0⟩, _, rfl, _,
      @Expr.Spelled.grouping 4 (.single 0) (.single 0) _ _ (one.loosen (Nat.zero_le 4))⟩
  · exact ⟨⟨.punct .bang, .single 0⟩, _, rfl, _,
      @Expr.Spelled.unary 4 .complement (.single 0) _ _ (Nat.le_refl 4) one⟩
  · exact ⟨⟨.punct .minus, .single 0⟩, _, rfl, _,
      @Expr.Spelled.unary 4 .negate (.single 0) _ _ (Nat.le_refl 4) one⟩

/-- Behind a failure, some expression of a level can still be completed. -/
def CompletesAt (level : Nat) (used : List Token) : Prop :=
  ∃ value, Expr.Spelled level used value

theorem CompletesAt.loosen {tight loose : Nat} {used : List Token}
    (completes : CompletesAt tight used) (le : loose ≤ tight) : CompletesAt loose used := by
  rcases completes with ⟨value, spelled⟩
  exact ⟨value, spelled.loosen le⟩

theorem start_expects {level : Nat} (loose : level ≤ 4) :
    (reject expressionStart : Rule Expr).Expects (CompletesAt level) := by
  refine .reject (by simp [expressionStart]) fun kind member => ?_
  rcases expressionStart_possible kind member with ⟨token, more, kind_eq, completes⟩
  exact ⟨token, more, kind_eq, CompletesAt.loosen completes loose⟩

variable {operand inner : Rule Expr} {operator? : TokenKind → Option BinaryOp} {level : Nat}

/-- The tail of a chain continues every expression of the level of its operators. -/
theorem binaryTail_expects (tests : TestsLevel operator? level)
    (reads : operand.Reads (Expr.Spelled (level + 1)))
    (expects : operand.Expects (CompletesAt (level + 1))) : (fuel : Nat) → (left : Expr) →
      (binaryTail operand operator? fuel left).Expects fun used =>
        ∀ tokens, Expr.Spelled level tokens left → CompletesAt level (tokens ++ used)
  | 0, left => .succeed left
  | fuel + 1, left => by
      have joined {op : BinaryOp} {mark : Span} {tokens back : List Token} {right : Expr}
          (level_eq : op.level = level) (leftSpelled : Expr.Spelled level tokens left)
          (rightSpelled : Expr.Spelled (level + 1) back right) :
          Expr.Spelled level (tokens ++ ⟨.punct op.mark, mark⟩ :: back)
            (.binary op left right (left.span.combine right.span) none) := by
        subst level_eq
        exact .binary (Nat.le_refl _) leftSpelled rightSpelled
      have behindOperator (op : BinaryOp) (mark : Span) (level_eq : op.level = level) :
          (operand.seq fun right => binaryTail operand operator? fuel
            (.binary op left right (left.span.combine right.span) none)).Expects fun used =>
              ∀ tokens, Expr.Spelled level tokens left →
                CompletesAt level (tokens ++ ⟨.punct op.mark, mark⟩ :: used) := by
        refine .seq reads expects ?_ ?_
        · rintro front ⟨right, rightSpelled⟩
          refine ⟨[], fun tokens leftSpelled => ?_⟩
          rw [List.append_nil]
          exact ⟨_, joined level_eq leftSpelled rightSpelled⟩
        · intro right front rightSpelled
          refine (binaryTail_expects tests reads expects fuel _).mono ?_
          intro back follows tokens leftSpelled
          simpa using follows _ (joined level_eq leftSpelled rightSpelled)
      intro tokens failure failed
      cases tokens with
      | nil => cases failed
      | cons token rest =>
          simp only [binaryTail] at failed
          split at failed
          · cases failed
          · rename_i op found
            rcases tests _ op found with ⟨level_eq, kind_eq⟩
            rw [eq_of_kind_punct kind_eq]
            exact (behindOperator op token.span level_eq rest failure failed).behind [_]

theorem binaryLevel_expects (tests : TestsLevel operator? level)
    (reads : operand.Reads (Expr.Spelled (level + 1)))
    (expects : operand.Expects (CompletesAt (level + 1))) :
    (binaryLevel operand operator?).Expects (CompletesAt level) := by
  rw [binaryLevel_eq]
  refine .seq reads expects ?_ ?_
  · intro front completes
    exact ⟨[], by simpa using completes.loosen (Nat.le_succ level)⟩
  · intro first front firstSpelled
    refine .fueled fun fuel => (binaryTail_expects tests reads expects fuel first).mono ?_
    intro back follows
    exact follows front (firstSpelled.loosen (Nat.le_succ level))

theorem unaryLevel_expects (expects : operand.Expects (CompletesAt 4)) :
    (unaryLevel operand).Expects (CompletesAt 4) := by
  intro tokens failure failed
  induction tokens generalizing failure with
  | nil => exact expects [] failure failed
  | cons token rest ih =>
      simp only [unaryLevel] at failed
      split at failed
      · exact expects _ failure failed
      · rename_i op found
        cases innerRead : unaryLevel operand rest with
        | error innerFailure =>
            rw [innerRead] at failed
            cases failed
            refine ((ih failure innerRead).extend ?_).behind [token]
            rintro front ⟨value, spelled⟩
            refine ⟨[], ?_⟩
            rw [List.append_nil, eq_of_kind_punct (unaryOp?_mark found)]
            exact ⟨_, .unary (Nat.le_refl 4) spelled⟩
        | ok taken =>
            rw [innerRead] at failed
            cases failed

/-- Calls continue every expression that may be a callee. -/
theorem callTail_expects (reads : inner.Reads (Expr.Spelled 0))
    (expects : inner.Expects (CompletesAt 0)) : (fuel : Nat) → (callee : Expr) →
      (callTail inner fuel callee).Expects fun used =>
        ∀ tokens, Expr.Spelled 5 tokens callee → CompletesAt 5 (tokens ++ used)
  | 0, callee => .succeed callee
  | fuel + 1, callee => by
      have call {opening close : Span} {body tokens : List Token} {arguments : List Expr}
          (list : InList (Expr.Spelled 0) body arguments) (spelled : Expr.Spelled 5 tokens callee) :
          Expr.Spelled 5
            (tokens ++ ⟨.punct .leftParen, opening⟩ :: body ++ [⟨.punct .rightParen, close⟩])
            (.call callee arguments (callee.span.combine close) none) := by
        rcases list with ⟨pieces, rfl, separated, all⟩
        exact .call (Nat.le_refl 5) spelled separated all
      have behindParen (opening : Span) : ((closedList inner).seq fun list => callTail inner fuel
          (.call callee list.1 (callee.span.combine list.2) none)).Expects fun used =>
            ∀ tokens, Expr.Spelled 5 tokens callee →
              CompletesAt 5 (tokens ++ ⟨.punct .leftParen, opening⟩ :: used) := by
        refine .seq (closedList_reads reads) (closedList_expects reads expects) ?_ ?_
        · rintro _ ⟨⟨arguments, close⟩, body, rfl, list⟩
          refine ⟨[], fun tokens spelled =>
            ⟨.call callee arguments (callee.span.combine close) none, ?_⟩⟩
          simpa using call list spelled
        · rintro ⟨arguments, close⟩ _ ⟨body, rfl, list⟩
          refine (callTail_expects reads expects fuel _).mono ?_
          intro back follows tokens spelled
          simpa using follows _ (call list spelled)
      intro tokens failure failed
      unfold callTail at failed
      split at failed
      · rename_i opening rest
        exact (behindParen opening rest failure failed).behind [_]
      · cases failed

/-- Where a primary expression could stand, a unary operator could stand as well. -/
theorem primary_expects (reads : inner.Reads (Expr.Spelled 0))
    (expects : inner.Expects (CompletesAt 0)) : (primary inner).Expects (CompletesAt 4) := by
  have behindParen (opening : Span) : (inner.seq fun value =>
      (expect (.punct .rightParen)).seq fun close =>
        succeed (Expr.grouping value (opening.combine close) none)).Expects fun used =>
          CompletesAt 4 (⟨.punct .leftParen, opening⟩ :: used) := by
    refine .seq reads expects ?_ ?_
    · rintro front ⟨value, spelled⟩
      exact ⟨[⟨.punct .rightParen, .single 0⟩], _, .grouping spelled⟩
    · intro value front spelled
      refine .seq (expect_reads .rightParen) (expect_expects .rightParen) ?_ fun _ _ _ => .succeed _
      rintro _ ⟨close, rfl⟩
      exact ⟨[], _, .grouping spelled⟩
  intro tokens failure failed
  unfold primary at failed
  split at failed
  · cases failed
  · cases failed
  · cases failed
  · cases failed
  · cases failed
  · rename_i opening rest
    exact (behindParen opening rest failure failed).behind [_]
  · exact start_expects (Nat.le_refl 4) _ failure failed

theorem callLevel_expects (reads : inner.Reads (Expr.Spelled 0))
    (expects : inner.Expects (CompletesAt 0)) : (callLevel inner).Expects (CompletesAt 4) := by
  rw [callLevel_eq]
  refine .seq (primary_reads reads) (primary_expects reads expects) ?_ ?_
  · intro front completes
    exact ⟨[], by simpa using completes⟩
  · intro callee front calleeSpelled
    refine .fueled fun fuel => (callTail_expects reads expects fuel callee).mono ?_
    intro back follows
    exact (follows front calleeSpelled).loosen (Nat.le_succ 4)

theorem levels_expects (reads : inner.Reads (Expr.Spelled 0))
    (expects : inner.Expects (CompletesAt 0)) : (levels inner).Expects (CompletesAt 0) := by
  have unaryReads := unaryLevel_reads (callLevel_reads reads)
  have factorReads := binaryLevel_reads factorOp?_tests unaryReads
  have termReads := binaryLevel_reads termOp?_tests factorReads
  have comparisonReads := binaryLevel_reads comparisonOp?_tests termReads
  have unary := unaryLevel_expects (callLevel_expects reads expects)
  have factor := binaryLevel_expects factorOp?_tests unaryReads unary
  have term := binaryLevel_expects termOp?_tests factorReads factor
  have comparison := binaryLevel_expects comparisonOp?_tests termReads term
  exact binaryLevel_expects equalityOp?_tests comparisonReads comparison

theorem expressionBelow_expects : (depth : Nat) → (expressionBelow depth).Expects (CompletesAt 0)
  | 0 => start_expects (Nat.zero_le 4)
  | depth + 1 => levels_expects (expressionBelow_reads depth) (expressionBelow_expects depth)

theorem expression_expects : expression.Expects (CompletesAt 0) :=
  .fueled fun fuel => expressionBelow_expects (fuel + 1)

end Expressions

/-- The short type that completes a declaration. -/
theorem exists_spelled_type : ∃ tokens type, WrittenType.Spelled tokens type :=
  ⟨_, _, @WrittenType.Spelled.intro (.single 0) (.single 0) .bool⟩

theorem writtenType_expects :
    writtenType.Expects fun used => ∃ type : WrittenType, type.Spelled used := by
  rw [writtenType_eq]
  refine .seq (expect_reads .atSign) (expect_expects .atSign) ?_ ?_
  · rintro _ ⟨sign, rfl⟩
    exact ⟨[⟨.typeName .bool, .single 0⟩], _, .intro⟩
  · rintro sign _ rfl tokens failure failed
    have possible : ∀ kind ∈ TokenKind.typeNames, ∃ token more, Token.kind token = kind ∧
        ∃ type : WrittenType, type.Spelled (⟨.punct .atSign, sign⟩ :: token :: more) := by
      intro kind member
      rcases List.mem_map.mp member with ⟨word, _, rfl⟩
      exact ⟨⟨.typeName word, .single 0⟩, [], rfl, _, .intro⟩
    cases tokens with
    | nil =>
        cases failed
        exact .now [] (by decide) possible
    | cons token rest =>
        simp only [peeking, List.head?_cons, Option.bind_some] at failed
        cases found : token.kind.type? with
        | none =>
            rw [found] at failed
            cases failed
            exact .now _ (by decide) possible
        | some type =>
            rw [found] at failed
            cases failed

theorem parameter_expects :
    parameter.Expects fun used => ∃ parameter : Parameter, parameter.Spelled used := by
  rw [parameter_eq]
  refine .seq name_reads name_expects ?_ ?_
  · rintro _ ⟨name, rfl⟩
    rcases exists_spelled_type with ⟨typeTokens, type, typeSpelled⟩
    exact ⟨typeTokens, _, .intro typeSpelled⟩
  · rintro name _ rfl
    refine .seq writtenType_reads writtenType_expects ?_ fun _ _ _ => .succeed _
    rintro typeTokens ⟨type, typeSpelled⟩
    exact ⟨[], _, by simpa using Parameter.Spelled.intro typeSpelled⟩

theorem initializer_expects : initializer.Expects fun used =>
    ∃ value, Expr.SpelledInitializer used value := by
  have behindSign (sign : Span) : (expression.seq fun value => succeed (some value)).Expects
      fun used => ∃ value, Expr.SpelledInitializer (⟨.punct .equal, sign⟩ :: used) value := by
    refine .seq expression_reads expression_expects ?_ fun _ _ _ => .succeed _
    rintro front ⟨value, spelled⟩
    exact ⟨[], some value, by simpa using Expr.SpelledInitializer.some spelled⟩
  intro tokens failure failed
  unfold initializer at failed
  split at failed
  · rename_i sign rest
    exact (behindSign sign rest failure failed).behind [_]
  · cases failed

theorem letDecl_expects (keyword : Span) : (letDecl keyword).Expects fun used =>
    ∃ decl : LetDecl, decl.Spelled (⟨.keyword .letWord, keyword⟩ :: used) := by
  rw [letDecl_eq]
  refine .seq name_reads name_expects ?_ ?_
  · rintro _ ⟨name, rfl⟩
    rcases exists_spelled_type with ⟨typeTokens, type, typeSpelled⟩
    exact ⟨typeTokens ++ [] ++ [⟨.punct .semicolon, .single 0⟩], _, .intro typeSpelled .none⟩
  rintro name _ rfl
  refine .seq writtenType_reads writtenType_expects ?_ ?_
  · rintro typeTokens ⟨type, typeSpelled⟩
    exact ⟨[⟨.punct .semicolon, .single 0⟩], _,
      by simpa using LetDecl.Spelled.intro typeSpelled .none⟩
  intro type typeTokens typeSpelled
  refine .seq initializer_reads initializer_expects ?_ ?_
  · rintro tokens ⟨initializer, initializerSpelled⟩
    exact ⟨[⟨.punct .semicolon, .single 0⟩], _,
      by simpa using LetDecl.Spelled.intro typeSpelled initializerSpelled⟩
  intro initializer tokens initializerSpelled
  refine .seq (expect_reads .semicolon) (expect_expects .semicolon) ?_ fun _ _ _ => .succeed _
  rintro _ ⟨semicolon, rfl⟩
  exact ⟨[], _, by simpa using LetDecl.Spelled.intro typeSpelled initializerSpelled⟩

theorem returnValue_expects : returnValue.Expects fun used =>
    ∃ value, Expr.SpelledReturn used value := by
  have value : (expression.seq fun value => succeed (some value)).Expects fun used =>
      ∃ value, Expr.SpelledReturn used value := by
    refine .seq expression_reads expression_expects ?_ fun _ _ _ => .succeed _
    rintro front ⟨value, spelled⟩
    exact ⟨[], some value, by simpa using Expr.SpelledReturn.some spelled⟩
  intro tokens failure failed
  unfold returnValue at failed
  split at failed
  · cases failed
  · exact value _ failure failed

theorem statement_expects : statement.Expects fun used =>
    ∃ statement, Stmt.Spelled False used statement := by
  have declaring (keyword : Span) : ((letDecl keyword).seq fun decl =>
      succeed (Stmt.letDecl decl)).Expects fun used =>
        ∃ statement, Stmt.Spelled False (⟨.keyword .letWord, keyword⟩ :: used) statement := by
    refine .seq (letDecl_reads keyword) (letDecl_expects keyword) ?_ fun _ _ _ => .succeed _
    rintro front ⟨decl, spelled⟩
    exact ⟨[], _, by simpa using Stmt.Spelled.letDecl spelled⟩
  have returning (keyword : Span) : (returnValue.seq fun value =>
      (expect (.punct .semicolon)).seq fun semicolon =>
        succeed (Stmt.returning value (keyword.combine semicolon))).Expects fun used =>
          ∃ statement, Stmt.Spelled False (⟨.keyword .returnWord, keyword⟩ :: used) statement := by
    refine .seq returnValue_reads returnValue_expects ?_ ?_
    · rintro front ⟨value, spelled⟩
      exact ⟨[⟨.punct .semicolon, .single 0⟩], _, .returning spelled⟩
    · intro value front spelled
      refine .seq (expect_reads .semicolon) (expect_expects .semicolon) ?_ fun _ _ _ => .succeed _
      rintro _ ⟨semicolon, rfl⟩
      exact ⟨[], _, .returning spelled⟩
  have value : (expression.seq fun value => (expect (.punct .semicolon)).seq fun semicolon =>
      succeed (Stmt.expression value (value.span.combine semicolon))).Expects fun used =>
        ∃ statement, Stmt.Spelled False used statement := by
    refine .seq expression_reads expression_expects ?_ ?_
    · rintro front ⟨value, spelled⟩
      exact ⟨[⟨.punct .semicolon, .single 0⟩], _, .expression spelled⟩
    · intro value front spelled
      refine .seq (expect_reads .semicolon) (expect_expects .semicolon) ?_ fun _ _ _ => .succeed _
      rintro _ ⟨semicolon, rfl⟩
      exact ⟨[], _, .expression spelled⟩
  intro tokens failure failed
  unfold statement at failed
  split at failed
  · rename_i keyword rest
    exact (declaring keyword rest failure failed).behind [_]
  · rename_i keyword rest
    exact (returning keyword rest failure failed).behind [_]
  · exact value tokens failure failed

theorem spelledRest_close (close : Span) :
    Stmt.SpelledRest False [⟨.punct .rightBrace, close⟩] ([], close) :=
  ⟨[], rfl, .nil⟩

theorem rightBrace_expects : (reject [.punct .rightBrace] : Rule (List Stmt × Span)).Expects
    fun used => ∃ result, Stmt.SpelledRest False used result := by
  refine .reject (by simp) ?_
  simp only [List.mem_singleton, forall_eq]
  exact ⟨⟨.punct .rightBrace, .single 0⟩, [], rfl, _, spelledRest_close (.single 0)⟩

theorem strictBlock_expects : (fuel : Nat) →
    (strictBlock fuel).Expects fun used => ∃ result, Stmt.SpelledRest False used result
  | 0 => rightBrace_expects
  | fuel + 1 => by
      -- What follows a statement that was read up to here completes the block.
      have others {used : List Token} {first : Stmt} (spelled : Stmt.Spelled False used first) :
          ((strictBlock fuel).seq fun others => succeed (first :: others.1, others.2)).Expects
            fun back => ∃ result, Stmt.SpelledRest False (used ++ back) result := by
        refine .seq (strictBlock_reads fuel) (strictBlock_expects fuel) ?_ fun _ _ _ => .succeed _
        rintro back ⟨result, rest⟩
        exact ⟨[], _, by simpa using rest.cons spelled⟩
      have nested (opening : Span) : ((strictBlock fuel).seq fun first =>
          (strictBlock fuel).seq fun others =>
            succeed (.block first.1 (opening.combine first.2) :: others.1, others.2)).Expects
              fun used => ∃ result,
                Stmt.SpelledRest False (⟨.punct .leftBrace, opening⟩ :: used) result := by
        refine .seq (strictBlock_reads fuel) (strictBlock_expects fuel) ?_
          fun first front spelled => others spelled.block
        rintro front ⟨first, spelled⟩
        exact ⟨_, _, (spelledRest_close (.single 0)).cons spelled.block⟩
      have more : (statement.seq fun first => (strictBlock fuel).seq fun others =>
          succeed (first :: others.1, others.2)).Expects fun used =>
            ∃ result, Stmt.SpelledRest False used result := by
        refine .seq (statement_reads False) statement_expects ?_
          fun first front spelled => others spelled
        rintro front ⟨first, spelled⟩
        exact ⟨_, _, (spelledRest_close (.single 0)).cons spelled⟩
      intro tokens failure failed
      rw [strictBlock_succ, peeking] at failed
      split at failed
      · exact rightBrace_expects tokens failure failed
      split at failed
      · rename_i kind_eq
        rcases tokens with _ | ⟨token, rest⟩
        · cases kind_eq
        · cases failed
      split at failed
      · rename_i kind_eq
        rcases tokens with _ | ⟨token, rest⟩
        · cases kind_eq
        · rw [eq_of_kind_punct (Option.some.inj kind_eq), seq, expect_punct] at failed
          rw [eq_of_kind_punct (Option.some.inj kind_eq)]
          exact (nested token.span rest failure failed).behind [_]
      · exact more tokens failure failed

theorem funHeader_expects : funHeader.Expects fun used =>
    ∃ header, FunHeaderSpelled used header := by
  rcases exists_spelled_type with ⟨someTokens, someType, someSpelled⟩
  rw [funHeader_eq]
  refine .seq name_reads name_expects ?_ ?_
  · rintro _ ⟨name, rfl⟩
    exact ⟨_, ⟨name, [], someType, .single 0⟩, .single 0, .single 0, [], someTokens, rfl, .nil,
      someSpelled⟩
  rintro name _ rfl
  refine .seq (expect_reads .leftParen) (expect_expects .leftParen) ?_ ?_
  · rintro _ ⟨leftParen, rfl⟩
    exact ⟨_, ⟨name, [], someType, .single 0⟩, leftParen, .single 0, [], someTokens, rfl, .nil,
      someSpelled⟩
  rintro leftParen _ rfl
  refine .seq (closedList_reads parameter_reads)
    (closedList_expects parameter_reads parameter_expects) ?_ ?_
  · rintro _ ⟨⟨parameters, rightParen⟩, body, rfl, list⟩
    exact ⟨someTokens ++ [⟨.punct .leftBrace, .single 0⟩], ⟨name, parameters, someType, .single 0⟩,
      leftParen, rightParen, body, someTokens, by simp, list, someSpelled⟩
  rintro ⟨parameters, rightParen⟩ _ ⟨body, rfl, list⟩
  refine .seq writtenType_reads writtenType_expects ?_ ?_
  · rintro typeTokens ⟨type, typeSpelled⟩
    exact ⟨[⟨.punct .leftBrace, .single 0⟩], ⟨name, parameters, type, .single 0⟩, leftParen,
      rightParen, body, typeTokens, by simp, list, typeSpelled⟩
  intro type typeTokens typeSpelled
  refine .seq (expect_reads .leftBrace) (expect_expects .leftBrace) ?_ fun _ _ _ => .succeed _
  rintro _ ⟨opening, rfl⟩
  exact ⟨[], ⟨name, parameters, type, opening⟩, leftParen, rightParen, body, typeTokens, by simp,
    list, typeSpelled⟩

/-- A header and the rest of a body behind it make a function. -/
theorem exists_spelled_funDecl (keyword : Span) {front back : List Token} {header : FunHeader}
    {result : List Stmt × Span} (headerSpelled : FunHeaderSpelled front header)
    (bodySpelled : Stmt.SpelledRest False back result) :
    ∃ decl, Decl.Spelled False (⟨.keyword .funWord, keyword⟩ :: (front ++ back))
      (.funDecl decl) := by
  rcases result with ⟨statements, close⟩
  rcases headerSpelled with
    ⟨leftParen, rightParen, parameterTokens, typeTokens, rfl, parameters, type⟩
  rcases bodySpelled with ⟨body, rfl, sequence⟩
  exact ⟨_, by simpa using Decl.Spelled.funDecl parameters type sequence⟩

theorem strictFunDecl_expects (keyword : Span) : (strictFunDecl keyword).Expects fun used =>
    ∃ decl, Decl.Spelled False (⟨.keyword .funWord, keyword⟩ :: used) (.funDecl decl) := by
  rw [strictFunDecl_eq]
  refine .seq funHeader_reads funHeader_expects ?_ ?_
  · rintro front ⟨header, spelled⟩
    exact ⟨_, exists_spelled_funDecl keyword spelled (spelledRest_close (.single 0))⟩
  · intro header front headerSpelled
    refine .seq (Reads.fueled strictBlock_reads) (.fueled strictBlock_expects) ?_
      fun _ _ _ => .succeed _
    rintro back ⟨result, bodySpelled⟩
    rcases exists_spelled_funDecl keyword headerSpelled bodySpelled with ⟨decl, spelled⟩
    exact ⟨[], decl, by simpa using spelled⟩

theorem declarationStart_possible : ∀ kind ∈ [TokenKind.keyword .funWord, .keyword .letWord],
    ∃ token more, Token.kind token = kind ∧ ∃ decl, Decl.Spelled False (token :: more) decl := by
  rcases exists_spelled_type with ⟨typeTokens, type, typeSpelled⟩
  simp only [List.mem_cons, List.not_mem_nil, or_false, forall_eq_or_imp, forall_eq]
  constructor
  · have header : FunHeaderSpelled _ ⟨⟨0, .single 0⟩, [], type, .single 0⟩ :=
      ⟨.single 0, .single 0, [], typeTokens, rfl, .nil, typeSpelled⟩
    rcases exists_spelled_funDecl (.single 0) header (spelledRest_close (.single 0)) with
      ⟨decl, spelled⟩
    exact ⟨_, _, rfl, _, spelled⟩
  · have spelled := @LetDecl.Spelled.intro (.single 0) (.single 0) ⟨0, .single 0⟩ _ _ _ _
      typeSpelled .none
    exact ⟨_, _, rfl, _, .letDecl spelled⟩

theorem strictDeclaration_expects : strictDeclaration.Expects fun used =>
    ∃ decl, Decl.Spelled False used decl := by
  have function (keyword : Span) : ((strictFunDecl keyword).seq fun decl =>
      succeed (Decl.funDecl decl)).Expects fun used =>
        ∃ decl, Decl.Spelled False (⟨.keyword .funWord, keyword⟩ :: used) decl := by
    refine .seq (Attempt.reads_strict (funDecl_reads keyword)) (strictFunDecl_expects keyword) ?_
      fun _ _ _ => .succeed _
    rintro front ⟨decl, spelled⟩
    exact ⟨[], _, by simpa using spelled⟩
  have declaring (keyword : Span) : ((letDecl keyword).seq fun decl =>
      succeed (Decl.letDecl decl)).Expects fun used =>
        ∃ decl, Decl.Spelled False (⟨.keyword .letWord, keyword⟩ :: used) decl := by
    refine .seq (letDecl_reads keyword) (letDecl_expects keyword) ?_ fun _ _ _ => .succeed _
    rintro front ⟨decl, spelled⟩
    exact ⟨[], _, by simpa using Decl.Spelled.letDecl spelled⟩
  intro tokens failure failed
  rw [strictDeclaration_eq, peeking] at failed
  split at failed
  · rename_i kind_eq
    rcases tokens with _ | ⟨token, rest⟩
    · cases kind_eq
    · have token_eq := eq_of_kind_keyword (Option.some.inj kind_eq)
      rw [token_eq, seq, expect_keyword] at failed
      rw [token_eq]
      exact (function token.span rest failure failed).behind [_]
  split at failed
  · rename_i kind_eq
    rcases tokens with _ | ⟨token, rest⟩
    · cases kind_eq
    · have token_eq := eq_of_kind_keyword (Option.some.inj kind_eq)
      rw [token_eq, seq, expect_keyword] at failed
      rw [token_eq]
      exact (declaring token.span rest failure failed).behind [_]
  · cases failed
    exact .now tokens (by simp) declarationStart_possible

end Rule

namespace Parsed

/-- The first failure of a program expects what was possible. -/
theorem first_failure_expects : (fuel : Nat) → (tokens : List Token) → (failure : Failure) →
    (declarations fuel tokens).2.head? = some failure → failure.Expects tokens fun used =>
      ∃ decls, InSequence False (Decl.Spelled False) used decls
  | 0, _, _, failed => nomatch failed
  | _ + 1, [], _, failed => nomatch failed
  | fuel + 1, token :: rest, failure, failed => by
      rw [head?_failures_succ fuel (List.cons_ne_nil token rest)] at failed
      split at failed
      · rename_i decl behind read
        rcases Rule.strictDeclaration_reads.ok read with ⟨used, tokens_eq, spelled⟩
        rw [tokens_eq]
        refine ((first_failure_expects fuel behind failure failed).extend ?_).behind used
        rintro back ⟨decls, sequence⟩
        exact ⟨[], decl :: decls, by simpa using sequence.cons spelled⟩
      · rename_i first read
        cases failed
        refine (Rule.strictDeclaration_expects _ _ read).extend ?_
        rintro front ⟨decl, spelled⟩
        exact ⟨[], [decl], InSequence.nil.cons spelled⟩

end Parsed

end TypedLang
