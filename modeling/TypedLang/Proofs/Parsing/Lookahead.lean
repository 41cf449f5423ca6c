import TypedLang.Proofs.Parsing.Bodies
import TypedLang.Proofs.Parsing.Strict

/-!
# One token of lookahead

What a rule does with the tokens in front of some token depends on that token, but on nothing behind
it: as long as the rule does not take the token, it does the same whatever follows. Only the fuel of
the loops knows how many tokens there are, and it is enough for the tokens in front in any case.
-/

namespace TypedLang

namespace Rule

variable {Result Other : Type}

/-- An outcome with other tokens left over. -/
def withLeftOver (rest : List Token) :
    Except Failure (Result × List Token) → Except Failure (Result × List Token)
  | .ok (value, _) => .ok (value, rest)
  | .error failure => .error { failure with rest := rest }

/-- No rule leaves more than the end of what it got. -/
theorem Reads.suffix {rule : Rule Result} {spelled : List Token → Result → Prop}
    (reads : rule.Reads spelled) (tokens : List Token) : leftOver (rule tokens) <:+ tokens := by
  cases read : rule tokens with
  | ok taken =>
      rcases reads.ok read with ⟨used, rfl, _⟩
      exact List.suffix_append used taken.2
  | error failure => exact (reads.error read).suffix

/--
Two rules do the same in front of a token, whatever is behind it. If the one does not take the
token, and fewer than `bound` tokens are in front of it, then the other, with other tokens behind
it, has the same outcome and leaves the same tokens in front of it.
-/
structure Alike (token : Token) (after other : List Token) (bound : Nat)
    (rule same : Rule Result) : Prop where
  suffix : ∀ tokens, leftOver (rule tokens) <:+ tokens
  alike : ∀ {before rest : List Token}, before.length < bound →
    leftOver (rule (before ++ token :: after)) = rest ++ token :: after →
    same (before ++ token :: other) =
      withLeftOver (rest ++ token :: other) (rule (before ++ token :: after))

namespace Alike

variable {token : Token} {after other : List Token} {bound : Nat}

theorem zero {rule : Rule Result} {spelled : List Token → Result → Prop}
    (reads : rule.Reads spelled) (same : Rule Result) : Alike token after other 0 rule same :=
  ⟨reads.suffix, fun short => absurd short (Nat.not_lt_zero _)⟩

theorem mono {rule same : Rule Result} {more : Nat} (alike : Alike token after other more rule same)
    (le : bound ≤ more) : Alike token after other bound rule same :=
  ⟨alike.suffix, fun short => alike.alike (Nat.lt_of_lt_of_le short le)⟩

theorem succeed (value : Result) :
    Alike token after other bound (Rule.succeed value) (Rule.succeed value) where
  suffix tokens := List.suffix_refl tokens
  alike := by
    intro before rest _ left
    cases List.append_cancel_right left
    rfl

theorem reject (expected : List TokenKind) :
    Alike token after other bound (Rule.reject expected : Rule Result) (Rule.reject expected) where
  suffix tokens := List.suffix_refl tokens
  alike := by
    intro before rest _ left
    cases List.append_cancel_right left
    rfl

theorem advance : Alike token after other bound Rule.advance Rule.advance where
  suffix tokens := by
    cases tokens with
    | nil => exact List.suffix_refl []
    | cons taken rest => exact List.suffix_cons taken rest
  alike := by
    intro before rest _ left
    cases before with
    | nil =>
        have lengths := congrArg List.length left
        simp only [List.nil_append, Rule.advance, leftOver, List.length_append,
          List.length_cons] at lengths
        omega
    | cons taken before =>
        cases List.append_cancel_right left
        rfl

/--
A rule and the one behind it. What the second one leaves, the first one has left as well, with at
least `fewer` tokens less if the first one always takes as many.
-/
theorem seq_of_length {first same : Rule Result} {next nextSame : Result → Rule Other}
    (fewer : Nat) (firstAlike : Alike token after other bound first same)
    (takes : ∀ {tokens value rest}, first tokens = .ok (value, rest) →
      rest.length + fewer ≤ tokens.length)
    (nextAlike : ∀ value, Alike token after other (bound - fewer) (next value) (nextSame value)) :
    Alike token after other bound (first.seq next) (same.seq nextSame) where
  suffix tokens := by
    have front := firstAlike.suffix tokens
    simp only [Rule.seq]
    cases firstRead : first tokens with
    | error failure =>
        rw [firstRead] at front
        exact front
    | ok taken =>
        rw [firstRead] at front
        exact ((nextAlike taken.1).suffix taken.2).trans front
  alike := by
    intro before rest short left
    simp only [Rule.seq] at left ⊢
    cases firstRead : first (before ++ token :: after) with
    | error failure =>
        rw [firstRead] at left
        have same_eq := firstAlike.alike short (by rw [firstRead]; exact left)
        rw [firstRead] at same_eq
        rw [same_eq]
        rfl
    | ok taken =>
        rcases taken with ⟨value, between⟩
        rw [firstRead] at left
        -- The token is not taken behind the first rule, so it was not taken by the first rule.
        have back : rest ++ token :: after <:+ between := left ▸ (nextAlike value).suffix between
        rcases back with ⟨more, between_eq⟩
        rw [← List.append_assoc] at between_eq
        subst between_eq
        have shorter : (more ++ rest).length < bound - fewer := by
          have le := takes firstRead
          simp only [List.length_append, List.length_cons] at le ⊢
          omega
        have same_eq := firstAlike.alike short (by rw [firstRead]; rfl)
        have next_eq := (nextAlike value).alike shorter left
        rw [firstRead] at same_eq
        rw [same_eq]
        exact next_eq

theorem seq {first same : Rule Result} {next nextSame : Result → Rule Other}
    (firstAlike : Alike token after other bound first same)
    (nextAlike : ∀ value, Alike token after other bound (next value) (nextSame value)) :
    Alike token after other bound (first.seq next) (same.seq nextSame) := by
  refine firstAlike.seq_of_length 0 (fun {tokens value rest} read => ?_) nextAlike
  have front := firstAlike.suffix tokens
  rw [read] at front
  exact front.length_le

/-- A rule that takes the next token, so that one token less is in front of the one in question. -/
theorem advance_seq {next nextSame : Token → Rule Result}
    (nextAlike : ∀ taken, Alike token after other (bound - 1) (next taken) (nextSame taken)) :
    Alike token after other bound (Rule.advance.seq next) (Rule.advance.seq nextSame) := by
  refine advance.seq_of_length 1 ?_ nextAlike
  intro tokens taken rest read
  cases tokens with
  | nil => cases read
  | cons first others =>
      cases read
      exact Nat.le_refl _

theorem peeking {choose chooseSame : Option Token → Rule Result}
    (chosen : ∀ head, Alike token after other bound (choose head) (chooseSame head)) :
    Alike token after other bound (Rule.peeking choose) (Rule.peeking chooseSame) where
  suffix tokens := (chosen tokens.head?).suffix tokens
  alike := by
    intro before rest short left
    have same_head : (before ++ token :: other).head? = (before ++ token :: after).head? := by
      cases before <;> rfl
    rw [Rule.peeking, Rule.peeking, same_head]
    exact (chosen _).alike short left

/-- Fuel that is counted from the tokens is enough for those in front of the token. -/
theorem fueled {rule same : Nat → Rule Result}
    (alike : ∀ enough ≤ bound, ∀ fuel sameFuel, enough ≤ fuel → enough ≤ sameFuel →
      Alike token after other enough (rule fuel) (same sameFuel)) :
    Alike token after other bound (Rule.fueled rule) (Rule.fueled same) where
  suffix tokens := (alike 0 (Nat.zero_le _) _ 0 (Nat.zero_le _) (Nat.le_refl 0)).suffix tokens
  alike := by
    intro before rest short left
    refine (alike (before.length + 1) short _ _ ?_ ?_).alike (Nat.lt_succ_self _) left
    · simp only [List.length_append, List.length_cons]
      omega
    · simp only [List.length_append, List.length_cons]
      omega

end Alike

section

variable {token : Token} {after other : List Token} {bound : Nat}

theorem expect_alike (kind : TokenKind) :
    Alike token after other bound (expect kind) (expect kind) := by
  rw [expect_eq]
  refine .peeking fun head => ?_
  split
  · exact .advance_seq fun taken => .succeed _
  · exact .reject _

theorem length_lt_of_expect {kind : TokenKind} {tokens rest : List Token} {span : Span}
    (read : expect kind tokens = .ok (span, rest)) : rest.length < tokens.length := by
  cases tokens with
  | nil => cases read
  | cons first others =>
      simp only [expect] at read
      split at read
      · cases read
        exact Nat.lt_succ_self _
      · cases read

theorem name_alike : Alike token after other bound name name := by
  rw [name_eq]
  refine .peeking fun head => ?_
  split
  · exact .advance_seq fun taken => .succeed _
  · exact .reject _

section Lists

variable {element same : Rule Result} {spelled : List Token → Result → Prop}

theorem afterCommas_alike (reads : element.Reads spelled)
    (alike : Alike token after other bound element same) :
    ∀ enough ≤ bound, ∀ fuel sameFuel, enough ≤ fuel → enough ≤ sameFuel →
      Alike token after other enough (afterCommas element fuel) (afterCommas same sameFuel) := by
  intro enough
  induction enough with
  | zero =>
      intro _ fuel sameFuel _ _
      exact .zero (afterCommas_reads reads fuel) _
  | succ enough ih =>
      rintro le (_ | fuel) (_ | sameFuel) more sameMore
      · cases more
      · cases more
      · cases sameMore
      rw [afterCommas_succ, afterCommas_succ]
      refine .peeking fun head => ?_
      split
      · refine .advance_seq fun _ => (alike.mono (Nat.le_of_succ_le le)).seq fun first => ?_
        exact (ih (by omega) fuel sameFuel (by omega) (by omega)).seq fun others => .succeed _
      · exact .succeed []

theorem closedList_alike (reads : element.Reads spelled)
    (alike : Alike token after other bound element same) :
    Alike token after other bound (closedList element) (closedList same) := by
  rw [closedList_eq, closedList_eq]
  refine .peeking fun head => ?_
  split
  · exact (expect_alike _).seq fun close => .succeed _
  · exact alike.seq fun first => (Alike.fueled (afterCommas_alike reads alike)).seq fun others =>
      (expect_alike _).seq fun close => .succeed _

end Lists

section Expressions

variable {operand same inner : Rule Expr} {operator? : TokenKind → Option BinaryOp} {level : Nat}

theorem binaryTail_alike (tests : TestsLevel operator? level)
    (reads : operand.Reads (Expr.Spelled (level + 1)))
    (alike : Alike token after other bound operand same) (left : Expr) :
    ∀ enough ≤ bound, ∀ fuel sameFuel, enough ≤ fuel → enough ≤ sameFuel →
      Alike token after other enough (binaryTail operand operator? fuel left)
        (binaryTail same operator? sameFuel left) := by
  intro enough
  induction enough generalizing left with
  | zero =>
      intro _ fuel sameFuel _ _
      exact .zero (binaryTail_reads tests reads fuel left) _
  | succ enough ih =>
      rintro le (_ | fuel) (_ | sameFuel) more sameMore
      · cases more
      · cases more
      · cases sameMore
      rw [binaryTail_succ, binaryTail_succ]
      refine .peeking fun head => ?_
      cases head.bind fun token => operator? token.kind with
      | none => exact .succeed left
      | some op =>
          refine .advance_seq fun _ => (alike.mono (Nat.le_of_succ_le le)).seq fun right => ?_
          exact ih _ (by omega) fuel sameFuel (by omega) (by omega)

theorem binaryLevel_alike (tests : TestsLevel operator? level)
    (reads : operand.Reads (Expr.Spelled (level + 1)))
    (alike : Alike token after other bound operand same) :
    Alike token after other bound (binaryLevel operand operator?) (binaryLevel same operator?) :=
  alike.seq fun first => .fueled (binaryTail_alike tests reads alike first)

theorem unaryLevel_alike (reads : operand.Reads (Expr.Spelled 5))
    (alike : Alike token after other bound operand same) :
    Alike token after other bound (unaryLevel operand) (unaryLevel same) := by
  induction bound with
  | zero => exact .zero (unaryLevel_reads reads) _
  | succ bound ih =>
      rw [unaryLevel_eq operand, unaryLevel_eq same]
      refine .peeking fun head => ?_
      cases head.bind fun token => unaryOp? token.kind with
      | none => exact alike
      | some op =>
          exact .advance_seq fun mark => (ih (alike.mono (Nat.le_succ bound))).seq fun inner =>
            .succeed _

theorem callTail_alike (reads : operand.Reads (Expr.Spelled 0))
    (alike : Alike token after other bound operand same) (callee : Expr) :
    ∀ enough ≤ bound + 1, ∀ fuel sameFuel, enough ≤ fuel → enough ≤ sameFuel →
      Alike token after other enough (callTail operand fuel callee)
        (callTail same sameFuel callee) := by
  intro enough
  induction enough generalizing callee with
  | zero =>
      intro _ fuel sameFuel _ _
      exact .zero (callTail_reads reads fuel callee) _
  | succ enough ih =>
      rintro le (_ | fuel) (_ | sameFuel) more sameMore
      · cases more
      · cases more
      · cases sameMore
      rw [callTail_succ, callTail_succ]
      refine .peeking fun head => ?_
      split
      · refine .advance_seq fun _ => Alike.seq ?_ fun list => ?_
        · exact closedList_alike reads (alike.mono (Nat.le_of_succ_le_succ le))
        · exact ih _ (by omega) fuel sameFuel (by omega) (by omega)
      · exact .succeed callee

/-- Behind its parenthesis, the inner expression has one token less in front of the token. -/
theorem primary_alike (alike : Alike token after other bound operand same) :
    Alike token after other (bound + 1) (primary operand) (primary same) := by
  have literal (value : Literal) :
      Alike token after other (bound + 1) (literal value) (literal value) := by
    rw [literal_eq]
    exact .advance_seq fun taken => .succeed _
  rw [primary_eq, primary_eq]
  refine .peeking fun head => ?_
  cases head.map Token.lexeme with
  | none => exact .reject _
  | some lexeme =>
      cases lexeme with
      | integer value => exact literal _
      | decimal value => exact literal _
      | string key => exact literal _
      | boolean value => exact literal _
      | identifier key => exact .advance_seq fun taken => .succeed _
      | keyword word => exact .reject _
      | typeName word => exact .reject _
      | punct mark =>
          by_cases opening : mark = .leftParen
          · simp only [opening, if_true]
            exact .advance_seq fun taken => alike.seq fun value => (expect_alike _).seq fun close =>
              .succeed _
          · simp only [opening, if_false]
            exact .reject _

theorem callLevel_alike (reads : operand.Reads (Expr.Spelled 0))
    (alike : Alike token after other bound operand same) :
    Alike token after other (bound + 1) (callLevel operand) (callLevel same) :=
  (primary_alike alike).seq fun callee => .fueled (callTail_alike reads alike callee)

theorem levels_alike (reads : operand.Reads (Expr.Spelled 0))
    (alike : Alike token after other bound operand same) :
    Alike token after other (bound + 1) (levels operand) (levels same) := by
  have unaryReads := unaryLevel_reads (callLevel_reads reads)
  have factorReads := binaryLevel_reads factorOp?_tests unaryReads
  have termReads := binaryLevel_reads termOp?_tests factorReads
  have comparisonReads := binaryLevel_reads comparisonOp?_tests termReads
  have unary := unaryLevel_alike (callLevel_reads reads) (callLevel_alike reads alike)
  have factor := binaryLevel_alike factorOp?_tests unaryReads unary
  have term := binaryLevel_alike termOp?_tests factorReads factor
  have comparison := binaryLevel_alike comparisonOp?_tests termReads term
  exact binaryLevel_alike equalityOp?_tests comparisonReads comparison

/-- Parentheses in front of the token nest less deep than there are tokens in front of it. -/
theorem expressionBelow_alike (enough : Nat) : ∀ depth sameDepth, enough ≤ depth →
    enough ≤ sameDepth →
      Alike token after other enough (expressionBelow depth) (expressionBelow sameDepth) := by
  induction enough with
  | zero =>
      intro depth sameDepth _ _
      exact .zero (expressionBelow_reads depth) _
  | succ enough ih =>
      rintro (_ | depth) (_ | sameDepth) more sameMore
      · cases more
      · cases more
      · cases sameMore
      · exact levels_alike (expressionBelow_reads depth)
          (ih depth sameDepth (by omega) (by omega))

theorem expression_alike : Alike token after other bound expression expression :=
  .fueled fun enough _ _ _ more sameMore =>
    expressionBelow_alike enough _ _ (Nat.le_succ_of_le more) (Nat.le_succ_of_le sameMore)

end Expressions

theorem writtenType_alike : Alike token after other bound writtenType writtenType := by
  rw [writtenType_eq]
  refine (expect_alike _).seq fun sign => .peeking fun head => ?_
  cases head.bind fun token => token.kind.type? with
  | none => exact .reject _
  | some type => exact .advance_seq fun taken => .succeed _

theorem parameter_alike : Alike token after other bound parameter parameter := by
  rw [parameter_eq]
  exact name_alike.seq fun name => writtenType_alike.seq fun type => .succeed _

theorem initializer_alike : Alike token after other bound initializer initializer := by
  rw [initializer_eq]
  refine .peeking fun head => ?_
  split
  · exact .advance_seq fun sign => expression_alike.seq fun value => .succeed _
  · exact .succeed none

theorem letDecl_alike (keyword : Span) :
    Alike token after other bound (letDecl keyword) (letDecl keyword) := by
  rw [letDecl_eq]
  exact name_alike.seq fun name => writtenType_alike.seq fun type =>
    initializer_alike.seq fun value => (expect_alike _).seq fun semicolon => .succeed _

theorem returnValue_alike : Alike token after other bound returnValue returnValue := by
  rw [returnValue_eq]
  refine .peeking fun head => ?_
  split
  · exact .succeed none
  · exact expression_alike.seq fun value => .succeed _

theorem statement_alike : Alike token after other bound statement statement := by
  rw [statement_eq]
  refine .peeking fun head => ?_
  split
  · exact (expect_alike _).seq fun keyword => (letDecl_alike keyword).seq fun decl => .succeed _
  split
  · exact (expect_alike _).seq fun keyword => returnValue_alike.seq fun value =>
      (expect_alike _).seq fun semicolon => .succeed _
  · exact expression_alike.seq fun value => (expect_alike _).seq fun semicolon => .succeed _

theorem strictBlock_alike (enough : Nat) : ∀ fuel sameFuel, enough ≤ fuel → enough ≤ sameFuel →
    Alike token after other enough (strictBlock fuel) (strictBlock sameFuel) := by
  -- The two loops have different fuel, so the induction is on what both have at least.
  induction enough with
  | zero =>
      intro fuel sameFuel _ _
      exact .zero (strictBlock_reads fuel) _
  | succ enough ih =>
      rintro (_ | fuel) (_ | sameFuel) more sameMore
      · cases more
      · cases more
      · cases sameMore
      have inside := ih fuel sameFuel (by omega) (by omega)
      rw [strictBlock_succ, strictBlock_succ]
      refine .peeking fun head => ?_
      split
      · exact .reject _
      split
      · exact .advance_seq fun close => .succeed _
      split
      · exact (expect_alike _).seq_of_length 1 length_lt_of_expect fun opening =>
          inside.seq fun first => inside.seq fun others => .succeed _
      · exact statement_alike.seq_of_length 1 length_lt_of_statement fun first =>
          inside.seq fun others => .succeed _

theorem funHeader_alike : Alike token after other bound funHeader funHeader := by
  rw [funHeader_eq]
  exact name_alike.seq fun name => (expect_alike _).seq fun _ =>
    (closedList_alike parameter_reads parameter_alike).seq fun list =>
      writtenType_alike.seq fun type => (expect_alike _).seq fun opening => .succeed _

theorem strictFunDecl_alike (keyword : Span) :
    Alike token after other bound (strictFunDecl keyword) (strictFunDecl keyword) := by
  rw [strictFunDecl_eq]
  exact funHeader_alike.seq fun header =>
    (Alike.fueled fun enough _ fuel sameFuel more sameMore =>
      strictBlock_alike enough fuel sameFuel more sameMore).seq fun body => .succeed _

theorem strictDeclaration_alike :
    Alike token after other bound strictDeclaration strictDeclaration := by
  rw [strictDeclaration_eq]
  refine .peeking fun head => ?_
  split
  · exact (expect_alike _).seq fun keyword => (strictFunDecl_alike keyword).seq fun decl =>
      .succeed _
  split
  · exact (expect_alike _).seq fun keyword => (letDecl_alike keyword).seq fun decl => .succeed _
  · exact .reject _

end

end Rule

namespace Parsed

/--
A program that fails first at some token fails first at that token whatever follows it, and expects
the same kinds there.
-/
theorem first_failure_alike {token : Token} {after other : List Token}
    {expected : List TokenKind} {pastEnd : Bool} (fuel : Nat) :
    ∀ before sameFuel, before.length < sameFuel →
      (declarations fuel (before ++ token :: after)).2.head? =
        some ⟨token :: after, expected, pastEnd⟩ →
      (declarations sameFuel (before ++ token :: other)).2.head? =
        some ⟨token :: other, expected, pastEnd⟩ := by
  induction fuel with
  | zero =>
      intro before sameFuel _ failed
      cases failed
  | succ fuel ih =>
      rintro before (_ | sameFuel) enough failed
      · cases enough
      have alike := @Rule.strictDeclaration_alike token after other (before.length + 1)
      have start : before.length < before.length + 1 := Nat.lt_succ_self _
      rw [head?_failures_succ fuel (by simp)] at failed
      rw [head?_failures_succ sameFuel (by simp)]
      cases read : Rule.strictDeclaration (before ++ token :: after) with
      | error failure =>
          rw [read] at failed
          cases failed
          have same_eq := @alike.alike before [] start (by rw [read]; rfl)
          rw [read] at same_eq
          rw [same_eq]
          rfl
      | ok taken =>
          rcases taken with ⟨decl, behind⟩
          rw [read] at failed
          -- The failure is behind this declaration, which was read in front of the token then.
          rcases (declarations_blame fuel behind _ (List.mem_of_head? failed)).suffix with
            ⟨more, rfl⟩
          have shorter := Rule.length_lt_of_strictDeclaration read
          simp only [List.length_append, List.length_cons] at shorter
          have same_eq := @alike.alike before more start (by rw [read]; rfl)
          rw [read] at same_eq
          rw [same_eq]
          exact ih more sameFuel (by omega) failed

end Parsed

end TypedLang
