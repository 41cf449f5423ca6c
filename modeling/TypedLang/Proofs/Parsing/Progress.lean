import TypedLang.Proofs.Parsing.Soundness

/-!
# One declaration at a time

Every step of the parser over a program drops a token, so fuel that is counted from the tokens is as
good as any more. What a program gives is therefore what its first step gives, followed by what the
tokens behind that step give as a program of their own.
-/

namespace TypedLang

/-- The tokens with which a program goes on after a declaration failed. -/
def Failure.recovery (failure : Failure) (tokens : List Token) : List Token :=
  Recovery.inProgram (decide (failure.rest.length < tokens.length)) 0 failure.rest

namespace Rule

/-- Behind a declaration there are fewer tokens than before. -/
theorem length_lt_of_declaration {tokens rest : List Token} {decl : Decl}
    (read : (declaration tokens).result = .ok (decl, rest)) : rest.length < tokens.length := by
  rcases (declaration_reads tokens).ok read with ⟨used, rfl, spelled⟩
  have nonempty := List.length_pos_iff.mpr spelled.ne_nil
  rw [List.length_append]
  omega

/-- Behind the recovery from a failed declaration there are fewer tokens than before. -/
theorem length_recovery_lt {tokens : List Token} {failure : Failure}
    (failed : (declaration tokens).result = .error failure) (more : failure.rest ≠ []) :
    (failure.recovery tokens).length < tokens.length :=
  Recovery.length_inProgram_lt ((declaration_reads tokens).error failed).suffix more

end Rule

namespace Parsed

variable {tokens rest : List Token} {decl : Decl} {failure : Failure}

theorem declarations_of_ok (read : (Rule.declaration tokens).result = .ok (decl, rest))
    (fuel : Nat) :
    declarations (fuel + 1) tokens =
      (decl :: (declarations fuel rest).1,
        (Rule.declaration tokens).failures ++ (declarations fuel rest).2) := by
  cases tokens with
  | nil => cases read
  | cons token tokens => simp only [declarations, read]

theorem declarations_of_error (failed : (Rule.declaration tokens).result = .error failure)
    (more : failure.rest ≠ []) (nonempty : tokens ≠ []) (fuel : Nat) :
    declarations (fuel + 1) tokens =
      ((declarations fuel (failure.recovery tokens)).1, (Rule.declaration tokens).failures ++
        failure :: (declarations fuel (failure.recovery tokens)).2) := by
  have notFatal : failure.isFatal = false := by simpa [Failure.isFatal] using more
  cases tokens with
  | nil => exact absurd rfl nonempty
  | cons token tokens => simp [declarations, failed, notFatal, Failure.recovery]

theorem declarations_succ {fuel : Nat} (enough : tokens.length ≤ fuel) :
    declarations (fuel + 1) tokens = declarations fuel tokens := by
  induction fuel generalizing tokens with
  | zero =>
      rw [List.length_eq_zero_iff.mp (Nat.le_zero.mp enough)]
      rfl
  | succ fuel ih =>
      by_cases nonempty : tokens = []
      · rw [nonempty]
        rfl
      cases result_eq : (Rule.declaration tokens).result with
      | ok taken =>
          have shorter := Rule.length_lt_of_declaration result_eq
          rw [declarations_of_ok result_eq, declarations_of_ok result_eq, ih (by omega)]
      | error failure =>
          by_cases more : failure.rest = []
          · rcases List.exists_cons_of_ne_nil nonempty with ⟨token, others, rfl⟩
            simp [declarations, result_eq, Failure.isFatal, more]
          · have shorter := Rule.length_recovery_lt result_eq more
            rw [declarations_of_error result_eq more nonempty,
              declarations_of_error result_eq more nonempty, ih (by omega)]

/-- More fuel than there are tokens changes nothing. -/
theorem declarations_of_enough {fuel : Nat} (enough : tokens.length ≤ fuel) :
    declarations fuel tokens = declarations tokens.length tokens := by
  induction enough with
  | refl => rfl
  | step enough ih => rw [declarations_succ enough, ih]

/-- A program is its first declaration and the program behind it. -/
theorem ofTokens_of_declared (source : SourceId)
    (read : (Rule.declaration tokens).result = .ok (decl, rest)) :
    (ofTokens source tokens).program.declarations =
        decl :: (ofTokens source rest).program.declarations ∧
      (ofTokens source tokens).errors =
        (Rule.declaration tokens).failures.map (Failure.error source) ++
          (ofTokens source rest).errors := by
  have shorter := Rule.length_lt_of_declaration read
  rcases Nat.exists_eq_add_of_lt shorter with ⟨more, length_eq⟩
  have step := declarations_of_ok read (rest.length + more)
  rw [← length_eq, declarations_of_enough (Nat.le_add_right _ _)] at step
  simp [ofTokens, step]

/-- A program whose first declaration fails is the program behind the recovery. -/
theorem ofTokens_of_failed (source : SourceId)
    (failed : (Rule.declaration tokens).result = .error failure) (more : failure.rest ≠ []) :
    (ofTokens source tokens).program.declarations =
        (ofTokens source (failure.recovery tokens)).program.declarations ∧
      (ofTokens source tokens).errors =
        (Rule.declaration tokens).failures.map (Failure.error source) ++
          failure.error source :: (ofTokens source (failure.recovery tokens)).errors := by
  have shorter := Rule.length_recovery_lt failed more
  have nonempty := List.ne_nil_of_length_pos (Nat.zero_lt_of_lt shorter)
  rcases Nat.exists_eq_add_of_lt shorter with ⟨unused, length_eq⟩
  have step := declarations_of_error failed more nonempty
    ((failure.recovery tokens).length + unused)
  rw [← length_eq, declarations_of_enough (Nat.le_add_right _ _)] at step
  simp [ofTokens, step]

end Parsed

end TypedLang
