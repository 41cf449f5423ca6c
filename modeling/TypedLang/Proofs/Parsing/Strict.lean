import TypedLang.Proofs.Parsing.Peeking
import TypedLang.Proofs.Parsing.Soundness

/-!
# Attempts up to the first failure

An attempt goes on behind a failure from which its rule recovers. For the question which failure
comes first, all that is of no account: up to there an attempt is a rule like any other, one that
stops where the attempt recovers for the first time.
-/

namespace TypedLang

namespace Attempt

variable {Result Other : Type}

/-- The outcome of an attempt for which the first failure counts, recovered from or not. -/
def strict (attempt : Attempt Result) : Except Failure (Result × List Token) :=
  match attempt.failures with
  | [] => attempt.result
  | failure :: _ => .error failure

@[simp]
theorem strict_ofResult (result : Except Failure (Result × List Token)) :
    (ofResult result).strict = result :=
  rfl

theorem strict_map (convert : Result → Other) (attempt : Attempt Result) :
    (attempt.map convert).strict =
      attempt.strict.map fun (value, rest) => (convert value, rest) := by
  rcases attempt with ⟨_ | ⟨failure, failures⟩, result⟩
  · rfl
  · rfl

theorem strict_andThen (attempt : Attempt Result) (next : Result → List Token → Attempt Other) :
    (attempt.andThen next).strict =
      attempt.strict >>= fun (value, rest) => (next value rest).strict := by
  rcases attempt with ⟨_ | ⟨failure, failures⟩, _ | ⟨value, rest⟩⟩
  · rfl
  · rfl
  · rfl
  · rfl

@[simp]
theorem strict_after_singleton (failure : Failure) (attempt : Attempt Result) :
    (attempt.after [failure]).strict = .error failure :=
  rfl

section Reads

variable {attempt : Attempt Result} {tokens : List Token}
  {spelled : Prop → List Token → Result → Prop}

theorem Reads.of_strict_eq_ok (reads : attempt.Reads tokens spelled) {value : Result}
    {rest : List Token} (read : attempt.strict = .ok (value, rest)) :
    ∃ used, tokens = used ++ rest ∧ spelled False used value := by
  rcases attempt with ⟨_ | ⟨failure, failures⟩, result⟩
  · simpa using reads.ok read
  · cases read

theorem Reads.of_strict_eq_error (reads : attempt.Reads tokens spelled) {failure : Failure}
    (failed : attempt.strict = .error failure) : failure.Blames tokens := by
  rcases attempt with ⟨_ | ⟨first, failures⟩, result⟩
  · exact reads.error failed
  · cases failed
    exact reads.recovered _ List.mem_cons_self

/-- Up to the first failure, an attempt reads what it reads without a recovery. -/
theorem reads_strict {attempt : List Token → Attempt Result}
    (reads : ∀ tokens, (attempt tokens).Reads tokens spelled) :
    Rule.Reads (fun tokens => (attempt tokens).strict) (spelled False) where
  ok read := (reads _).of_strict_eq_ok read
  error failed := (reads _).of_strict_eq_error failed

end Reads

end Attempt

namespace Rule

/-- The rest of a block, up to the first failure. -/
def strictBlock (fuel : Nat) : Rule (List Stmt × Span) :=
  fun tokens => (blockRest fuel tokens).strict

theorem strictBlock_reads (fuel : Nat) : (strictBlock fuel).Reads (Stmt.SpelledRest False) :=
  Attempt.reads_strict (blockRest_reads fuel)

theorem strictBlock_succ (fuel : Nat) :
    strictBlock (fuel + 1) = peeking fun head =>
      if head.map Token.kind = none then reject [.punct .rightBrace]
      else if head.map Token.kind = some (.punct .rightBrace) then
        advance.seq fun close => succeed ([], close.span)
      else if head.map Token.kind = some (.punct .leftBrace) then
        (expect (.punct .leftBrace)).seq fun opening => (strictBlock fuel).seq fun first =>
          (strictBlock fuel).seq fun others =>
            succeed (.block first.1 (opening.combine first.2) :: others.1, others.2)
      else
        statement.seq fun first => (strictBlock fuel).seq fun others =>
          succeed (first :: others.1, others.2) := by
  funext tokens
  change (blockRest (fuel + 1) tokens).strict = _
  rw [blockRest_succ, peeking]
  split
  · rfl
  split
  · rfl
  split
  · simp only [Attempt.strict_andThen, Attempt.strict_map, Attempt.strict_ofResult]
    rfl
  · simp only [seq]
    cases statement tokens with
    | ok taken => exact Attempt.strict_map _ _
    | error failure =>
        simp only
        split
        · rfl
        · rfl

/-- What follows the keyword of a function declaration, up to the first failure. -/
def strictFunDecl (keyword : Span) : Rule FunDecl :=
  fun tokens => (funDecl keyword tokens).strict

theorem strictFunDecl_eq (keyword : Span) :
    strictFunDecl keyword = funHeader.seq fun header => (fueled strictBlock).seq fun body =>
      succeed ⟨header.name, header.parameters, header.returnType,
        ⟨body.1, header.opening.combine body.2⟩, none,
        keyword.combine (header.opening.combine body.2)⟩ := by
  funext tokens
  simp only [strictFunDecl, funDecl, Attempt.strict_andThen, Attempt.strict_map,
    Attempt.strict_ofResult]
  rfl

/-- A declaration, up to the first failure. -/
def strictDeclaration : Rule Decl :=
  fun tokens => (declaration tokens).strict

theorem strictDeclaration_reads : strictDeclaration.Reads (Decl.Spelled False) :=
  Attempt.reads_strict declaration_reads

/-- Behind a declaration there are fewer tokens than before. -/
theorem length_lt_of_strictDeclaration {tokens rest : List Token} {decl : Decl}
    (read : strictDeclaration tokens = .ok (decl, rest)) : rest.length < tokens.length := by
  rcases strictDeclaration_reads.ok read with ⟨used, rfl, spelled⟩
  have nonempty := List.length_pos_iff.mpr spelled.ne_nil
  rw [List.length_append]
  omega

theorem strictDeclaration_eq :
    strictDeclaration = peeking fun head =>
      if head.map Token.kind = some (.keyword .funWord) then
        (expect (.keyword .funWord)).seq fun keyword => (strictFunDecl keyword).seq fun decl =>
          succeed (.funDecl decl)
      else if head.map Token.kind = some (.keyword .letWord) then
        (expect (.keyword .letWord)).seq fun keyword => (letDecl keyword).seq fun decl =>
          succeed (.letDecl decl)
      else reject [.keyword .funWord, .keyword .letWord] := by
  funext tokens
  change (declaration tokens).strict = _
  rw [declaration_eq, peeking]
  split
  · simp only [Attempt.strict_andThen, Attempt.strict_map]
    rfl
  split
  · simp only [Attempt.strict_andThen, Attempt.strict_map]
    rfl
  · rfl

end Rule

namespace Parsed

/-- The first failure of a program is that of its first declaration, or the first one behind it. -/
theorem head?_failures_succ (fuel : Nat) {tokens : List Token} (nonempty : tokens ≠ []) :
    (declarations (fuel + 1) tokens).2.head? =
      match Rule.strictDeclaration tokens with
      | .ok (_, rest) => (declarations fuel rest).2.head?
      | .error failure => some failure := by
  rcases List.exists_cons_of_ne_nil nonempty with ⟨token, rest, rfl⟩
  rw [Rule.strictDeclaration, declarations]
  rcases Rule.declaration (token :: rest) with ⟨_ | ⟨failure, failures⟩, _ | ⟨decl, behind⟩⟩
  · simp only [Attempt.strict]
    split <;> rfl
  · rfl
  · simp only [Attempt.strict]
    split <;> rfl
  · rfl

end Parsed

end TypedLang
