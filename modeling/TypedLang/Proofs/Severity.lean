import TypedLang.Proofs.Compilation
import TypedLang.Proofs.Outcome
import TypedLang.Proofs.Typing.Symbols

/-!
# No run reports a defect

Reports of the severest kind stand for defects of the compiler itself: a parser that reads on behind
the end of its tokens, a symbol that is given a type twice, a type or a symbol that an earlier stage
failed to provide. No run makes such a report. Every rule of the parser looks at a token before it
takes it, and what the checker finds behind a resolution without errors are violations of the typing
rules.
-/

namespace TypedLang

theorem Failure.Blames.cause_error_ne {failure : Failure} {tokens : List Token}
    (blames : failure.Blames tokens) (source : SourceId) :
    (failure.error source).cause ≠ .internalEndOfInput := by
  rw [error, blames.not_pastEnd]
  simp only [Bool.false_eq_true, if_false]
  split
  · simp
  · simp

theorem Parsed.cause_ne_internalEndOfInput {source : SourceId} {tokens : List Token} :
    ∀ error ∈ (ofTokens source tokens).errors, error.cause ≠ .internalEndOfInput := by
  intro error member
  rcases List.mem_map.mp member with ⟨failure, failed, rfl⟩
  exact (declarations_blame _ tokens failure failed).cause_error_ne source

theorem ParseError.severity_eq_error {error : ParseError}
    (noDefect : error.cause ≠ .internalEndOfInput) : error.severity = .error := by
  rw [severity]
  split
  · rfl
  · rfl
  · rename_i cause_eq
    exact absurd cause_eq noDefect

theorem TypeError.severity_eq_error {error : TypeError} (noDefect : ¬ error.cause.IsDefect) :
    error.severity = .error := by
  rw [severity]
  split
  · rename_i cause_eq
    exact absurd (cause_eq ▸ .typeAlreadyAssigned) noDefect
  · rename_i cause_eq
    exact absurd (cause_eq ▸ .missingType) noDefect
  · rename_i cause_eq
    exact absurd (cause_eq ▸ .missingSymbol) noDefect
  · rfl

theorem Outcome.severity_eq_of_mem_ofTokens {source : SourceId} {tokens : List Token}
    {mistake : Mistake} (member : mistake ∈ (ofTokens source tokens).mistakes) :
    mistake.severity = .error := by
  rw [ofTokens] at member
  split at member
  · rcases List.mem_map.mp member with ⟨error, errorMem, rfl⟩
    exact ParseError.severity_eq_error (Parsed.cause_ne_internalEndOfInput error errorMem)
  split at member
  · rcases List.mem_map.mp member with ⟨error, _, rfl⟩
    rfl
  · rename_i clean
    rcases List.mem_map.mp member with ⟨error, errorMem, rfl⟩
    rcases Program.check_noDefect (Parsed.symbols_eq_nil source tokens) (by simpa using clean) with
      ⟨checked, checks, noDefect⟩
    cases Program.eq_of_check checks
    exact TypeError.severity_eq_error (noDefect error errorMem)

theorem Outcome.severity_eq_of_mem_ofText {id : SourceId} {text : Bytes} {interner : Interner}
    {mistake : Mistake} (member : mistake ∈ (ofText id text interner).mistakes) :
    mistake.severity = .error := by
  rw [ofText] at member
  split at member
  · rcases List.mem_map.mp member with ⟨error, _, rfl⟩
    rfl
  · exact severity_eq_of_mem_ofTokens member

theorem Output.EndsRun.severity_eq {registry : Registry} {id : SourceId} {text : Bytes}
    {interner final : Interner} {output : Output}
    (ends : output.EndsRun registry id text interner final) :
    ∀ report ∈ output.diagnostics, report.severity = .error := by
  intro report member
  rcases ends.tells.1.reported.exists_error member with ⟨mistake, mistakeMem, made⟩
  rw [Mistake.severity_of_report made]
  exact Outcome.severity_eq_of_mem_ofText mistakeMem

/--
No run reports a defect: the parser never reads on behind the end, and behind a resolution without
errors the checker gives no symbol a type twice and misses no type and no symbol.
-/
theorem compileText_reports_no_defect (text name : Bytes) (source : SourceId)
    (tokens : List Token) :
    let parsed := Parsed.ofTokens source tokens
    let resolution := parsed.program.resolve .empty
    (∃ compilation, compileText text name = .ok compilation ∧
      ∀ report ∈ compilation.output.diagnostics, report.severity ≠ .bug) ∧
    (∀ error ∈ parsed.errors, error.cause ≠ .internalEndOfInput) ∧
    parsed.program.tryResolve .empty = .ok resolution ∧
    (resolution.errors = [] → ∃ checked,
      resolution.program.check resolution.arena = .ok checked ∧
        ∀ error ∈ checked.errors, error.cause ≠ .typeAlreadyAssigned ∧
          error.cause ≠ .missingType ∧ error.cause ≠ .missingSymbol) := by
  intro parsed resolution
  have fresh : parsed.program.symbols = [] := Parsed.symbols_eq_nil source tokens
  refine ⟨?_, Parsed.cause_ne_internalEndOfInput, parsed.program.tryResolve_eq .empty fresh, ?_⟩
  · rcases added : Registry.empty.add name text with ⟨id, registry⟩
    have found : registry.get id = .ok ⟨name, text⟩ := by
      cases added
      rfl
    rcases compile_isOk found .empty with ⟨output, final, compiled, _⟩
    refine ⟨⟨registry, final, id, output⟩, ?_, ?_⟩
    · rw [compileText, added]
      simp only [compiled, Bind.bind, Except.bind]
      rfl
    · intro report member
      rw [(Output.endsRun_of_compile found compiled).severity_eq report member]
      simp
  · intro clean
    rcases Program.check_noDefect fresh clean with ⟨checked, checks, noDefect⟩
    refine ⟨checked, checks, ?_⟩
    intro error member
    have sound := noDefect error member
    exact ⟨fun cause_eq => sound (cause_eq ▸ .typeAlreadyAssigned),
      fun cause_eq => sound (cause_eq ▸ .missingType),
      fun cause_eq => sound (cause_eq ▸ .missingSymbol)⟩

/-- A program with a user error in it: a number for a truth value. -/
theorem compileText_reports_no_defect_mismatch :
    let tokens : List Token :=
      [⟨.keyword .letWord, .single 0⟩, ⟨.identifier 0, .single 1⟩, ⟨.punct .atSign, .single 2⟩,
        ⟨.typeName .bool, .single 3⟩, ⟨.punct .equal, .single 4⟩, ⟨.integer 1, .single 5⟩,
        ⟨.punct .semicolon, .single 6⟩]
    let resolution := (Parsed.ofTokens 0 tokens).program.resolve .empty
    resolution.errors = [] ∧ ∃ checked,
      resolution.program.check resolution.arena = .ok checked ∧
        ∀ error ∈ checked.errors, error.cause ≠ .typeAlreadyAssigned ∧
          error.cause ≠ .missingType ∧ error.cause ≠ .missingSymbol :=
  ⟨by decide, (compileText_reports_no_defect [] defaultName 0 _).2.2.2 (by decide)⟩

end TypedLang
