import TypedLang.Compile
import TypedLang.Proofs.Parsing.Fresh
import TypedLang.Proofs.Scope.Guard

/-!
# The stages of a run

Where the reports of a run come from. A run that ends with an outcome ended in one of its stages,
and its reports are about the errors of that stage, one for each in order.
-/

namespace TypedLang

theorem exists_of_bind_eq_ok {Error Value Result : Type} {first : Except Error Value}
    {next : Value → Except Error Result} {result : Result} (eq : first >>= next = .ok result) :
    ∃ value, first = .ok value ∧ next value = .ok result := by
  cases first with
  | error error => cases eq
  | ok value => exact ⟨value, rfl, eq⟩

/-- Reports about errors, one for each in order. -/
def ReportedBy {Error : Type} (report : Error → Except Fault Report) (errors : List Error)
    (reports : List Report) : Prop :=
  List.Forall₂ (fun error built => report error = .ok built) errors reports

namespace ReportedBy

variable {Error : Type} {report : Error → Except Fault Report} {errors : List Error}
  {reports : List Report}

theorem of_mapM (reported : errors.mapM report = .ok reports) :
    ReportedBy report errors reports := by
  induction errors generalizing reports with
  | nil =>
      cases reported
      exact .nil
  | cons first rest ih =>
      rw [List.mapM_cons] at reported
      rcases exists_of_bind_eq_ok reported with ⟨built, firstReported, reported⟩
      rcases exists_of_bind_eq_ok reported with ⟨others, restReported, reported⟩
      cases reported
      exact .cons firstReported (ih restReported)

/-- Every report is about one of the errors. -/
theorem exists_error (reported : ReportedBy report errors reports) {built : Report}
    (member : built ∈ reports) : ∃ error ∈ errors, report error = .ok built := by
  induction reported with
  | nil => cases member
  | cons first _ ih =>
      rcases List.mem_cons.mp member with rfl | member
      · exact ⟨_, List.mem_cons_self, first⟩
      · rcases ih member with ⟨error, errorMem, made⟩
        exact ⟨error, List.mem_cons_of_mem _ errorMem, made⟩

end ReportedBy

/-- The outcome of a run on tokens: that of the first stage with errors, or that of the last one. -/
inductive Output.EndsIn (registry : Registry) (interner : Interner) (source : SourceId)
    (tokens : List Token) : Output → Prop where
  | parsing {parsed : Parsed} {reports : List Report} :
      Parsed.ofTokens source tokens = parsed → parsed.errors ≠ [] →
      ReportedBy (ParseError.report · registry) parsed.errors reports →
      EndsIn registry interner source tokens ⟨parsed.program, .empty, some .parsing, reports⟩
  | nameResolution {parsed : Parsed} {resolution : Resolution} {reports : List Report} :
      Parsed.ofTokens source tokens = parsed → parsed.errors = [] →
      parsed.program.resolve .empty = resolution → resolution.errors ≠ [] →
      ReportedBy (ResolutionError.report · registry interner) resolution.errors reports →
      EndsIn registry interner source tokens
        ⟨resolution.program, resolution.arena, some .nameResolution, reports⟩
  | typeChecking {parsed : Parsed} {resolution : Resolution} {checked : Checked Program}
      {reports : List Report} :
      Parsed.ofTokens source tokens = parsed → parsed.errors = [] →
      parsed.program.resolve .empty = resolution → resolution.errors = [] →
      resolution.program.check resolution.arena = .ok checked → checked.errors ≠ [] →
      ReportedBy (TypeError.report · registry) checked.errors reports →
      EndsIn registry interner source tokens
        ⟨checked.piece, checked.arena, some .typeChecking, reports⟩
  | passed {parsed : Parsed} {resolution : Resolution} {checked : Checked Program} :
      Parsed.ofTokens source tokens = parsed → parsed.errors = [] →
      parsed.program.resolve .empty = resolution → resolution.errors = [] →
      resolution.program.check resolution.arena = .ok checked → checked.errors = [] →
      EndsIn registry interner source tokens ⟨checked.piece, checked.arena, none, []⟩

/-- The last two stages end with the errors of the resolution, or with what the checker found. -/
theorem Program.analyze_cases {program : Program} {analysis : Analysis}
    (fresh : program.symbols = []) (analyzed : program.analyze .empty = .ok analysis) :
    let resolution := program.resolve .empty
    (resolution.errors ≠ [] ∧ analysis =
      ⟨resolution.program, resolution.arena, some .nameResolution, resolution.errors, []⟩) ∨
    ∃ checked, resolution.errors = [] ∧
      resolution.program.check resolution.arena = .ok checked ∧ analysis =
        ⟨checked.piece, checked.arena,
          if checked.errors.isEmpty then none else some .typeChecking, [], checked.errors⟩ := by
  intro resolution
  rw [analyze, program.tryResolve_eq .empty fresh] at analyzed
  change (if resolution.errors.isEmpty then _ else _) = _ at analyzed
  split at analyzed
  · rename_i clean
    rcases exists_of_bind_eq_ok analyzed with ⟨checked, checkedEq, analyzed⟩
    cases analyzed
    exact .inr ⟨checked, List.isEmpty_iff.mp clean, checkedEq, rfl⟩
  · rename_i unclean
    cases analyzed
    exact .inl ⟨fun clean => unclean (List.isEmpty_iff.mpr clean), rfl⟩

theorem Output.endsIn_of_ofTokens {registry : Registry} {interner : Interner} {source : SourceId}
    {tokens : List Token} {output : Output}
    (made : ofTokens registry interner source tokens = .ok output) :
    output.EndsIn registry interner source tokens := by
  rw [ofTokens] at made
  by_cases parsedClean : (Parsed.ofTokens source tokens).errors = []
  · simp only [Parsed.success, parsedClean, List.isEmpty_nil, ↓reduceIte] at made
    rcases exists_of_bind_eq_ok made with ⟨analysis, analyzed, made⟩
    rcases exists_of_bind_eq_ok made with ⟨resolutionReports, resolutionReported, made⟩
    rcases exists_of_bind_eq_ok made with ⟨typeReports, typeReported, made⟩
    cases made
    rcases Program.analyze_cases (Parsed.symbols_eq_nil source tokens) analyzed with
      ⟨unclean, rfl⟩ | ⟨checked, clean, checkedEq, rfl⟩
    · cases ReportedBy.of_mapM typeReported
      rw [List.append_nil]
      exact .nameResolution rfl parsedClean rfl unclean (.of_mapM resolutionReported)
    · cases ReportedBy.of_mapM resolutionReported
      by_cases typesClean : checked.errors = []
      · simp only [typesClean] at typeReported ⊢
        cases ReportedBy.of_mapM typeReported
        exact .passed rfl parsedClean rfl clean checkedEq typesClean
      · simp only [List.isEmpty_eq_false_iff.mpr typesClean]
        exact .typeChecking rfl parsedClean rfl clean checkedEq typesClean (.of_mapM typeReported)
  · have failed : (Parsed.ofTokens source tokens).success = false := by
      simpa [Parsed.success] using parsedClean
    simp only [failed, Bool.false_eq_true, ↓reduceIte] at made
    rcases exists_of_bind_eq_ok made with ⟨reports, reported, made⟩
    cases made
    exact .parsing rfl parsedClean (.of_mapM reported)

/-- The outcome of a run on a text: that of the lexer if it found errors, or that of its tokens. -/
inductive Output.EndsRun (registry : Registry) (id : SourceId) (text : Bytes)
    (interner : Interner) : Output → Interner → Prop where
  | lexing {tokens : List Token} {final : Lexer} {reports : List Report} :
      (Lexer.ofText id text interner).tokenize = (tokens, final) → final.errors ≠ [] →
      ReportedBy (LexicalError.report · registry) final.errors reports →
      EndsRun registry id text interner ⟨.empty id, .empty, some .lexing, reports⟩ final.interner
  | later {tokens : List Token} {final : Lexer} {output : Output} :
      (Lexer.ofText id text interner).tokenize = (tokens, final) → final.errors = [] →
      output.EndsIn registry final.interner id tokens →
      EndsRun registry id text interner output final.interner

theorem Output.endsRun_of_compile {registry : Registry} {id : SourceId} {source : Source}
    {interner final : Interner} {output : Output} (found : registry.get id = .ok source)
    (compiled : compile registry id interner = .ok (output, final)) :
    output.EndsRun registry id source.text interner final := by
  rw [compile, Lexer.ofSource, found] at compiled
  simp only [Bind.bind, Except.bind, Pure.pure, Except.pure] at compiled
  rcases scanned : (Lexer.ofText id source.text interner).tokenize with ⟨tokens, lexer⟩
  rw [scanned] at compiled
  split at compiled
  · rename_i clean
    rcases exists_of_bind_eq_ok compiled with ⟨made, madeEq, compiled⟩
    cases compiled
    exact .later scanned (List.isEmpty_iff.mp clean) (endsIn_of_ofTokens madeEq)
  · rename_i unclean
    rcases exists_of_bind_eq_ok compiled with ⟨reports, reported, compiled⟩
    cases compiled
    exact .lexing scanned (fun clean => unclean (List.isEmpty_iff.mpr clean)) (.of_mapM reported)

end TypedLang
