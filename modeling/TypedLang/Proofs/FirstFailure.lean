import TypedLang.Proofs.Severity
import TypedLang.Proofs.Typing.Untyped

/-!
# The first failing stage

A run reports the errors of one stage, the first one that finds any, and no later stage leaves a
trace: neither in the reports, whose codes all belong to that stage, nor in the tree and the
symbols, which have only what the earlier stages wrote.
-/

namespace TypedLang

/-- Every stage, in the order in which they run. -/
def Stage.all : List Stage :=
  [lexing, parsing, nameResolution, typeChecking]

/-- The codes of the reports that a stage makes. -/
def Stage.codes : Stage → List Code
  | lexing => [⟨1⟩, ⟨2⟩]
  | parsing => [⟨10⟩, ⟨11⟩, ⟨12⟩]
  | nameResolution => [⟨20⟩, ⟨21⟩, ⟨22⟩]
  | typeChecking => [⟨30⟩, ⟨31⟩, ⟨32⟩, ⟨33⟩, ⟨34⟩, ⟨37⟩, ⟨38⟩, ⟨39⟩]

/--
The reports about the errors that a stage finds in a text, when each stage goes on with all that the
ones before it gave, errors or not.
-/
def Stage.reports (registry : Registry) (id : SourceId) (text : Bytes) (interner : Interner)
    (stage : Stage) : List (Except Fault Report) :=
  let scanned := (Lexer.ofText id text interner).tokenize
  let parsed := Parsed.ofTokens id scanned.1
  let resolution := parsed.program.resolve .empty
  let checked := resolution.program.checkKnown resolution.arena
  match stage with
  | lexing => scanned.2.errors.map (LexicalError.report · registry)
  | parsing => parsed.errors.map (ParseError.report · registry)
  | nameResolution =>
      resolution.errors.map (ResolutionError.report · registry scanned.2.interner)
  | typeChecking => checked.errors.map (TypeError.report · registry)

/-- What a run leaves that ends in a stage: nothing that only a later stage writes. -/
def Output.LeftBy (output : Output) : Stage → Prop
  | .lexing => output.program.declarations = [] ∧ output.arena.symbols = []
  | .parsing => output.arena.symbols = [] ∧ output.program.symbols = [] ∧
      ∀ value ∈ output.program.expressions, value.type = none
  | .nameResolution => (∀ value ∈ output.program.expressions, value.type = none) ∧
      ∀ symbol ∈ output.arena.symbols, symbol.type = none
  | .typeChecking => True

/-- The code of a mistake belongs to the stage that finds it. -/
theorem Mistake.code_mem_codes (mistake : Mistake) : mistake.code ∈ mistake.stage.codes := by
  cases mistake with
  | lexing error =>
      change error.code ∈ Stage.lexing.codes
      rw [LexicalError.code]
      split <;> decide
  | parsing error =>
      change error.code ∈ Stage.parsing.codes
      rw [ParseError.code]
      split <;> decide
  | nameResolution error =>
      change error.code ∈ Stage.nameResolution.codes
      rw [ResolutionError.code]
      split <;> decide
  | typeChecking error =>
      change error.code ∈ Stage.typeChecking.codes
      rw [TypeError.code]
      split <;> decide

theorem Parsed.type_eq_none (source : SourceId) (tokens : List Token) :
    ∀ value ∈ (ofTokens source tokens).program.expressions, value.type = none := by
  intro value member
  rcases expressions_spelled source tokens value member with ⟨_, _, spelled⟩
  exact spelled.type_eq_none

/-- Resolution gives no expression of a parsed program a type. -/
theorem Parsed.type_eq_none_of_resolve (source : SourceId) (tokens : List Token) (arena : Arena) :
    ∀ value ∈ ((ofTokens source tokens).program.resolve arena).program.expressions,
      value.type = none := by
  intro value member
  rw [← Program.expressions_leaves] at member
  rcases List.mem_flatMap.mp member with ⟨leaf, leafMem, valueMem⟩
  exact Program.leaves_isUntyped_resolve arena (leaves_isUntyped source tokens) leaf leafMem value
    valueMem

/-- The symbols that resolution adds have no types. -/
theorem Arena.Records.type_eq_none {arena final : Arena} {declarations : List Declaration}
    (records : Records arena declarations final)
    (untyped : ∀ symbol ∈ arena.symbols, symbol.type = none) :
    ∀ symbol ∈ final.symbols, symbol.type = none := by
  induction records with
  | nil => exact untyped
  | refused _ _ ih => exact ih untyped
  | @accepted _ _ declaration _ _ _ ih =>
      refine ih (List.forall_mem_append.mpr ⟨untyped, ?_⟩)
      intro symbol member
      rw [List.mem_singleton.mp member]
      rfl

theorem Parsed.symbol_type_eq_none_of_resolve (source : SourceId) (tokens : List Token) :
    ∀ symbol ∈ ((ofTokens source tokens).program.resolve .empty).arena.symbols,
      symbol.type = none :=
  (Program.resolve_conforms _ .empty (symbols_eq_nil source tokens)).1.type_eq_none nofun

theorem ReportedBy.map_eq {Error : Type} {report : Error → Except Fault Report}
    {errors : List Error} {reports : List Report} (reported : ReportedBy report errors reports) :
    reports.map .ok = errors.map report := by
  induction reported with
  | nil => rfl
  | cons made _ ih => rw [List.map_cons, List.map_cons, made, ih]

namespace Output

/-- A run reports, of what the stages find, that of the first stage that finds anything. -/
structure ReportsFirst (output : Output) (reports : Stage → List (Except Fault Report)) :
    Prop where
  failedStage_eq : output.failedStage = Stage.all.find? fun stage => !(reports stage).isEmpty
  passed : output.failedStage = none → output.diagnostics = []
  failed : ∀ stage, output.failedStage = some stage → output.diagnostics ≠ [] ∧
    output.diagnostics.map .ok = reports stage ∧
    (∀ report ∈ output.diagnostics, report.code ∈ stage.codes) ∧ output.LeftBy stage

/-- What is left to show for a run that ends with the errors of a stage. -/
theorem ReportsFirst.of_failed (registry : Registry) (interner : Interner) {Error : Type}
    (wrap : Error → Mistake) {errors : List Error} {reports : Stage → List (Except Fault Report)}
    {output : Output} {stage : Stage} (staged : ∀ error, (wrap error).stage = stage)
    (failed : output.failedStage = some stage)
    (first : Stage.all.find? (fun stage => !(reports stage).isEmpty) = some stage)
    (reports_eq : reports stage = errors.map fun error => (wrap error).report registry interner)
    (unclean : errors ≠ [])
    (reported : ReportedBy (fun error => (wrap error).report registry interner) errors
      output.diagnostics)
    (left : output.LeftBy stage) : output.ReportsFirst reports := by
  refine ⟨failed.trans first.symm, fun passed => ?_, fun other same => ?_⟩
  · cases failed.symm.trans passed
  · cases failed.symm.trans same
    refine ⟨?_, reported.map_eq.trans reports_eq.symm, ?_, left⟩
    · rw [ne_eq, ← List.length_eq_zero_iff, ← reported.length_eq, List.length_eq_zero_iff]
      exact unclean
    · intro built member
      rcases reported.exists_error member with ⟨error, _, made⟩
      rw [Mistake.code_of_report made, ← staged error]
      exact (wrap error).code_mem_codes

variable {registry : Registry} {id : SourceId} {text : Bytes} {interner final : Interner}
  {output : Output}

theorem EndsRun.reportsFirst (ends : output.EndsRun registry id text interner final) :
    output.ReportsFirst (Stage.reports registry id text interner) := by
  cases ends with
  | lexing scanned unclean reported =>
      refine .of_failed registry interner .lexing (fun _ => rfl) rfl ?_ ?_ unclean reported
        ⟨rfl, rfl⟩
      · simp [Stage.all, Stage.reports, scanned, unclean]
      · simp only [Stage.reports, scanned]
        rfl
  | later scanned clean ends =>
      cases ends with
      | parsing parsed_eq unclean reported =>
          subst parsed_eq
          refine .of_failed registry interner .parsing (fun _ => rfl) rfl ?_ ?_ unclean reported
            ⟨rfl, Parsed.symbols_eq_nil _ _, Parsed.type_eq_none _ _⟩
          · simp [Stage.all, Stage.reports, scanned, clean, unclean]
          · simp only [Stage.reports, scanned]
            rfl
      | nameResolution parsed_eq parsedClean resolution_eq unclean reported =>
          subst parsed_eq resolution_eq
          refine .of_failed registry _ .nameResolution (fun _ => rfl) rfl ?_ ?_ unclean reported
            ⟨Parsed.type_eq_none_of_resolve _ _ _, Parsed.symbol_type_eq_none_of_resolve _ _⟩
          · simp [Stage.all, Stage.reports, scanned, clean, parsedClean, unclean]
          · simp only [Stage.reports, scanned]
            rfl
      | typeChecking parsed_eq parsedClean resolution_eq resolved checked_eq unclean reported =>
          subst parsed_eq resolution_eq
          cases Program.eq_of_check checked_eq
          refine .of_failed registry interner .typeChecking (fun _ => rfl) rfl ?_ ?_ unclean
            reported trivial
          · simp [Stage.all, Stage.reports, scanned, clean, parsedClean, resolved, unclean]
          · simp only [Stage.reports, scanned]
            rfl
      | passed parsed_eq parsedClean resolution_eq resolved checked_eq checkedClean =>
          subst parsed_eq resolution_eq
          cases Program.eq_of_check checked_eq
          refine ⟨?_, fun _ => rfl, nofun⟩
          simp [Stage.all, Stage.reports, scanned, clean, parsedClean, resolved, checkedClean]

end Output

/-- Reports of which each makes a run fail, and of which there is one, make it fail. -/
theorem Report.anyFailure_eq_true {reports : List Report} (reported : reports ≠ [])
    (severe : ∀ report ∈ reports, report.severity = .error) : anyFailure reports = true := by
  rcases List.exists_mem_of_ne_nil reports reported with ⟨report, member⟩
  refine List.any_eq_true.mpr ⟨report, member, ?_⟩
  rw [severe report member]
  rfl

/--
Every run on a text reports the first failing stage only. It failed in the first stage that finds
errors in what the earlier ones gave, and in none if there is no such stage, which is so exactly if
there are no reports. The reports are those about the errors of that stage, one for each in order;
their codes belong to the stage, and they make the run fail. No later stage has written anything:
behind the lexer there is no declaration and no symbol, behind the parser nothing is annotated, and
behind name resolution no expression and no symbol has a type.
-/
theorem compileText_reports_first_failing_stage (text name : Bytes) :
    ∃ compilation, compileText text name = .ok compilation ∧
      let output := compilation.output
      let reports := Stage.reports compilation.registry compilation.source text .empty
      output.failedStage = Stage.all.find? (fun stage => !(reports stage).isEmpty) ∧
      (output.failedStage = none ↔ output.diagnostics = []) ∧
      ∀ stage, output.failedStage = some stage →
        output.diagnostics.map .ok = reports stage ∧
        (∀ report ∈ output.diagnostics, report.code ∈ stage.codes) ∧
        Report.anyFailure output.diagnostics = true ∧
        output.LeftBy stage := by
  rcases exists_endsRun_compileText text name with ⟨compilation, compiled, ends⟩
  have first := ends.reportsFirst
  refine ⟨compilation, compiled, first.failedStage_eq, ⟨first.passed, ?_⟩, ?_⟩
  · intro silent
    by_contra failed
    rcases Option.ne_none_iff_exists'.mp failed with ⟨stage, failed⟩
    exact (first.failed stage failed).1 silent
  · intro stage failed
    rcases first.failed stage failed with ⟨reported, reports_eq, codes, left⟩
    exact ⟨reports_eq, codes, Report.anyFailure_eq_true reported ends.severity_eq, left⟩

end TypedLang
