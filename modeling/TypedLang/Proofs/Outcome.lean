import TypedLang.Proofs.Reports.Finished
import TypedLang.Proofs.Stages

/-!
# Outcomes

What a run finds, before it makes reports of it: a program, its symbols and the mistakes of one
stage. An outcome is a function of the tokens; the registry and the interner matter only for the
reports, of which each says what its mistake says.
-/

namespace TypedLang

/-- An error of one of the stages. -/
inductive Mistake where
  | lexing (error : LexicalError)
  | parsing (error : ParseError)
  | nameResolution (error : ResolutionError)
  | typeChecking (error : TypeError)

/-- The place of the label of a lexical error, with its message. -/
def LexicalError.places (error : LexicalError) : List (Span × Option Bytes) :=
  [(error.span, error.labelMessage)]

/-- The place of the label of a parse error, with its message, if a token was found. -/
def ParseError.places (error : ParseError) : List (Span × Option Bytes) :=
  match error.cause with
  | .unexpectedToken (some span) got _ => [(span, some (Bytes.concat ["found ", found got]))]
  | _ => []

/-- The places of the labels of a resolution error, with their messages. -/
def ResolutionError.places (error : ResolutionError) : List (Span × Option Bytes) :=
  match error.cause with
  | .nameAlreadyUsed _ (some earlier) =>
      [(earlier, some "first declared here"), (error.span, some error.labelMessage)]
  | _ => [(error.span, error.labelMessage)]

/-- The places of the labels of a type error, with their messages. -/
def TypeError.places (error : TypeError) : List (Span × Option Bytes) :=
  match error.origin with
  | none => [(error.span, error.labelMessage)]
  | some (span, message) => [(span, some message), (error.span, error.labelMessage)]

namespace Mistake

/-- The stage that finds a mistake. -/
def stage : Mistake → Stage
  | lexing _ => .lexing
  | parsing _ => .parsing
  | nameResolution _ => .nameResolution
  | typeChecking _ => .typeChecking

/-- The source that a mistake is in. -/
def source : Mistake → SourceId
  | lexing error => error.source
  | parsing error => error.source
  | nameResolution error => error.source
  | typeChecking error => error.source

/-- The severity of a mistake. -/
def severity : Mistake → Severity
  | lexing _ => .error
  | parsing error => error.severity
  | nameResolution _ => .error
  | typeChecking error => error.severity

/-- The code of a mistake. -/
def code : Mistake → Code
  | lexing error => error.code
  | parsing error => error.code
  | nameResolution error => error.code
  | typeChecking error => error.code

/-- The message about a mistake. -/
def message (interner : Interner) : Mistake → Except Fault Bytes
  | lexing error => .ok error.message
  | parsing error => .ok error.message
  | nameResolution error => error.message interner
  | typeChecking error => .ok error.message

/-- The places that a mistake refers to, with the messages of their labels. -/
def places : Mistake → List (Span × Option Bytes)
  | lexing error => error.places
  | parsing error => error.places
  | nameResolution error => error.places
  | typeChecking error => error.places

/-- The report about a mistake. -/
def report (registry : Registry) (interner : Interner) : Mistake → Except Fault Report
  | lexing error => error.report registry
  | parsing error => error.report registry
  | nameResolution error => error.report registry interner
  | typeChecking error => error.report registry

end Mistake

/-- Labels of a source at some places, one for each in order. -/
def Label.MadeAt (registry : Registry) (source : SourceId) (places : List (Span × Option Bytes))
    (labels : List Label) : Prop :=
  List.Forall₂ (fun place label => registry.label source place.1 place.2 = .ok label) places labels

variable {registry : Registry} {interner : Interner} {report : Report}

theorem ParseError.labels_madeAt {error : ParseError} {labels : List Label}
    (made : error.labels registry = .ok labels) :
    Label.MadeAt registry error.source error.places labels := by
  rcases error with ⟨source, cause⟩
  rcases cause with ⟨_ | span, got, expected⟩ | expected | _
  · cases made
    exact .nil
  · rcases exists_of_bind_eq_ok made with ⟨label, labelled, made⟩
    cases made
    exact .cons labelled .nil
  · cases made
    exact .nil
  · cases made
    exact .nil

theorem ResolutionError.labels_madeAt {error : ResolutionError} {labels : List Label}
    (made : error.labels registry = .ok labels) :
    Label.MadeAt registry error.source error.places labels := by
  rcases exists_of_bind_eq_ok made with ⟨earlier, earlierMade, made⟩
  rcases exists_of_bind_eq_ok made with ⟨label, labelled, made⟩
  cases made
  rcases error with ⟨source, span, cause⟩
  rcases cause with name | ⟨name, _ | place⟩ | ⟨name, expected, found⟩
  · cases earlierMade
    exact .cons labelled .nil
  · cases earlierMade
    exact .cons labelled .nil
  · rcases exists_of_bind_eq_ok earlierMade with ⟨first, firstLabelled, earlierMade⟩
    cases earlierMade
    exact .cons firstLabelled (.cons labelled .nil)
  · cases earlierMade
    exact .cons labelled .nil

theorem TypeError.labels_madeAt {error : TypeError} {labels : List Label}
    (made : error.labels registry = .ok labels) :
    Label.MadeAt registry error.source error.places labels := by
  rw [TypeError.labels] at made
  rw [places]
  generalize error.origin = origin at made ⊢
  rcases origin with _ | ⟨span, message⟩
  · rcases exists_of_bind_eq_ok made with ⟨label, labelled, made⟩
    cases made
    exact .cons labelled .nil
  · rcases exists_of_bind_eq_ok made with ⟨origin, originLabelled, made⟩
    rcases exists_of_bind_eq_ok made with ⟨label, labelled, made⟩
    cases made
    exact .cons originLabelled (.cons labelled .nil)

/-- A report says what its mistake says. -/
theorem Mistake.exists_of_report {mistake : Mistake}
    (made : mistake.report registry interner = .ok report) :
    ∃ message labels, mistake.message interner = .ok message ∧
      Label.MadeAt registry mistake.source mistake.places labels ∧
      report = ⟨mistake.severity, mistake.code, message, labels, []⟩ := by
  cases mistake with
  | lexing error =>
      rcases LexicalError.exists_of_report made with ⟨label, labelled, rfl⟩
      exact ⟨_, _, rfl, .cons labelled .nil, rfl⟩
  | parsing error =>
      rcases ParseError.exists_of_report made with ⟨labels, labelled, rfl⟩
      exact ⟨_, _, rfl, ParseError.labels_madeAt labelled, rfl⟩
  | nameResolution error =>
      rcases ResolutionError.exists_of_report made with ⟨message, labels, told, labelled, rfl⟩
      exact ⟨_, _, told, ResolutionError.labels_madeAt labelled, rfl⟩
  | typeChecking error =>
      rcases TypeError.exists_of_report made with ⟨labels, labelled, rfl⟩
      exact ⟨_, _, rfl, TypeError.labels_madeAt labelled, rfl⟩

theorem Mistake.severity_of_report {mistake : Mistake}
    (made : mistake.report registry interner = .ok report) :
    report.severity = mistake.severity := by
  rcases exists_of_report made with ⟨_, _, _, _, rfl⟩
  rfl

theorem Mistake.code_of_report {mistake : Mistake}
    (made : mistake.report registry interner = .ok report) : report.code = mistake.code := by
  rcases exists_of_report made with ⟨_, _, _, _, rfl⟩
  rfl

/-- A check that is not refused gives what the checker finds. -/
theorem Program.eq_of_check {program : Program} {arena : Arena} {checked : Checked Program}
    (made : program.check arena = .ok checked) : checked = program.checkKnown arena := by
  rw [check] at made
  split at made
  · cases made
    rfl
  · cases made

/-- What holds of reports about related errors holds of all reports of two runs, in pairs. -/
theorem ReportedBy.forall₂ {Error Other : Type} {related : Error → Other → Prop}
    {agree : Report → Report → Prop} {report : Error → Except Fault Report}
    {otherReport : Other → Except Fault Report}
    (each : ∀ error other built otherBuilt, related error other → report error = .ok built →
      otherReport other = .ok otherBuilt → agree built otherBuilt)
    {errors : List Error} {others : List Other} (pairs : List.Forall₂ related errors others)
    {reports otherReports : List Report} (reported : ReportedBy report errors reports)
    (otherReported : ReportedBy otherReport others otherReports) :
    List.Forall₂ agree reports otherReports := by
  induction pairs generalizing reports otherReports with
  | nil =>
      cases reported
      cases otherReported
      exact .nil
  | cons first _ ih =>
      rcases reported with _ | ⟨made, rest⟩
      rcases otherReported with _ | ⟨otherMade, otherRest⟩
      exact .cons (each _ _ _ _ first made otherMade) (ih rest otherRest)

/-- What a run finds. -/
structure Outcome where
  program : Program
  arena : Arena
  mistakes : List Mistake

namespace Outcome

/-- The stage that finds the mistakes, if there are any. -/
def failedStage (outcome : Outcome) : Option Stage :=
  outcome.mistakes.head?.map Mistake.stage

/-- What a run finds in tokens: the mistakes of the first stage that finds any. -/
def ofTokens (source : SourceId) (tokens : List Token) : Outcome :=
  let parsed := Parsed.ofTokens source tokens
  let resolution := parsed.program.resolve .empty
  let checked := resolution.program.checkKnown resolution.arena
  if !parsed.errors.isEmpty then ⟨parsed.program, .empty, parsed.errors.map .parsing⟩
  else if !resolution.errors.isEmpty then
    ⟨resolution.program, resolution.arena, resolution.errors.map .nameResolution⟩
  else ⟨checked.piece, checked.arena, checked.errors.map .typeChecking⟩

/-- What a run finds in a text. -/
def ofText (id : SourceId) (text : Bytes) (interner : Interner) : Outcome :=
  let scanned := (Lexer.ofText id text interner).tokenize
  if !scanned.2.errors.isEmpty then ⟨.empty id, .empty, scanned.2.errors.map .lexing⟩
  else ofTokens id scanned.1

end Outcome

namespace Output

/-- An output tells an outcome: it has the same failed stage, and each mistake is reported. -/
structure Tells (registry : Registry) (interner : Interner) (outcome : Outcome) (output : Output) :
    Prop where
  program_eq : output.program = outcome.program
  arena_eq : output.arena = outcome.arena
  failedStage_eq : output.failedStage = outcome.failedStage
  reported : ReportedBy (Mistake.report registry interner) outcome.mistakes output.diagnostics

theorem Tells.of_errors {Error : Type} (wrap : Error → Mistake) {stage : Stage}
    (staged : ∀ error, (wrap error).stage = stage) {errors : List Error} (unclean : errors ≠ [])
    {reports : List Report}
    (reported : ReportedBy (fun error => (wrap error).report registry interner) errors reports)
    (program : Program) (arena : Arena) :
    Tells registry interner ⟨program, arena, errors.map wrap⟩
      ⟨program, arena, some stage, reports⟩ := by
  refine ⟨rfl, rfl, ?_, List.forall₂_map_left_iff.mpr reported⟩
  rcases List.exists_cons_of_ne_nil unclean with ⟨first, rest, rfl⟩
  simp only [Outcome.failedStage, List.map_cons, List.head?_cons, Option.map_some, staged]

theorem EndsIn.tells {source : SourceId} {tokens : List Token} {output : Output}
    (ends : output.EndsIn registry interner source tokens) :
    output.Tells registry interner (.ofTokens source tokens) := by
  cases ends with
  | parsing parsed_eq unclean reported =>
      subst parsed_eq
      rw [Outcome.ofTokens, if_pos (by simpa using unclean)]
      exact .of_errors .parsing (fun _ => rfl) unclean reported _ _
  | nameResolution parsed_eq parsedClean resolution_eq unclean reported =>
      subst parsed_eq resolution_eq
      rw [Outcome.ofTokens, if_neg (by simpa using parsedClean), if_pos (by simpa using unclean)]
      exact .of_errors .nameResolution (fun _ => rfl) unclean reported _ _
  | typeChecking parsed_eq parsedClean resolution_eq resolved checked_eq unclean reported =>
      subst parsed_eq resolution_eq
      cases Program.eq_of_check checked_eq
      rw [Outcome.ofTokens, if_neg (by simpa using parsedClean), if_neg (by simpa using resolved)]
      exact .of_errors .typeChecking (fun _ => rfl) unclean reported _ _
  | passed parsed_eq parsedClean resolution_eq resolved checked_eq checkedClean =>
      subst parsed_eq resolution_eq
      cases Program.eq_of_check checked_eq
      rw [Outcome.ofTokens, if_neg (by simpa using parsedClean), if_neg (by simpa using resolved),
        checkedClean]
      exact ⟨rfl, rfl, rfl, .nil⟩

/-- The output of a run tells what the run finds, and the interner is that of the lexer. -/
theorem EndsRun.tells {id : SourceId} {text : Bytes} {final : Interner} {output : Output}
    (ends : output.EndsRun registry id text interner final) :
    output.Tells registry final (.ofText id text interner) ∧
      final = ((Lexer.ofText id text interner).tokenize).2.interner := by
  rw [Outcome.ofText]
  cases ends with
  | lexing scanned unclean reported =>
      rw [scanned, if_pos (by simpa using unclean)]
      exact ⟨.of_errors .lexing (fun _ => rfl) unclean reported _ _, rfl⟩
  | later scanned clean ends =>
      rw [scanned, if_neg (by simpa using clean)]
      exact ⟨ends.tells, rfl⟩

end Output

end TypedLang
