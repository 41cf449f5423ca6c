import TypedLang.Parsing
import TypedLang.Scope.Guard
import TypedLang.Token.Lexer
import TypedLang.Typing.Check

/-!
# Compilation

A source runs through four stages: lexing, parsing, name resolution and type checking. The first
stage that finds errors is the last one to run, and its errors alone are reported. The program is
given in any case, as complete as the last stage left it.
-/

namespace TypedLang

/-- The stages of a run, in order. -/
inductive Stage where
  | lexing | parsing | nameResolution | typeChecking
  deriving Repr, DecidableEq

/-- The name of a stage. -/
def Stage.name : Stage → String
  | lexing => "lexing"
  | parsing => "parsing"
  | nameResolution => "name resolution"
  | typeChecking => "type checking"

/-- A program after the last two stages, and the errors of the one that failed. -/
structure Analysis where
  program : Program
  arena : Arena
  failedStage : Option Stage
  resolutionErrors : List ResolutionError
  typeErrors : List TypeError
  deriving Repr

/-- Whether both stages passed. -/
def Analysis.success (analysis : Analysis) : Bool :=
  analysis.failedStage.isNone

/-- A program, resolved and, if no error was found, checked. -/
def Program.analyze (program : Program) (arena : Arena) : Except Fault Analysis := do
  let resolution ← program.tryResolve arena
  if resolution.errors.isEmpty then
    let checked ← resolution.program.check resolution.arena
    let stage := if checked.errors.isEmpty then none else some Stage.typeChecking
    pure ⟨checked.piece, checked.arena, stage, [], checked.errors⟩
  else
    pure ⟨resolution.program, resolution.arena, some .nameResolution, resolution.errors, []⟩

/-- The outcome of a run: the program, its symbols, and the reports of the stage that failed. -/
structure Output where
  program : Program
  arena : Arena
  failedStage : Option Stage
  diagnostics : List Report
  deriving Repr

/-- Whether all stages passed. -/
def Output.success (output : Output) : Bool :=
  output.failedStage.isNone

/-- The outcome of a run whose tokens are known. -/
def Output.ofTokens (registry : Registry) (interner : Interner) (source : SourceId)
    (tokens : List Token) : Except Fault Output := do
  let parsed := Parsed.ofTokens source tokens
  if parsed.success then
    let analysis ← parsed.program.analyze .empty
    let resolutionReports ←
      analysis.resolutionErrors.mapM fun error => error.report registry interner
    let typeReports ← analysis.typeErrors.mapM fun error => error.report registry
    pure ⟨analysis.program, analysis.arena, analysis.failedStage, resolutionReports ++ typeReports⟩
  else
    let reports ← parsed.errors.mapM fun error => error.report registry
    pure ⟨parsed.program, .empty, some .parsing, reports⟩

/-- The program of a run that ends before parsing. -/
def Program.empty (source : SourceId) : Program :=
  ⟨[], source, .single 0⟩

/-- Compiles a registered source. The interner goes on with the names of the source. -/
def compile (registry : Registry) (id : SourceId) (interner : Interner) :
    Except Fault (Output × Interner) := do
  let lexer ← Lexer.ofSource registry id interner
  let (tokens, lexer) := lexer.tokenize
  if lexer.errors.isEmpty then
    let output ← Output.ofTokens registry lexer.interner id tokens
    pure (output, lexer.interner)
  else
    let reports ← lexer.errors.mapM fun error => error.report registry
    pure (⟨.empty id, .empty, some .lexing, reports⟩, lexer.interner)

/-- The outcome of a run together with the registry and the interner that it used. -/
structure Compilation where
  registry : Registry
  interner : Interner
  source : SourceId
  output : Output
  deriving Repr

/-- The name of a source that was given none. -/
def defaultName : Bytes :=
  "<input>"

/-- Compiles a text on its own. -/
def compileText (text : Bytes) (name : Bytes := defaultName) : Except Fault Compilation := do
  let (id, registry) := Registry.empty.add name text
  let (output, interner) ← compile registry id .empty
  pure ⟨registry, interner, id, output⟩

end TypedLang
