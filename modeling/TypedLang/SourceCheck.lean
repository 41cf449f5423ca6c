import TypedLang.Compile

/-!
# Checking a source for another program

Other programs hand over a source as texts that end at their first zero byte and get plain data
back: whether the source is free of errors, and a finding for every report with the place of its
first label.
-/

namespace TypedLang

/-- A source to be checked; either part may lack. -/
structure CheckRequest where
  path : Option Bytes
  source : Option Bytes
  deriving Repr, DecidableEq

/-- A report as plain data. Line and column count from one and are zero without a place. -/
structure Finding where
  severity : Nat
  code : Nat
  message : Bytes
  line : Nat
  column : Nat
  deriving Repr, DecidableEq

/-- The place of the first label of a report, zero twice if there is none. -/
def Report.firstPlace (report : Report) (registry : Registry) : Except Fault Location :=
  match report.labels with
  | [] => .ok ⟨0, 0⟩
  | label :: _ => do
      let source ← registry.get label.source
      pure ((source.location label.span.start).getD ⟨0, 0⟩)

/-- A report as plain data. -/
def Report.finding (report : Report) (registry : Registry) : Except Fault Finding := do
  let place ← report.firstPlace registry
  pure ⟨report.severity.rank, report.code.number.toNat, report.message, place.line, place.column⟩

/-- The answer to a request. -/
structure CheckResult where
  success : Bool
  findings : List Finding
  deriving Repr, DecidableEq

namespace CheckResult

/-- An answer without its findings, as it is left when they are given back. -/
def release (result : CheckResult) : CheckResult :=
  { result with findings := [] }

end CheckResult

/-- A text up to its first zero byte. -/
def Bytes.untilNul (text : Bytes) : Bytes :=
  text.takeWhile (· != Byte.nul)

/-- Checks a source. A missing request, or one that lacks the source, fails without findings. -/
def checkSource (request : Option CheckRequest) : Except Fault CheckResult :=
  match request.bind CheckRequest.source with
  | none => .ok ⟨false, []⟩
  | some source => do
      let path := (request.bind CheckRequest.path).getD defaultName
      let compilation ← compileText source.untilNul path.untilNul
      let findings ←
        compilation.output.diagnostics.mapM fun report => report.finding compilation.registry
      pure ⟨compilation.output.success, findings⟩

end TypedLang
