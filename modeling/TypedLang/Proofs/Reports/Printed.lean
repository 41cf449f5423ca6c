import TypedLang.Diagnostic.Text
import TypedLang.Proofs.Reports.Plain
import TypedLang.Proofs.SourceCheck

/-!
# Reports are printed line by line

A report is printed as one line for itself and one for each label. Since nothing that is quoted in
these lines has a newline in it, no text makes its reports look like other ones.
-/

namespace TypedLang

/-- The digits of a code as it is printed. -/
def Code.digits (code : Code) : Bytes :=
  let digits := Bytes.ofNat code.number.toNat
  List.replicate (4 - digits.length) Byte.zero ++ digits

/-- The line of a label, without its newline. -/
def Label.line (registry : Registry) (label : Label) : Bytes :=
  let message : Bytes := match label.message with
    | none => []
    | some message => Bytes.concat [": ", message]
  Bytes.concat ["  --> ", label.place registry, message]

/-- The first line of a report, without its newline. -/
def Report.head (report : Report) : Bytes :=
  Bytes.concat [report.severity.name, "[E", report.code.digits, "]: ", report.message]

/-- The lines of a report: one for itself and one for each of its labels, in order. -/
def Report.lines (registry : Registry) (report : Report) : List Bytes :=
  report.head :: report.labels.map (Label.line registry)

theorem Label.text_eq (registry : Registry) (label : Label) :
    label.text registry = label.line registry ++ [Byte.newline] := by
  simp only [text, line, Bytes.concat, List.flatten_cons, List.flatten_nil, List.append_assoc,
    List.append_nil]
  rfl

/-- A report without notes is printed as its lines. -/
theorem Report.text_eq {report : Report} (noNotes : report.notes = []) (registry : Registry) :
    report.text registry = Bytes.unlines (report.lines registry) := by
  have head : Bytes.concat [report.severity.name, "[", report.code.text, "]: ", report.message] =
      report.head := by
    simp only [Report.head, Code.text, Code.digits, Bytes.concat, List.flatten_cons,
      List.flatten_nil, List.append_assoc, List.append_nil]
    rfl
  rw [lines, Bytes.unlines_cons, ← head, Bytes.unlines, List.flatMap_map]
  simp only [text, noNotes, List.flatMap_nil, Label.text_eq, Bytes.concat, List.flatten_cons,
    List.flatten_nil, List.append_assoc, List.append_nil]
  rfl

/-- The codes of all stages have four digits, which stand for their numbers. -/
theorem Stage.digits_of_mem_codes (stage : Stage) : ∀ code ∈ stage.codes,
    code.digits.length = 4 ∧ (∀ digit ∈ code.digits, Byte.isDigit digit) ∧
      code.digits.toNumber = code.number.toNat := by
  cases stage <;> decide +kernel

theorem Severity.isLine_name (severity : Severity) : Bytes.IsLine severity.name := by
  cases severity <;> decide

/-- A place starts with the name of its source, and goes on with numbers. -/
theorem Label.exists_place {registry : Registry} {label : Label} {source : Source}
    (found : registry.get label.source = .ok source) :
    ∃ rest : Bytes, rest.IsLine ∧ label.place registry = source.name ++ rest := by
  simp only [place, found]
  split
  · exact ⟨[], Bytes.isLine_nil, (List.append_nil _).symm⟩
  · rename_i location _
    have colon : Bytes.IsLine ":" := by decide
    refine ⟨Bytes.concat [":", Bytes.ofNat location.line, ":", Bytes.ofNat location.column], ?_, rfl⟩
    simp [colon, Bytes.isLine_ofNat]

/--
What is printed of a report: a line that starts with its severity and the four digits of its code,
and for each label a line that starts with an arrow and the name of the source. No line, no message
and nothing between quotes has a newline in it.
-/
structure Report.Prints (registry : Registry) (name : Bytes) (report : Report) : Prop where
  text_eq : report.text registry = Bytes.unlines (report.lines registry)
  areLines : ∀ line ∈ report.lines registry, line.IsLine
  code : report.code.digits.length = 4 ∧ (∀ digit ∈ report.code.digits, Byte.isDigit digit) ∧
    report.code.digits.toNumber = report.code.number.toNat
  head : Bytes.concat [report.severity.name, "[E", report.code.digits, "]: "] <+: report.head
  labels : ∀ label ∈ report.labels, Bytes.concat ["  --> ", name] <+: label.line registry
  message : report.message.IsLine
  labelMessages : ∀ label ∈ report.labels, ∀ message ∈ label.message, Bytes.IsLine message
  quotes : ∀ piece : Bytes, (piece.quoted <:+: report.message ∨
    ∃ label ∈ report.labels, ∃ message ∈ label.message, piece.quoted <:+: message) → piece.IsLine

section

variable {name text : Bytes}

/-- The line of a label whose message fits into it. -/
theorem Label.line_spec {label : Label}
    (found : Registry.get ⟨[⟨name, text⟩]⟩ label.source = .ok ⟨name, text⟩) (isLine : name.IsLine)
    (message : ∀ message ∈ label.message, Bytes.IsLine message) :
    (label.line ⟨[⟨name, text⟩]⟩).IsLine ∧
      Bytes.concat ["  --> ", name] <+: label.line ⟨[⟨name, text⟩]⟩ := by
  rcases exists_place found with ⟨rest, restIsLine, place_eq⟩
  have arrow : Bytes.IsLine "  --> " := by decide
  have colon : Bytes.IsLine ": " := by decide
  rw [line, place_eq]
  constructor
  · rcases message_eq : label.message with _ | told
    · simp [arrow, isLine, restIsLine]
    · simp [arrow, isLine, restIsLine, colon, message told message_eq]
  · simp only [Bytes.concat, List.flatten_cons, List.flatten_nil, List.append_nil,
      List.append_assoc]
    exact ⟨_, List.append_assoc _ _ _⟩

/-- Labels of a text are made in its source, with the messages that they are given. -/
theorem Label.MadeAt.labels_spec {source : SourceId} {places : List (Span × Option Bytes)}
    {labels : List Label} (made : MadeAt ⟨[⟨name, text⟩]⟩ source places labels)
    (messages : ∀ place ∈ places, ∀ message ∈ place.2, Bytes.IsLine message) :
    ∀ label ∈ labels, Registry.get ⟨[⟨name, text⟩]⟩ label.source = .ok ⟨name, text⟩ ∧
      ∀ message ∈ label.message, Bytes.IsLine message := by
  induction made with
  | nil => simp
  | cons labelled _ ih =>
      rw [List.forall_mem_cons] at messages ⊢
      rcases Registry.eq_of_label labelled with ⟨⟨source, found⟩, source_eq, _, message_eq⟩
      cases Registry.eq_of_get_single found
      exact ⟨⟨source_eq ▸ found, message_eq ▸ messages.1⟩, ih messages.2⟩

/-- The report about a mistake that says nothing but lines is printed line by line. -/
theorem Mistake.IsPlain.prints {interner : Interner} {mistake : Mistake}
    (plain : mistake.IsPlain interner) (isLine : name.IsLine) {report : Report}
    (made : mistake.report ⟨[⟨name, text⟩]⟩ interner = .ok report) :
    report.Prints ⟨[⟨name, text⟩]⟩ name := by
  rcases exists_of_report made with ⟨message, labels, told, madeAt, rfl⟩
  have labelled := madeAt.labels_spec plain.labels
  have code := mistake.stage.digits_of_mem_codes _ mistake.code_mem_codes
  have messageIsLine := plain.message message told
  refine ⟨Report.text_eq rfl _, ?_, code, ?_, ?_, messageIsLine, ?_, ?_⟩
  · have bracket : Bytes.IsLine "[E" := by decide
    have close : Bytes.IsLine "]: " := by decide
    refine List.forall_mem_cons.mpr ⟨?_, ?_⟩
    · simp [Report.head, bracket, close, Severity.isLine_name, Bytes.isLine_of_isDigit code.2.1,
        messageIsLine]
    · rintro line member
      rcases List.mem_map.mp member with ⟨label, labelMem, rfl⟩
      rcases labelled label labelMem with ⟨found, messages⟩
      exact (Label.line_spec found isLine messages).1
  · refine ⟨message, ?_⟩
    simp only [Report.head, Bytes.concat, List.flatten_cons, List.flatten_nil, List.append_nil,
      List.append_assoc]
  · intro label member
    rcases labelled label member with ⟨found, messages⟩
    exact (Label.line_spec found isLine messages).2
  · exact fun label member => (labelled label member).2
  · rintro piece (within | ⟨label, member, message, messageMem, within⟩)
    · exact Bytes.isLine_quoted_iff.mp (messageIsLine.of_within within)
    · exact Bytes.isLine_quoted_iff.mp (((labelled label member).2 message messageMem).of_within within)

end

/--
No text forges reports. Under a name without a newline, the reports about a text are printed as their
lines, in order and nothing else: one line for each report, which starts with its severity and the
four digits of its code in brackets, and behind it one line for each of its labels, which starts with
an arrow and the name of the source. Neither a message of a report or a label nor a piece of the text
that is quoted in one has a newline in it.
-/
theorem compileText_prints_lines (text : Bytes) {name : Bytes} (isLine : name.IsLine) :
    ∃ compilation, compileText text name = .ok compilation ∧
      Report.textAll compilation.output.diagnostics compilation.registry =
        Bytes.unlines
          (compilation.output.diagnostics.flatMap (Report.lines compilation.registry)) ∧
      ∀ report ∈ compilation.output.diagnostics, report.Prints compilation.registry name := by
  have found : Registry.get ⟨[⟨name, text⟩]⟩ 0 = .ok ⟨name, text⟩ := rfl
  rcases compile_isOk found .empty with ⟨output, final, compiled, _⟩
  have tells := (Output.endsRun_of_compile found compiled).tells
  have prints : ∀ report ∈ output.diagnostics, report.Prints ⟨[⟨name, text⟩]⟩ name := by
    intro report member
    rcases tells.1.reported.exists_error member with ⟨mistake, mistakeMem, made⟩
    have plain := Outcome.isPlain_ofText 0 text .empty mistake mistakeMem
    rw [← tells.2] at plain
    exact plain.prints isLine made
  refine ⟨_, compileText_of_compile compiled, ?_, prints⟩
  rw [Report.textAll, Bytes.unlines_flatMap]
  exact List.flatMap_congr fun report member => (prints report member).text_eq

/-- A byte that starts no token, with text behind it that looks like a report. -/
theorem compileText_prints_lines_imitation :
    Bytes.IsLine "main" ∧ ∃ compilation,
      compileText "#\nerror[E0001]: Expected" "main" = .ok compilation ∧
        Report.textAll compilation.output.diagnostics compilation.registry =
          Bytes.unlines
            (compilation.output.diagnostics.flatMap (Report.lines compilation.registry)) ∧
        ∀ report ∈ compilation.output.diagnostics, report.Prints compilation.registry "main" :=
  ⟨by decide, compileText_prints_lines _ (by decide)⟩

end TypedLang
