import TypedLang.Proofs.Reports.Located
import TypedLang.Proofs.Source.Lines
import TypedLang.SourceCheck

/-!
# Checks agree with runs

A check gives what a run on the same text gives, as plain data: one finding for each report, in
order. Reports point to pieces of the text, and every piece has a place, so a finding lacks its place
only where the text ends too early.

Both texts of a request are read up to their first zero byte. What that means is said apart from how
the check cuts them.
-/

namespace TypedLang

/--
What is read of a text by one who stops at its first zero byte: everything in front of that byte, or
the whole text if it has none.
-/
inductive Bytes.ReadToNul : Bytes → Bytes → Prop where
  | whole {text : Bytes} : 0 ∉ text → ReadToNul text text
  | cut {front behind : Bytes} : 0 ∉ front → ReadToNul (front ++ 0 :: behind) front

theorem Bytes.ReadToNul.cons {byte : Byte} {text front : Bytes} (byte_ne : byte ≠ 0)
    (read : text.ReadToNul front) : ReadToNul (byte :: text) (byte :: front) := by
  cases read with
  | whole clean => exact .whole (List.not_mem_cons_of_ne_of_not_mem byte_ne.symm clean)
  | cut clean => exact .cut (List.not_mem_cons_of_ne_of_not_mem byte_ne.symm clean)

/-- Cutting a text gives what is read of it up to its first zero byte, and nothing else is. -/
theorem Bytes.untilNul_eq_iff {text front : Bytes} :
    text.untilNul = front ↔ text.ReadToNul front := by
  constructor
  · rintro rfl
    induction text with
    | nil => exact .whole List.not_mem_nil
    | cons byte rest ih =>
        rw [untilNul, List.takeWhile_cons]
        split
        · rename_i passed
          exact ih.cons (bne_iff_ne.mp passed)
        · rename_i stopped
          have byte_eq : byte = 0 := by simpa [Byte.nul] using stopped
          rw [byte_eq]
          exact .cut List.not_mem_nil
  · intro read
    have passes {front : Bytes} (clean : 0 ∉ front) : ∀ byte ∈ front, (byte != Byte.nul) = true :=
      fun _ member => bne_iff_ne.mpr (ne_of_mem_of_not_mem member clean)
    cases read with
    | whole clean => exact List.takeWhile_eq_self_iff.mpr (passes clean)
    | cut clean =>
        rw [untilNul, List.takeWhile_append_of_pos (passes clean)]
        exact List.append_nil _

/-- The name under which a source is checked: what is read of its path, if there is one. -/
inductive CheckRequest.Names : Option Bytes → Bytes → Prop where
  | given {path name : Bytes} : path.ReadToNul name → Names (some path) name
  | absent : Names none (Bytes.ofText "<input>")

/-- A label at a span was made for that span, in a known source, with the message it was given. -/
theorem Registry.eq_of_label {registry : Registry} {id : SourceId} {span : Span}
    {message : Option Bytes} {label : Label} (made : registry.label id span message = .ok label) :
    (∃ source, registry.get id = .ok source) ∧ label.source = id ∧ label.span = span ∧
      label.message = message := by
  rcases exists_of_bind_eq_ok made with ⟨source, found, made⟩
  rcases exists_of_bind_eq_ok made with ⟨lines, _, made⟩
  cases made
  exact ⟨⟨source, found⟩, rfl, rfl, rfl⟩

theorem Registry.eq_of_get_single {only source : Source} {id : SourceId}
    (found : get ⟨[only]⟩ id = .ok source) : source = only := by
  cases id with
  | zero =>
      cases found
      rfl
  | succ id => cases found

/-- Where each part can be made, all parts are made, one for each in order. -/
theorem exists_mapM_eq_ok {Part Made Error : Type} {make : Part → Except Error Made}
    {related : Part → Made → Prop} {parts : List Part}
    (each : ∀ part ∈ parts, ∃ made, make part = .ok made ∧ related part made) :
    ∃ made, parts.mapM make = .ok made ∧ List.Forall₂ related parts made := by
  induction parts with
  | nil => exact ⟨[], rfl, .nil⟩
  | cons part parts ih =>
      rw [List.forall_mem_cons] at each
      rcases each.1 with ⟨first, first_eq, agrees⟩
      rcases ih each.2 with ⟨others, others_eq, othersAgree⟩
      refine ⟨first :: others, ?_, .cons agrees othersAgree⟩
      rw [List.mapM_cons, first_eq, others_eq]
      rfl

/--
Where a report starts. The first label of a report points to a piece of the text, and the place is
that of its first byte; a report about the end of the text has no label and no place.
-/
inductive Report.StartsAt (registry : Registry) (text : Bytes) (report : Report) :
    Location → Prop where
  | label {label : Label} {others : List Label} {source : Source} {place : Location} :
      report.code ≠ .unexpectedEndOfInput → report.labels = label :: others →
      registry.get label.source = .ok source → source.text = text → label.span.Within text →
      source.location label.span.start = some place →
      place = .behind (text.take label.span.start) → 1 ≤ place.line → 1 ≤ place.column →
      StartsAt registry text report place
  | none : report.code = .unexpectedEndOfInput → report.labels = [] →
      StartsAt registry text report ⟨0, 0⟩

/-- A finding tells what a report on a text tells; only the report about the end has no place. -/
structure Finding.Tells (registry : Registry) (text : Bytes) (report : Report)
    (finding : Finding) : Prop where
  severity_eq : finding.severity = report.severity.rank
  code_eq : finding.code = report.code.number.toNat
  message_eq : finding.message = report.message
  starts : report.StartsAt registry text ⟨finding.line, finding.column⟩
  line_eq_zero_iff : finding.line = 0 ↔ finding.code = 11
  column_eq_zero_iff : finding.column = 0 ↔ finding.code = 11

theorem Code.number_eq_iff (code : Code) :
    code.number.toNat = 11 ↔ code = .unexpectedEndOfInput := by
  rcases code with ⟨number⟩
  rw [unexpectedEndOfInput, Code.mk.injEq, ← UInt16.toNat_inj]
  rfl

/-- A report whose place can be told becomes a finding that tells the same. -/
theorem Report.StartsAt.exists_finding {registry : Registry} {text : Bytes} {report : Report}
    {place : Location} (starts : report.StartsAt registry text place) :
    ∃ finding, report.finding registry = .ok finding ∧ finding.Tells registry text report := by
  have place_eq : report.firstPlace registry = .ok place := by
    cases starts with
    | label _ labels_eq found _ _ location_eq _ _ _ =>
        simp only [firstPlace, labels_eq, found, Bind.bind, Except.bind, location_eq]
        rfl
    | none _ labels_eq => rw [firstPlace, labels_eq]
  refine ⟨⟨report.severity.rank, report.code.number.toNat, report.message, place.line,
    place.column⟩, by rw [finding, place_eq]; rfl, rfl, rfl, rfl, starts, ?line, ?column⟩
  all_goals
    rw [report.code.number_eq_iff]
    cases starts with
    | label code_ne _ _ _ _ _ _ line_pos column_pos =>
        exact iff_of_false (Nat.ne_of_gt ‹_›) code_ne
    | none code_eq _ => exact iff_of_true rfl code_eq

/-- The report about a mistake in a text starts where the mistake is. -/
theorem Mistake.Located.exists_startsAt {name text : Bytes} {interner : Interner}
    {mistake : Mistake} (located : mistake.Located text) {report : Report}
    (made : mistake.report ⟨[⟨name, text⟩]⟩ interner = .ok report) :
    ∃ place, report.StartsAt ⟨[⟨name, text⟩]⟩ text place := by
  rcases Mistake.exists_of_report made with ⟨message, labels, _, madeAt, rfl⟩
  cases located with
  | ended code_eq none =>
      rw [none] at madeAt
      cases madeAt
      exact ⟨_, .none code_eq rfl⟩
  | placed code_ne some within =>
      rcases List.exists_cons_of_ne_nil some with ⟨first, others, places_eq⟩
      rw [places_eq] at madeAt within
      cases madeAt with
      | @cons _ label _ _ labelled _ =>
          rcases Registry.eq_of_label labelled with ⟨⟨source, found⟩, source_eq, span_eq, _⟩
          cases Registry.eq_of_get_single found
          have inside := within first List.mem_cons_self
          rw [← span_eq] at inside
          have location_eq := Source.location_eq ⟨name, text⟩
            (Nat.lt_of_lt_of_le inside.nonempty inside.stop_le)
          have positive := Location.behind_pos (text.take label.span.start)
          exact ⟨_, .label code_ne rfl (source_eq ▸ found) rfl inside location_eq rfl positive.1
            positive.2⟩

/--
A check agrees with a run. Whatever text and path are handed over, the run on what is read of both up
to their first zero byte ends, and so does the check: it succeeds if the run does, and its findings
tell what the reports of the run tell, one for each in order. Giving the findings back leaves none.
-/
theorem checkSource_agrees (path : Option Bytes) (source : Bytes) :
    ∃ text name compilation result, source.ReadToNul text ∧ CheckRequest.Names path name ∧
      compileText text name = .ok compilation ∧
      checkSource (some ⟨path, some source⟩) = .ok result ∧
      result.success = compilation.output.success ∧
      List.Forall₂ (fun report finding => finding.Tells compilation.registry text report)
        compilation.output.diagnostics result.findings ∧
      result.release = ⟨result.success, []⟩ := by
  let text := source.untilNul
  let name := (path.getD defaultName).untilNul
  have read : source.ReadToNul text := Bytes.untilNul_eq_iff.mp rfl
  have names : CheckRequest.Names path name := by
    cases path with
    | none => exact .absent
    | some path => exact .given (Bytes.untilNul_eq_iff.mp rfl)
  have found : Registry.get ⟨[⟨name, text⟩]⟩ 0 = .ok ⟨name, text⟩ := rfl
  rcases compile_isOk found .empty with ⟨output, final, compiled, _⟩
  have compiledText := compileText_of_compile compiled
  have tells := (Output.endsRun_of_compile found compiled).tells.1
  have each : ∀ report ∈ output.diagnostics, ∃ finding,
      report.finding ⟨[⟨name, text⟩]⟩ = .ok finding ∧
        finding.Tells ⟨[⟨name, text⟩]⟩ text report := by
    intro report member
    rcases tells.reported.exists_error member with ⟨mistake, mistakeMem, made⟩
    have located := Outcome.located_ofText 0 text .empty mistake mistakeMem
    rcases located.exists_startsAt made with ⟨place, starts⟩
    exact starts.exists_finding
  rcases exists_mapM_eq_ok each with ⟨findings, findings_eq, agree⟩
  refine ⟨text, name, _, ⟨output.success, findings⟩, read, names, compiledText, ?_, rfl, agree, rfl⟩
  change compileText text name >>= _ = _
  rw [compiledText]
  change (output.diagnostics.mapM fun report => report.finding ⟨[⟨name, text⟩]⟩) >>= _ = _
  rw [findings_eq]
  rfl

end TypedLang
