import TypedLang.Proofs.Reports.Labels
import TypedLang.Proofs.Stages

/-!
# Finished reports

What a finished report says. A draft becomes the report with its own parts, and so the report about
an error has the severity, the code, the message and the labels that the error gives it, and no
notes.
-/

namespace TypedLang

/-- A draft with all its parts becomes the report with the same ones. -/
theorem Draft.eq_of_build {severity : Severity} {code : Code} {message : Bytes}
    {labels : List Label} {notes : List Bytes} {report : Report}
    (built : Draft.build ⟨some message, some code, some severity, labels, notes⟩ = .ok report) :
    report = ⟨severity, code, message, labels, notes⟩ := by
  change (if anyOverlap labels then _ else _) = _ at built
  split at built
  · cases built
  · cases built
    rfl

variable {registry : Registry} {interner : Interner} {report : Report}

theorem LexicalError.exists_of_report {error : LexicalError}
    (made : error.report registry = .ok report) :
    ∃ label, registry.label error.source error.span error.labelMessage = .ok label ∧
      report = ⟨.error, error.code, error.message, [label], []⟩ := by
  rcases exists_of_bind_eq_ok made with ⟨label, labelled, built⟩
  refine ⟨label, labelled, ?_⟩
  exact Draft.eq_of_build built

theorem ParseError.exists_of_report {error : ParseError}
    (made : error.report registry = .ok report) :
    ∃ labels, error.labels registry = .ok labels ∧
      report = ⟨error.severity, error.code, error.message, labels, []⟩ := by
  rcases exists_of_bind_eq_ok made with ⟨labels, labelled, built⟩
  refine ⟨labels, labelled, ?_⟩
  simp only [Draft.addLabels_eq] at built
  exact Draft.eq_of_build built

/-- The message and the labels are taken in either order, and both are needed. -/
theorem ResolutionError.exists_of_parts {error : ResolutionError} {message : Bytes}
    {labels : List Label} (made : error.parts registry interner = .ok (message, labels)) :
    error.message interner = .ok message ∧ error.labels registry = .ok labels := by
  rw [parts] at made
  split at made
  · rcases exists_of_bind_eq_ok made with ⟨_, labelled, made⟩
    rcases exists_of_bind_eq_ok made with ⟨_, told, made⟩
    cases made
    exact ⟨told, labelled⟩
  · rcases exists_of_bind_eq_ok made with ⟨_, told, made⟩
    rcases exists_of_bind_eq_ok made with ⟨_, labelled, made⟩
    cases made
    exact ⟨told, labelled⟩

theorem ResolutionError.exists_of_report {error : ResolutionError}
    (made : error.report registry interner = .ok report) :
    ∃ message labels, error.message interner = .ok message ∧ error.labels registry = .ok labels ∧
      report = ⟨.error, error.code, message, labels, []⟩ := by
  rcases exists_of_bind_eq_ok made with ⟨⟨message, labels⟩, parts_eq, built⟩
  rcases exists_of_parts parts_eq with ⟨told, labelled⟩
  refine ⟨message, labels, told, labelled, ?_⟩
  simp only [Draft.addLabels_eq] at built
  exact Draft.eq_of_build built

theorem TypeError.exists_of_report {error : TypeError} (made : error.report registry = .ok report) :
    ∃ labels, error.labels registry = .ok labels ∧
      report = ⟨error.severity, error.code, error.message, labels, []⟩ := by
  rcases exists_of_bind_eq_ok made with ⟨labels, labelled, built⟩
  refine ⟨labels, labelled, ?_⟩
  simp only [Draft.addLabels_eq] at built
  exact Draft.eq_of_build built

end TypedLang
