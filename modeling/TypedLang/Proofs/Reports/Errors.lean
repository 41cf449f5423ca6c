import TypedLang.Compile
import TypedLang.Proofs.Reports.Labels

/-!
# Reports about errors

What an error needs so that its report can be built: a known source, known names, and, if it refers
to a second place, that this place is apart from its own. The errors of the first two stages refer to
one place only.
-/

namespace TypedLang

/-- The label of an error is made, and it is where the error is. -/
theorem LexicalError.report_isOk {registry : Registry} (error : LexicalError)
    (known : registry.contains error.source) :
    ∃ report, error.report registry = .ok report ∧ report.LabelsApart := by
  rcases registry.label_isOk known error.span (some error.labelMessage) with ⟨lines, made⟩
  rw [LexicalError.report, made]
  simp only [Bind.bind, Except.bind]
  apply Draft.build_isOk rfl rfl rfl
  exact List.pairwise_singleton _ _

theorem ParseError.labels_isOk {registry : Registry} (error : ParseError)
    (known : registry.contains error.source) :
    ∃ labels, error.labels registry = .ok labels ∧
      labels.Pairwise fun label other => label.overlaps other = false := by
  rw [ParseError.labels]
  split
  · rename_i span got _ _
    rcases registry.label_isOk known span (some (Bytes.concat ["found ", found got])) with
      ⟨lines, made⟩
    rw [made]
    exact ⟨[_], rfl, List.pairwise_singleton _ _⟩
  · exact ⟨[], rfl, .nil⟩

theorem ParseError.report_isOk {registry : Registry} (error : ParseError)
    (known : registry.contains error.source) :
    ∃ report, error.report registry = .ok report ∧ report.LabelsApart := by
  rcases error.labels_isOk known with ⟨labels, made, apart⟩
  rw [ParseError.report, made]
  simp only [Bind.bind, Except.bind, Draft.addLabels_eq]
  exact Draft.build_isOk rfl rfl rfl apart

namespace ResolutionErrorCause

/-- The name that an error is about, if it is about one. -/
def name? : ResolutionErrorCause → Option Key
  | symbolNotFound name => name
  | nameAlreadyUsed name _ => name
  | kindMismatch name _ _ => name

/-- The place of an earlier declaration that an error refers to. -/
def earlier? : ResolutionErrorCause → Option Span
  | nameAlreadyUsed _ earlier => earlier
  | _ => none

end ResolutionErrorCause

/-- What the report about a resolution error needs. -/
structure ResolutionError.Reportable (registry : Registry) (interner : Interner)
    (error : ResolutionError) : Prop where
  source : registry.contains error.source
  name : ∀ key, error.cause.name? = some key → key < interner.size
  apart : ∀ earlier, error.cause.earlier? = some earlier → earlier.intersects error.span = false

namespace ResolutionError

variable {registry : Registry} {interner : Interner} {error : ResolutionError}

theorem nameText_isOk {name : Option Key} (known : ∀ key, name = some key → key < interner.size) :
    ∃ text, nameText interner name = .ok text := by
  cases name with
  | none => exact ⟨_, rfl⟩
  | some key =>
      have inside : key < interner.texts.length := known key rfl
      exact ⟨_, by simp [nameText, Interner.resolve, List.getElem?_eq_getElem inside, Except.map]; rfl⟩

theorem message_isOk (known : ∀ key, error.cause.name? = some key → key < interner.size) :
    ∃ message, error.message interner = .ok message := by
  rcases nameText_isOk known with ⟨text, made⟩
  rw [message]
  split
  all_goals
    rename_i cause_eq
    simp only [cause_eq, ResolutionErrorCause.name?] at made
  · rw [made]
    exact ⟨_, rfl⟩
  · rw [made]
    exact ⟨_, rfl⟩
  · exact ⟨_, rfl⟩
  · rw [made]
    exact ⟨_, rfl⟩

theorem labels_isOk (reportable : error.Reportable registry interner) :
    ∃ labels, error.labels registry = .ok labels ∧
      labels.Pairwise fun label other => label.overlaps other = false := by
  rcases registry.label_isOk reportable.source error.span (some error.labelMessage) with
    ⟨lines, made⟩
  rw [labels, earlierLabel]
  split
  · rename_i name earlier cause_eq
    have apart := reportable.apart earlier (by rw [cause_eq]; rfl)
    rcases registry.label_isOk reportable.source earlier (some (Bytes.ofText "first declared here"))
      with ⟨earlierLines, earlierMade⟩
    rw [earlierMade, made]
    refine ⟨_, rfl, List.pairwise_pair.mpr ?_⟩
    simp [Label.overlaps, apart]
  · rw [made]
    exact ⟨_, rfl, List.pairwise_singleton _ _⟩

theorem parts_isOk (reportable : error.Reportable registry interner) :
    ∃ message labels, error.parts registry interner = .ok (message, labels) ∧
      labels.Pairwise fun label other => label.overlaps other = false := by
  rcases message_isOk reportable.name with ⟨message, messageMade⟩
  rcases labels_isOk reportable with ⟨labels, labelsMade, apart⟩
  refine ⟨message, labels, ?_, apart⟩
  rw [parts, messageMade, labelsMade]
  split <;> rfl

theorem report_isOk (reportable : error.Reportable registry interner) :
    ∃ report, error.report registry interner = .ok report ∧ report.LabelsApart := by
  rcases parts_isOk reportable with ⟨message, labels, made, apart⟩
  rw [report, made]
  simp only [Bind.bind, Except.bind, Draft.addLabels_eq]
  exact Draft.build_isOk rfl rfl rfl apart

end ResolutionError

/-- What the report about a type error needs. -/
structure TypeError.Reportable (registry : Registry) (error : TypeError) : Prop where
  source : registry.contains error.source
  apart : ∀ origin, error.origin = some origin → origin.1.intersects error.span = false

namespace TypeError

variable {registry : Registry} {error : TypeError}

theorem labels_isOk (reportable : error.Reportable registry) :
    ∃ labels, error.labels registry = .ok labels ∧
      labels.Pairwise fun label other => label.overlaps other = false := by
  rcases registry.label_isOk reportable.source error.span error.labelMessage with ⟨lines, made⟩
  rw [labels]
  split
  · rw [made]
    exact ⟨_, rfl, List.pairwise_singleton _ _⟩
  · rename_i span message origin_eq
    have apart := reportable.apart _ origin_eq
    rcases registry.label_isOk reportable.source span (some message) with
      ⟨originLines, originMade⟩
    rw [originMade, made]
    refine ⟨_, rfl, List.pairwise_pair.mpr ?_⟩
    simp [Label.overlaps, apart]

theorem report_isOk (reportable : error.Reportable registry) :
    ∃ report, error.report registry = .ok report ∧ report.LabelsApart := by
  rcases labels_isOk reportable with ⟨labels, made, apart⟩
  rw [report, made]
  simp only [Bind.bind, Except.bind, Draft.addLabels_eq]
  exact Draft.build_isOk rfl rfl rfl apart

end TypeError

/-- Reports can be built about all errors if they can about each. -/
theorem Report.mapM_isOk {Error : Type} {report : Error → Except Fault Report}
    {errors : List Error}
    (each : ∀ error ∈ errors, ∃ built, report error = .ok built ∧ built.LabelsApart) :
    ∃ reports, errors.mapM report = .ok reports ∧ ∀ built ∈ reports, built.LabelsApart := by
  induction errors with
  | nil => exact ⟨[], rfl, by simp⟩
  | cons first rest ih =>
      rw [List.forall_mem_cons] at each
      rcases each.1 with ⟨built, built_eq, apart⟩
      rcases ih each.2 with ⟨others, others_eq, othersApart⟩
      refine ⟨built :: others, ?_, List.forall_mem_cons.mpr ⟨apart, othersApart⟩⟩
      rw [List.mapM_cons, built_eq, others_eq]
      rfl

end TypedLang
