import TypedLang.Diagnostic

/-!
# Labels

A label can be made for every span of a known source, whatever bytes the source has: the search for
lines is monotone, so the line of the start never lies behind the line of the stop. A draft with all
its parts is built unless two of its labels share an offset.
-/

namespace TypedLang

namespace Source

theorem searchLine_bounds (table : Array Span) (offset low width : Nat) :
    low ≤ searchLine table offset low width ∧
      searchLine table offset low width ≤ low + width := by
  fun_induction searchLine table offset low width with
  | case1 low => omega
  | case2 low width => omega
  | case3 low width nonempty half line found before ih => omega
  | case4 low width nonempty half line found notBefore ih => omega

/-- A later offset is never found in an earlier line. -/
theorem searchLine_mono (table : Array Span) {offset other : Nat} (le : offset ≤ other)
    (low width : Nat) :
    searchLine table offset low width ≤ searchLine table other low width := by
  fun_induction searchLine table offset low width with
  | case1 low => exact (searchLine_bounds table other low 0).1
  | case2 low width => exact (searchLine_bounds table other low width).1
  | case3 low width nonempty half line found before ih =>
      have otherBefore : line.stop < other := by omega
      rw [searchLine.eq_def table other low width]
      simpa [nonempty, half, found, otherBefore] using ih
  | case4 low width nonempty half line found notBefore ih =>
      rw [searchLine.eq_def table other low width]
      by_cases otherBefore : line.stop < other
      · have left := searchLine_bounds table offset low half
        have right := searchLine_bounds table other (low + half + 1) (width - half - 1)
        simp only [nonempty, ↓reduceIte, half, found, otherBefore] at left right ⊢
        omega
      · simpa [nonempty, half, found, otherBefore] using ih

/-- The line of an offset is the one that the search gives, or the last one. -/
theorem eq_min_of_lineContaining (source : Source) {offset line : Nat}
    (found : source.lineContaining offset = some line) :
    line = min (searchLine source.lines.toArray offset 0 source.lines.toArray.size)
      (source.lines.toArray.size - 1) := by
  simp only [lineContaining] at found
  generalize source.lines.toArray = table at found ⊢
  split at found
  · cases found
  · split at found
    · cases found
    · split at found
      · rename_i outside
        have behind := Array.getElem?_eq_none_iff.mp outside
        have line_eq := Option.some.inj found
        omega
      · rename_i inside
        rcases Array.getElem?_eq_some_iff.mp inside with ⟨within, _⟩
        split at found
        · have line_eq := Option.some.inj found
          omega
        · cases found

/-- The lines of a span can always be told. -/
theorem lineSpan_isOk (source : Source) (span : Span) :
    ∃ lines, source.lineSpan span = .ok lines := by
  rw [lineSpan]
  split
  · rename_i first last firstFound lastFound
    have found := searchLine_mono source.lines.toArray span.start_le_stop 0
      source.lines.toArray.size
    have ordered : first ≤ last := by
      rw [source.eq_min_of_lineContaining firstFound, source.eq_min_of_lineContaining lastFound]
      omega
    exact ⟨some ⟨first, last, ordered⟩, by simp [Span.ofBounds, ordered, Except.map]⟩
  · exact ⟨none, rfl⟩

end Source

/-- A label can be made for every span of a known source. -/
theorem Registry.label_isOk {registry : Registry} {id : SourceId} (known : registry.contains id)
    (span : Span) (message : Option Bytes) :
    ∃ lines, registry.label id span message = .ok ⟨id, span, message, lines⟩ := by
  have inside : id < registry.sources.length := of_decide_eq_true known
  rcases (registry.sources[id]).lineSpan_isOk span with ⟨lines, found⟩
  refine ⟨lines, ?_⟩
  simp [label, get, List.getElem?_eq_getElem inside, found, Bind.bind, Except.bind, Pure.pure,
    Except.pure]

/-- No two labels of a report share an offset of one source. -/
def Report.LabelsApart (report : Report) : Prop :=
  report.labels.Pairwise fun label other => label.overlaps other = false

namespace Draft

theorem anyOverlap_eq_false_iff (labels : List Label) :
    anyOverlap labels = false ↔
      labels.Pairwise fun label other => label.overlaps other = false := by
  induction labels with
  | nil => simp [anyOverlap]
  | cons label rest ih =>
      rw [anyOverlap, Bool.or_eq_false_iff, List.any_eq_false, ih, List.pairwise_cons]
      simp

/-- A draft with all its parts is built if its labels are apart. -/
theorem build_isOk {draft : Draft} {message : Bytes} {code : Code} {severity : Severity}
    (message_eq : draft.message = some message) (code_eq : draft.code = some code)
    (severity_eq : draft.severity = some severity)
    (apart : draft.labels.Pairwise fun label other => label.overlaps other = false) :
    ∃ report, draft.build = .ok report ∧ report.LabelsApart := by
  refine ⟨⟨severity, code, message, draft.labels, draft.notes⟩, ?_, apart⟩
  simp [build, message_eq, code_eq, severity_eq, (anyOverlap_eq_false_iff _).mpr apart]

theorem addLabels_eq (draft : Draft) (labels : List Label) :
    labels.foldl addLabel draft = { draft with labels := draft.labels ++ labels } := by
  induction labels generalizing draft with
  | nil => simp
  | cons label rest ih => simp [ih, addLabel]

end Draft

end TypedLang
