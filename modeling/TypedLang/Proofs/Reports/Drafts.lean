import Mathlib.Data.List.Induction
import Mathlib.Data.List.Pairwise
import TypedLang.Proofs.Reports.Finished

/-!
# Drafts

A draft is filled in any order, and each of its parts any number of times. A later message, code or
severity takes the place of an earlier one, labels and notes are collected. The report is built if
nothing is missing and no offset lies inside two labels of one source. Both bounds of a span count
as inside, so labels that merely touch share an offset, and so do two equal ones.
-/

namespace TypedLang

/-- Two spans share an offset if the later of their starts lies in both. -/
theorem Span.intersects_iff {left right : Span} :
    left.intersects right = true ↔
      ∃ offset, left.contains offset = true ∧ right.contains offset = true := by
  have leftOrdered := left.start_le_stop
  have rightOrdered := right.start_le_stop
  simp only [intersects, contains, Bool.and_eq_true, decide_eq_true_eq]
  constructor
  · rintro ⟨rightStarts, leftStarts⟩
    refine ⟨max left.start right.start, ?_, ?_⟩ <;> omega
  · rintro ⟨offset, leftContains, rightContains⟩
    omega

namespace Label

/-- An offset of one source lies inside two labels, both bounds of their spans counted in. -/
def Share (left right : Label) : Prop :=
  left.source = right.source ∧
    ∃ offset, left.span.contains offset = true ∧ right.span.contains offset = true

theorem overlaps_iff {left right : Label} : left.overlaps right = true ↔ left.Share right := by
  simp only [overlaps, Share, Bool.and_eq_true, beq_iff_eq, Span.intersects_iff]

theorem Share.symm {left right : Label} (share : left.Share right) : right.Share left := by
  obtain ⟨source_eq, offset, inLeft, inRight⟩ := share
  exact ⟨source_eq.symm, offset, inRight, inLeft⟩

end Label

namespace Draft

/-- What may be put into a draft. -/
inductive Call where
  | message (message : Bytes)
  | code (code : Code)
  | severity (severity : Severity)
  | label (label : Label)
  | note (note : Bytes)
  deriving Repr, DecidableEq

namespace Call

/-- The message that a call sets. -/
def message? : Call → Option Bytes
  | message text => some text
  | _ => none

/-- The code that a call sets. -/
def code? : Call → Option Code
  | code number => some number
  | _ => none

/-- The severity that a call sets. -/
def severity? : Call → Option Severity
  | severity rank => some rank
  | _ => none

/-- The label that a call adds. -/
def label? : Call → Option Label
  | label added => some added
  | _ => none

/-- The note that a call adds. -/
def note? : Call → Option Bytes
  | note text => some text
  | _ => none

end Call

/-- A draft with one more call. -/
def apply (draft : Draft) : Call → Draft
  | .message message => draft.setMessage message
  | .code code => draft.setCode code
  | .severity severity => draft.setSeverity severity
  | .label label => draft.addLabel label
  | .note note => draft.addNote note

/-- The draft behind some calls. -/
def after (calls : List Call) : Draft :=
  calls.foldl apply empty

/-- A draft holds what was set last and all that was added. -/
theorem after_eq (calls : List Call) :
    after calls = {
      message := (calls.filterMap Call.message?).getLast?
      code := (calls.filterMap Call.code?).getLast?
      severity := (calls.filterMap Call.severity?).getLast?
      labels := calls.filterMap Call.label?
      notes := calls.filterMap Call.note? } := by
  induction calls using List.reverseRecOn with
  | nil => rfl
  | append_singleton calls call ih =>
      have step : after (calls ++ [call]) = (after calls).apply call := by simp [after]
      rw [step, ih]
      cases call <;>
        simp [apply, setMessage, setCode, setSeverity, addLabel, addNote, Call.message?,
          Call.code?, Call.severity?, Call.label?, Call.note?]

/-- No two labels at different positions share an offset. -/
def NoneShare (labels : List Label) : Prop :=
  ∀ (i j : Nat) (left right : Label), i ≠ j → labels[i]? = some left → labels[j]? = some right →
    ¬ left.Share right

/-- Each pair of labels is looked at once, which is enough since sharing is symmetric. -/
theorem anyOverlap_eq_false_iff_noneShare {labels : List Label} :
    anyOverlap labels = false ↔ NoneShare labels := by
  rw [anyOverlap_eq_false_iff, List.pairwise_iff_getElem]
  simp only [Bool.eq_false_iff, ne_eq, Label.overlaps_iff]
  constructor
  · intro apart i j left right distinct leftFound rightFound share
    obtain ⟨i_lt, rfl⟩ := List.getElem?_eq_some_iff.mp leftFound
    obtain ⟨j_lt, rfl⟩ := List.getElem?_eq_some_iff.mp rightFound
    rcases Nat.lt_or_gt_of_ne distinct with before | behind
    · exact apart i j i_lt j_lt before share
    · exact apart j i j_lt i_lt behind share.symm
  · intro apart i j i_lt j_lt before
    apply apart i j _ _ (Nat.ne_of_lt before)
    · exact List.getElem?_eq_getElem i_lt
    · exact List.getElem?_eq_getElem j_lt

/-- A report is built from a draft if it has the same parts and they can stand together. -/
theorem build_eq_ok_iff {draft : Draft} {report : Report} :
    draft.build = .ok report ↔
      (draft.message = some report.message ∧ draft.code = some report.code ∧
        draft.severity = some report.severity ∧ NoneShare draft.labels) ∧
      report.labels = draft.labels ∧ report.notes = draft.notes := by
  rw [← anyOverlap_eq_false_iff_noneShare]
  constructor
  · intro built
    rcases draft with ⟨_ | message, _ | code, _ | severity, labels, notes⟩
    all_goals try cases built
    cases overlaps : anyOverlap labels with
    | true => simp [build, overlaps] at built
    | false =>
        rw [eq_of_build built]
        simp
  · rintro ⟨⟨message_eq, code_eq, severity_eq, apart⟩, labels_eq, notes_eq⟩
    rw [← labels_eq] at apart
    simp [build, message_eq, code_eq, severity_eq, apart, labels_eq.symm, notes_eq.symm]

/-- A last one among the values that some calls set is there if there is any. -/
theorem exists_getLast?_iff {Value : Type} (calls : List Call) (pick : Call → Option Value)
    (set : Value → Call) (pick_iff : ∀ call value, pick call = some value ↔ call = set value) :
    (∃ value, (calls.filterMap pick).getLast? = some value) ↔ ∃ value, set value ∈ calls := by
  rw [← Option.isSome_iff_exists, List.getLast?_isSome, ← List.length_pos_iff,
    List.length_pos_iff_exists_mem]
  simp only [List.mem_filterMap, pick_iff]
  constructor
  · rintro ⟨value, call, member, rfl⟩
    exact ⟨value, member⟩
  · rintro ⟨value, member⟩
    exact ⟨value, _, member, rfl⟩

/--
However a draft was filled, its report is built if a message, a code and a severity were set and no
two labels share an offset. The report has what was set last, and all labels and notes in order.
-/
theorem build_after (calls : List Call) :
    ((∃ report, (after calls).build = .ok report) ↔
      (∃ message, .message message ∈ calls) ∧ (∃ code, .code code ∈ calls) ∧
        (∃ severity, .severity severity ∈ calls) ∧ NoneShare (calls.filterMap Call.label?)) ∧
    ∀ report, (after calls).build = .ok report →
      (calls.filterMap Call.message?).getLast? = some report.message ∧
      (calls.filterMap Call.code?).getLast? = some report.code ∧
      (calls.filterMap Call.severity?).getLast? = some report.severity ∧
      report.labels = calls.filterMap Call.label? ∧ report.notes = calls.filterMap Call.note? := by
  have messages := exists_getLast?_iff calls Call.message? Call.message
    fun call _ => by cases call <;> simp [Call.message?]
  have codes := exists_getLast?_iff calls Call.code? Call.code
    fun call _ => by cases call <;> simp [Call.code?]
  have severities := exists_getLast?_iff calls Call.severity? Call.severity
    fun call _ => by cases call <;> simp [Call.severity?]
  simp only [build_eq_ok_iff, after_eq]
  constructor
  · rw [← messages, ← codes, ← severities]
    constructor
    · rintro ⟨report, ⟨message_eq, code_eq, severity_eq, apart⟩, _⟩
      exact ⟨⟨_, message_eq⟩, ⟨_, code_eq⟩, ⟨_, severity_eq⟩, apart⟩
    · rintro ⟨⟨message, message_eq⟩, ⟨code, code_eq⟩, ⟨severity, severity_eq⟩, apart⟩
      exact ⟨⟨severity, code, message, _, _⟩, ⟨message_eq, code_eq, severity_eq, apart⟩, rfl, rfl⟩
  · rintro report ⟨⟨message_eq, code_eq, severity_eq, _⟩, labels_eq, notes_eq⟩
    exact ⟨message_eq, code_eq, severity_eq, labels_eq, notes_eq⟩

/-- Labels side by side share the offset between them. -/
example :
    let calls : List Call := [.label ⟨0, ⟨0, 3, by omega⟩, none, none⟩, .severity .error,
      .label ⟨0, ⟨3, 8, by omega⟩, none, none⟩, .message "text", .code .typeMismatch]
    (after calls).build = .error .overlappingLabels := by
  decide

end Draft

end TypedLang
