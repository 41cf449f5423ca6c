import TypedLang.Proofs.Relabelling.Outcome
import TypedLang.Proofs.Renaming.Texts
import TypedLang.Proofs.Reports.Located
import TypedLang.Proofs.Source.Lines

/-!
# Reports about renamed texts

In a renamed text the same mistakes are found at the same places, which are in the same lines. A
report quotes at most one name, and only a report about a name does. So all that a renaming changes
in the reports are names between quotes.
-/

namespace TypedLang

/-- Whether a report quotes a name; a mismatch of kinds may be about an expression instead. -/
def Report.QuotesName (report : Report) : Prop :=
  report.code = .symbolNotFound ∨ report.code = .nameAlreadyUsed ∨
    report.code = .kindMismatch ∧ Bytes.ofText "Expected '" <+: report.message

/-- A report and what becomes of it: a name that it quotes is renamed, and all else is the same. -/
structure Report.RenamedTo (rename : Bytes → Bytes) (report other : Report) : Prop where
  severity_eq : other.severity = report.severity
  code_eq : other.code = report.code
  labels_eq : other.labels = report.labels
  notes_eq : other.notes = report.notes
  named : report.QuotesName → ∃ front word back : Bytes, word.IsName ∧
    report.message = front ++ word.quoted ++ back ∧
    other.message = front ++ (rename word).quoted ++ back
  nameless : ¬ report.QuotesName → other.message = report.message

/-- The name that a mistake is about, if it is about one. -/
def Mistake.name? : Mistake → Option Key
  | nameResolution error => error.cause.name?
  | _ => none

/-- The name that a mistake is about is among some tokens, and only few are about none. -/
structure Mistake.Names (tokens : List Token) (mistake : Mistake) : Prop where
  name : ∀ key, mistake.name? = some key → ∃ token ∈ tokens, token.lexeme = .identifier key
  nameless : mistake.name? = none →
    mistake.code ≠ .symbolNotFound ∧ mistake.code ≠ .nameAlreadyUsed

theorem ParseError.names (error : ParseError) (tokens : List Token) :
    (Mistake.parsing error).Names tokens := by
  refine ⟨by simp [Mistake.name?], fun _ => ?_⟩
  rw [Mistake.code, ParseError.code]
  split <;> decide

theorem TypeError.names (error : TypeError) (tokens : List Token) :
    (Mistake.typeChecking error).Names tokens := by
  refine ⟨by simp [Mistake.name?], fun _ => ?_⟩
  rw [Mistake.code, TypeError.code]
  split <;> decide

/-- The names that mistakes in tokens are about are identifiers among the tokens. -/
theorem Outcome.names_ofTokens (source : SourceId) (tokens : List Token) :
    ∀ mistake ∈ (ofTokens source tokens).mistakes, mistake.Names tokens := by
  intro mistake member
  rw [ofTokens] at member
  split at member
  · rcases List.mem_map.mp member with ⟨error, _, rfl⟩
    exact error.names tokens
  rename_i parsedClean
  split at member
  · rcases List.mem_map.mp member with ⟨error, errorMem, rfl⟩
    have fresh := Parsed.symbols_eq_nil source tokens
    have placed := Program.resolve_errors_placed fresh error errorMem
    have marked := Parsed.marked source tokens (by simpa using parsedClean)
    refine ⟨?_, fun nameless => ?_⟩
    · intro key key_eq
      rcases placed.name key key_eq with ⟨mark, markMem, keyMem⟩
      exact (marked.coveredBy_of_mem markMem).keys key keyMem
    · rw [Mistake.code, placed.nameless nameless]
      decide
  · rcases List.mem_map.mp member with ⟨error, _, rfl⟩
    exact error.names tokens

/-- What the message about a name says in front of the name and behind it. -/
def ResolutionErrorCause.frame : ResolutionErrorCause → Bytes × Bytes
  | symbolNotFound _ => ("Couldn't find the symbol ", ".")
  | nameAlreadyUsed _ _ => ("The name ", " is already used.")
  | kindMismatch _ expected found =>
      ("Expected ", Bytes.concat [" to be a ", expected, ", but it is a ", found, "."])

theorem ResolutionErrorCause.frame_relabel (change : Relabelling) (cause : ResolutionErrorCause) :
    (cause.relabel change).frame = cause.frame := by
  cases cause <;> rfl

theorem ResolutionErrorCause.name?_relabel (change : Relabelling) (cause : ResolutionErrorCause) :
    (cause.relabel change).name? = cause.name?.map change.key := by
  cases cause <;> rfl

/-- The message of an error about a name quotes the name. -/
theorem ResolutionError.message_of_name {error : ResolutionError} {key : Key}
    (named : error.cause.name? = some key) {interner : Interner} {word : Bytes}
    (resolved : interner.resolve key = .ok word) :
    error.message interner = .ok (error.cause.frame.1 ++ word.quoted ++ error.cause.frame.2) := by
  have told : nameText interner (some key) = .ok word.quoted :=
    congrArg (Except.map Bytes.quoted) resolved
  rcases error with ⟨source, span, name | ⟨name, earlier⟩ | ⟨name, expected, found⟩⟩
  all_goals
    cases named
    simp [message, told, ResolutionErrorCause.frame, Bind.bind, Except.bind, Pure.pure,
      Except.pure, Bytes.concat]

/-- Before and after a relabelling, the message of a mistake about a name quotes it in one place. -/
theorem Mistake.exists_frame {mistake : Mistake} {key : Key} (named : mistake.name? = some key)
    (change : Relabelling) {before after : Interner} {word new : Bytes}
    (resolved : before.resolve key = .ok word)
    (newResolved : after.resolve (change.key key) = .ok new) :
    ∃ front back : Bytes, mistake.message before = .ok (front ++ word.quoted ++ back) ∧
      (mistake.relabel change).message after = .ok (front ++ new.quoted ++ back) := by
  rcases mistake with error | error | error | error
  case nameResolution =>
    have newNamed : (error.relabel change).cause.name? = some (change.key key) :=
      (error.cause.name?_relabel change).trans (congrArg (Option.map change.key) named)
    have told := (error.relabel change).message_of_name newNamed newResolved
    rw [show (error.relabel change).cause.frame = error.cause.frame from
      error.cause.frame_relabel change] at told
    exact ⟨_, _, error.message_of_name named resolved, told⟩
  all_goals cases named

/-- Without a name in it, a message does not depend on the names. -/
theorem Mistake.message_of_nameless {mistake : Mistake} (nameless : mistake.name? = none)
    (change : Relabelling) (before after : Interner) :
    (mistake.relabel change).message after = mistake.message before := by
  rcases mistake with error | ⟨source, cause⟩ | ⟨source, span, cause⟩ | ⟨source, span, cause⟩
  · rfl
  · cases cause <;> rfl
  · rcases cause with name | ⟨name, earlier⟩ | ⟨name, expected, found⟩
    all_goals
      cases nameless
      rfl
  · cases cause <;> rfl

section

variable {registry : Registry} {interner : Interner} {mistake : Mistake} {report : Report}
  (made : mistake.report registry interner = .ok report)

include made

theorem Mistake.quotesName {key : Key} (named : mistake.name? = some key) {word : Bytes}
    (resolved : interner.resolve key = .ok word) : report.QuotesName := by
  rcases exists_of_report made with ⟨message, labels, told, _, rfl⟩
  rcases mistake with error | error | error | error
  case nameResolution =>
    have told := (error.message_of_name named resolved).symm.trans told
    rcases error with ⟨source, span, name | ⟨name, earlier⟩ | ⟨name, expected, found⟩⟩
    · exact .inl rfl
    · exact .inr (.inl rfl)
    · cases told
      refine .inr (.inr ⟨rfl, ?_⟩)
      simp only [ResolutionErrorCause.frame, Bytes.quoted, Bytes.concat, List.flatten_cons,
        List.append_assoc]
      exact List.prefix_append (Bytes.ofText "Expected '") _
  all_goals cases named

theorem Mistake.not_quotesName {tokens : List Token} (names : mistake.Names tokens)
    (nameless : mistake.name? = none) : ¬ report.QuotesName := by
  rcases exists_of_report made with ⟨message, labels, told, _, rfl⟩
  rcases names.nameless nameless with ⟨notMissing, notUsed⟩
  rintro (missing | used | ⟨mismatch, quotes⟩)
  · exact notMissing missing
  · exact notUsed used
  · rcases mistake with ⟨kind, source, span, found, expected⟩ | ⟨source, cause⟩ |
      ⟨source, span, cause⟩ | ⟨source, span, cause⟩
    · cases kind <;> cases mismatch
    · cases cause <;> cases mismatch
    · rcases cause with name | ⟨name, earlier⟩ | ⟨name, expected, found⟩
      · cases mismatch
      · cases mismatch
      · cases nameless
        cases told
        rcases quotes with ⟨rest, message_eq⟩
        have quote_eq := congrArg (fun message : Bytes => message[9]?) message_eq
        cases quote_eq
    · cases cause <;> cases mismatch

end

/-- Registries that make the same labels make them at the same places. -/
theorem Label.MadeAt.unique {registry other : Registry}
    (same : ∀ id span message, other.label id span message = registry.label id span message)
    {source : SourceId} {places : List (Span × Option Bytes)} {labels otherLabels : List Label}
    (made : MadeAt registry source places labels)
    (otherMade : MadeAt other source places otherLabels) : otherLabels = labels := by
  simp only [MadeAt, same] at otherMade
  refine Relator.RightUnique.forall₂ ?_ otherMade made
  intro place label otherLabel labelled otherLabelled
  exact Except.ok.inj (labelled.symm.trans otherLabelled)

/--
A rewording that follows a renaming of the names in some tokens: their keys go to keys of the new
names, those of strings to keys of the same strings, and all else stays.
-/
structure Rewording.Follows (change : Rewording) (rename : Bytes → Bytes)
    (before after : Interner) (tokens : List Token) : Prop where
  span_eq : ∀ span, change.span span = span
  source_eq : ∀ id, change.source id = id
  names : ∀ token ∈ tokens, ∀ key, token.lexeme = .identifier key →
    ∃ word : Bytes, word.IsName ∧ before.resolve key = .ok word ∧
      after.resolve (change.key key) = .ok (rename word)
  strings : ∀ token ∈ tokens, ∀ key, token.lexeme = .string key →
    ∃ body : Bytes, before.resolve key = .ok body ∧ after.resolve (change.string key) = .ok body

/-- The report about a mistake whose names are renamed has new names and is otherwise the same. -/
theorem Mistake.renamedTo_of_report {change : Rewording} {rename : Bytes → Bytes}
    {before after : Interner} {tokens : List Token}
    (follows : change.Follows rename before after tokens) {registry other : Registry}
    (same : ∀ id span message, other.label id span message = registry.label id span message)
    {mistake : Mistake} (names : mistake.Names tokens) {report otherReport : Report}
    (made : mistake.report registry before = .ok report)
    (otherMade : (mistake.relabel change).report other after = .ok otherReport) :
    report.RenamedTo rename otherReport := by
  have quotes {key : Key} (named : mistake.name? = some key) {word : Bytes}
      (resolved : before.resolve key = .ok word) : report.QuotesName :=
    quotesName made named resolved
  have quotesNot := not_quotesName made names
  rcases exists_of_report made with ⟨message, labels, told, labelled, rfl⟩
  rcases exists_of_report otherMade with ⟨otherMessage, otherLabels, otherTold, otherLabelled, rfl⟩
  have span_eq : change.span = id := funext follows.span_eq
  rw [source_relabel, follows.source_eq, places_relabel, span_eq, Prod.map_id, List.map_id]
    at otherLabelled
  refine ⟨mistake.severity_relabel change, mistake.code_relabel change,
    labelled.unique same otherLabelled, rfl, ?_, ?_⟩
  all_goals
    intro quoted
    rcases named : mistake.name? with _ | key
  · exact absurd quoted (quotesNot named)
  · rcases names.name key named with ⟨token, tokenMem, isName⟩
    rcases follows.names token tokenMem key isName with ⟨word, wordIsName, resolved, newResolved⟩
    rcases exists_frame named change resolved newResolved with ⟨front, back, message_eq, new_eq⟩
    refine ⟨front, word, back, wordIsName, ?_, ?_⟩
    · exact Except.ok.inj (told.symm.trans message_eq)
    · exact Except.ok.inj (otherTold.symm.trans new_eq)
  · rw [message_of_nameless named change before after, told] at otherTold
    exact (Except.ok.inj otherTold).symm
  · rcases names.name key named with ⟨token, tokenMem, isName⟩
    rcases follows.names token tokenMem key isName with ⟨word, _, resolved, _⟩
    exact absurd (quotes named resolved) quoted

end TypedLang
