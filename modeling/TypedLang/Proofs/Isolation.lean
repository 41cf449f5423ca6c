import TypedLang.Diagnostic.Text
import TypedLang.Proofs.Compilation
import TypedLang.Proofs.Relabelling.Listing
import TypedLang.Proofs.Relabelling.Rekeying
import TypedLang.Proofs.Session

/-!
# Isolation

What was done in a session before does not change what a source means. A run in the session and a
run on the text alone find the same but for keys and the number of the source, neither of which is
seen in what is printed; and the run in the session takes nothing back that was there before.
-/

namespace TypedLang

/-- A label that points into another source. -/
def Label.movedTo (id : SourceId) (label : Label) : Label :=
  { label with source := id }

/-- A report that is about another source. -/
def Report.movedTo (id : SourceId) (report : Report) : Report :=
  { report with labels := report.labels.map (Label.movedTo id) }

/-- Every new source has in one registry the name and the text that the old one has in the other. -/
def Relabelling.KeepsSources (change : Relabelling) (before after : Registry) : Prop :=
  ∀ id source, before.get id = .ok source → after.get (change.source id) = .ok source

/-- A report is another one with another source, and both are printed as the same text. -/
structure Report.IsMoved (before after : Registry) (id : SourceId) (report moved : Report) :
    Prop where
  moved_eq : moved = report.movedTo id
  text_eq : moved.text after = report.text before

section

variable {change : Relabelling} {before after : Registry}
  (keeps : change.KeepsSources before after) {origin : SourceId}

include keeps

theorem Label.movedTo_of_label {span : Span} {message : Option Bytes} {label moved : Label}
    (made : before.label origin span message = .ok label)
    (movedMade : after.label (change.source origin) span message = .ok moved) :
    moved = label.movedTo (change.source origin) ∧ moved.text after = label.text before := by
  rcases exists_of_bind_eq_ok made with ⟨source, found, made⟩
  rcases exists_of_bind_eq_ok movedMade with ⟨movedSource, movedFound, movedMade⟩
  cases (keeps origin source found).symm.trans movedFound
  rcases exists_of_bind_eq_ok made with ⟨lines, touched, made⟩
  rcases exists_of_bind_eq_ok movedMade with ⟨movedLines, movedTouched, movedMade⟩
  cases touched.symm.trans movedTouched
  cases made
  cases movedMade
  refine ⟨rfl, ?_⟩
  simp only [text, place, found, movedFound]

theorem Label.MadeAt.movedTo {places : List (Span × Option Bytes)} {labels moved : List Label}
    (made : MadeAt before origin places labels)
    (movedMade : MadeAt after (change.source origin) places moved) :
    moved = labels.map (Label.movedTo (change.source origin)) ∧
      moved.flatMap (Label.text · after) = labels.flatMap (Label.text · before) := by
  induction made generalizing moved with
  | nil =>
      cases movedMade
      exact ⟨rfl, rfl⟩
  | cons first _ ih =>
      rcases movedMade with _ | ⟨movedFirst, movedRest⟩
      rcases Label.movedTo_of_label keeps first movedFirst with ⟨rfl, text_eq⟩
      rcases ih movedRest with ⟨rfl, texts_eq⟩
      exact ⟨rfl, congrArg₂ (· ++ ·) text_eq texts_eq⟩

/-- A relabelled mistake has the report of the mistake itself, moved. -/
theorem Mistake.isMoved_of_report {interner shared : Interner}
    (renames : change.Renames interner shared) {mistake : Mistake} {report moved : Report}
    (made : mistake.report before interner = .ok report)
    (movedMade : (mistake.relabel change).report after shared = .ok moved) :
    Report.IsMoved before after (change.source mistake.source) report moved := by
  rcases exists_of_report made with ⟨message, labels, told, labelled, rfl⟩
  rcases exists_of_report movedMade with ⟨movedMessage, movedLabels, movedTold, movedLabelled, rfl⟩
  have span_eq : change.span = id := funext renames.span_eq
  rw [message_relabel change renames.keeps, told] at movedTold
  cases movedTold
  rw [source_relabel, places_relabel, span_eq, Prod.map_id, List.map_id] at movedLabelled
  rcases labelled.movedTo keeps movedLabelled with ⟨rfl, texts_eq⟩
  rw [severity_relabel, code_relabel]
  refine ⟨rfl, ?_⟩
  simp only [Report.text, texts_eq]

end

theorem Report.IsMoved.all {before after : Registry} {id : SourceId} {reports moved : List Report}
    (each : List.Forall₂ (IsMoved before after id) reports moved) :
    moved = reports.map (Report.movedTo id) ∧
      Report.textAll moved after = Report.textAll reports before := by
  induction each with
  | nil => exact ⟨rfl, rfl⟩
  | cons first _ ih =>
      rcases first with ⟨rfl, text_eq⟩
      rcases ih with ⟨rfl, texts_eq⟩
      exact ⟨rfl, congrArg₂ (· ++ ·) text_eq texts_eq⟩

/-- A compilation tells the same as another one: only keys and the source have other numbers. -/
structure Compilation.Matches (compilation alone : Compilation) : Prop where
  failedStage_eq : compilation.output.failedStage = alone.output.failedStage
  diagnostics_eq : compilation.output.diagnostics =
    alone.output.diagnostics.map (Report.movedTo compilation.source)
  printed_eq : Report.textAll compilation.output.diagnostics compilation.registry =
    Report.textAll alone.output.diagnostics alone.registry
  listing_eq : Listing.program compilation.interner compilation.output.program =
    Listing.program alone.interner alone.output.program
  symbols_eq : compilation.output.arena.symbols.map (Symbol.named compilation.interner) =
    alone.output.arena.symbols.map (Symbol.named alone.interner)

/-- Outputs that tell an outcome and the same one relabelled match. -/
theorem Output.Tells.matches {change : Relabelling} {before after : Registry}
    {interner shared : Interner} (keeps : change.KeepsSources before after)
    (renames : change.Renames interner shared) {aloneId id : SourceId}
    (source_eq : ∀ other, change.source other = id) {outcome : Outcome} {alone output : Output}
    (tellsAlone : alone.Tells before interner outcome)
    (tells : output.Tells after shared (outcome.relabel change)) :
    Compilation.Matches ⟨after, shared, id, output⟩ ⟨before, interner, aloneId, alone⟩ := by
  have pairs : List.Forall₂ (fun mistake other => other = mistake.relabel change)
      outcome.mistakes (outcome.relabel change).mistakes :=
    List.forall₂_map_right_iff.mpr (List.forall₂_same.mpr fun _ _ => rfl)
  have moved : List.Forall₂ (Report.IsMoved before after id) alone.diagnostics
      output.diagnostics := by
    refine ReportedBy.forall₂ ?_ pairs tellsAlone.reported tells.reported
    rintro mistake _ report moved rfl made movedMade
    rw [← source_eq mistake.source]
    exact mistake.isMoved_of_report keeps renames made movedMade
  rcases Report.IsMoved.all moved with ⟨diagnostics_eq, printed_eq⟩
  refine ⟨?_, diagnostics_eq, printed_eq, ?_, ?_⟩
  · rw [tells.failedStage_eq, tellsAlone.failedStage_eq, outcome.failedStage_relabel]
  · rw [tells.program_eq, tellsAlone.program_eq]
    exact Listing.program_relabel renames outcome.program
  · rw [tells.arena_eq, tellsAlone.arena_eq]
    have named_eq : Symbol.named shared ∘ Symbol.relabel change = Symbol.named interner :=
      funext (Symbol.named_relabel renames)
    simp only [Outcome.relabel, Arena.relabel, List.map_map, named_eq]

/--
Runs are isolated. After any history of a session, compiling one of its sources gives what compiling
the text of the source under its name on its own gives: the same stage fails with the same reports,
printed as the same text, and the listing and the named symbols are the same. All sources and keys
of the session, from the earliest ones on, are what they were.
-/
theorem Session.compile_isolated {earlier session : Session} (history : earlier.Reaches session)
    {id : SourceId} {source : Source} (found : session.registry.get id = .ok source) :
    ∃ alone output final, compileText source.text source.name = .ok alone ∧
      compile session.registry id session.interner = .ok (output, final) ∧
      Compilation.Matches ⟨session.registry, final, id, output⟩ alone ∧
      (∀ other known, earlier.registry.get other = .ok known →
        session.registry.get other = .ok known) ∧
      ∀ key text, earlier.interner.resolve key = .ok text → final.resolve key = .ok text := by
  have aloneFound : Registry.get ⟨[source]⟩ 0 = .ok source := rfl
  rcases compile_isOk aloneFound .empty with ⟨aloneOutput, aloneFinal, aloneCompiled, _⟩
  rcases compile_isOk found session.interner with ⟨output, final, compiled, _⟩
  have extended : earlier.Extends ⟨session.registry, final⟩ :=
    history.extends.trans (Step.compile session id compiled).extends
  rcases (Output.endsRun_of_compile aloneFound aloneCompiled).tells with ⟨tellsAlone, rfl⟩
  rcases (Output.endsRun_of_compile found compiled).tells with ⟨tells, rfl⟩
  -- The two runs find the same up to a renaming of keys, whatever the session has interned.
  have within := Lexer.within_tokenize id 0 source.text session.interner
  rw [Outcome.ofText_eq_relabel within] at tells
  refine ⟨_, output, _, compileText_of_compile aloneCompiled, compiled, ?_,
    fun _ _ => extended.get, fun _ _ => extended.resolve⟩
  refine tellsAlone.matches ?_ ⟨fun _ => rfl, Relabelling.rekeying_keepsTexts within id⟩
    (fun _ => rfl) tells
  intro other known otherFound
  rcases other with _ | other
  · cases otherFound
    exact found
  · cases otherFound

/-- A name that was interned before, in a session that has compiled another source. -/
theorem Session.compile_isolated_mistake :
    let source : Source := ⟨"second", "let x @u8 = y;"⟩
    let session : Session := ⟨⟨[⟨"first", "let y @u8 = true;"⟩, source]⟩, ⟨["other", "y"]⟩⟩
    Session.empty.Reaches session ∧ session.registry.get 1 = .ok source ∧
    ∃ alone output final, compileText source.text source.name = .ok alone ∧
      compile session.registry 1 session.interner = .ok (output, final) ∧
      Compilation.Matches ⟨session.registry, final, 1, output⟩ alone ∧
      (∀ other known, Session.empty.registry.get other = .ok known →
        session.registry.get other = .ok known) ∧
      ∀ key text, Session.empty.interner.resolve key = .ok text →
        final.resolve key = .ok text := by
  intro source session
  have interned : (Interner.empty.intern "other").2 = ⟨["other"]⟩ := by decide +kernel
  have scanned : ((Lexer.ofText 1 source.text ⟨["other"]⟩).next).2.interner = ⟨["other"]⟩ := by
    decide +kernel
  have learned : (compile session.registry 0 ⟨["other"]⟩).map Prod.snd = .ok session.interner := by
    decide +kernel
  rcases compile_isOk (rfl : session.registry.get 0 = _) ⟨["other"]⟩ with
    ⟨output, final, compiled, _⟩
  rw [compiled] at learned
  cases learned
  have prepared : Session.empty.Reaches ⟨session.registry, ⟨["other"]⟩⟩ := by
    rw [← interned]
    exact .tail (.tail (.tail .refl (.add _ "first" "let y @u8 = true;")) (.add _ _ _))
      (.intern _ "other")
  have lexed : Step ⟨session.registry, ⟨["other"]⟩⟩ ⟨session.registry, ⟨["other"]⟩⟩ := by
    have step := Step.next ⟨session.registry, ⟨["other"]⟩⟩ (.ofText 1 source.text _) rfl
    rw [scanned] at step
    exact step
  have history : Session.empty.Reaches session :=
    .tail (.tail prepared lexed) (.compile _ 0 compiled)
  exact ⟨history, rfl, compile_isolated history rfl⟩

end TypedLang
