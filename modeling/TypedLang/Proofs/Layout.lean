import TypedLang.Proofs.Compilation
import TypedLang.Proofs.Relabelling.Rekeying

/-!
# Layout

Where the tokens of a text stand does not change what it means. Two texts that are read as the same
lexemes, with other blanks between them, give the same program and symbols at other places, and the
same reports about other places.
-/

namespace TypedLang

/-- The tokens of a text on its own, each as its lexeme with its text. -/
def Bytes.lexemes (text : Bytes) : List (Except Fault (Lexeme Bytes)) :=
  let scanned := (Lexer.ofText 0 text .empty).tokenize
  scanned.1.map fun token => token.lexeme.resolve scanned.2.interner

/-- The lexical errors of a text on its own. -/
def Bytes.lexicalErrors (text : Bytes) : List LexicalError :=
  ((Lexer.ofText 0 text .empty).tokenize).2.errors

/-- Two texts without lexical errors whose tokens have the same kinds and values in order. -/
structure Bytes.ReadAlike (text other : Bytes) : Prop where
  clean : text.lexicalErrors = []
  otherClean : other.lexicalErrors = []
  lexemes_eq : text.lexemes = other.lexemes

/-- Every place becomes the same one; names and strings stay as they are. -/
def Relabelling.placeless : Relabelling where
  span _ := .single 0
  key key := key
  source _ := 0
  combine _ _ := rfl
  single := rfl
  key_injective _ _ same := same

/-- Two reports say the same, about whatever places. -/
structure Report.Agrees (report other : Report) : Prop where
  severity_eq : report.severity = other.severity
  code_eq : report.code = other.code
  message_eq : report.message = other.message
  labels_eq : report.labels.map Label.message = other.labels.map Label.message
  notes_eq : report.notes = other.notes

theorem Relabelling.placeless_keepsTexts (interner : Interner) :
    placeless.KeepsTexts interner interner :=
  fun _ => rfl

/-- A text without lexical errors has none wherever it is read. -/
theorem Lexer.errors_eq_nil_of_clean {text : Bytes} (clean : text.lexicalErrors = [])
    (id : SourceId) (interner : Interner) :
    ((ofText id text interner).tokenize).2.errors = [] := by
  rw [← errors_rekeying_tokenize (within_tokenize id 0 text interner)]
  exact congrArg (List.map _) clean

/-- Texts that are read alike consist of the same lexemes. -/
theorem Bytes.ReadAlike.lexemes?_eq {text other : Bytes} (alike : text.ReadAlike other) :
    (Item.list text).filterMap Item.lexeme? = (Item.list other).filterMap Item.lexeme? := by
  have lexemes_eq : ((Item.list text).filterMap Item.lexeme?).map .ok =
      ((Item.list other).filterMap Item.lexeme?).map (Except.ok : _ → Except Fault _) := by
    rw [← (Lexer.ofText 0 text .empty).map_resolve_tokensOf,
      ← (Lexer.ofText 0 other .empty).map_resolve_tokensOf]
    exact alike.lexemes_eq
  exact List.map_injective_iff.mpr (fun _ _ same => Except.ok.inj same) lexemes_eq

/-- Tokens without their places are the lexemes of the items, with their final keys. -/
theorem Lexer.placeless_tokensOf (lexer : Lexer) (items : List Item) :
    (lexer.tokensOf items).1.map (Token.relabel .placeless) =
      (items.filterMap Item.lexeme?).map fun lexeme =>
        ⟨lexeme.map (lexer.tokensOf items).2.interner.keyOf, .single 0⟩ := by
  rw [tokensOf_eq, List.map_filterMap, List.map_filterMap]
  refine List.filterMap_congr fun item _ => ?_
  rw [Item.token?]
  cases item.lexeme? with
  | none => rfl
  | some lexeme =>
      simp only [Option.map_some, Token.relabel, Lexeme.map_map]
      rfl

namespace Bytes.ReadAlike

variable {text other : Bytes} (alike : text.ReadAlike other) (id otherId : SourceId)
  (interner : Interner)

include alike

/-- Texts that are read alike teach an interner the same. -/
theorem interner_eq : ((Lexer.ofText id text interner).tokenize).2.interner =
    ((Lexer.ofText otherId other interner).tokenize).2.interner := by
  rw [Lexer.tokenize, Lexer.tokenize, Lexer.interner_tokensOf, Lexer.interner_tokensOf]
  exact congrArg (fun lexemes => interner.learn (lexemes.flatMap Lexeme.texts)) alike.lexemes?_eq

/-- Texts that are read alike have the same tokens but for the places. -/
theorem tokens_eq : ((Lexer.ofText id text interner).tokenize).1.map (Token.relabel .placeless) =
    ((Lexer.ofText otherId other interner).tokenize).1.map (Token.relabel .placeless) := by
  have interner_eq := alike.interner_eq id otherId interner
  rw [Lexer.tokenize, Lexer.tokenize] at interner_eq ⊢
  rw [Lexer.placeless_tokensOf, Lexer.placeless_tokensOf, interner_eq]
  exact congrArg (List.map _) alike.lexemes?_eq

/-- What is found in texts that are read alike is the same but for the places. -/
theorem outcome_eq : (Outcome.ofText id text interner).relabel .placeless =
    (Outcome.ofText otherId other interner).relabel .placeless := by
  have errors_eq := Lexer.errors_eq_nil_of_clean alike.clean id interner
  have otherErrors_eq := Lexer.errors_eq_nil_of_clean alike.otherClean otherId interner
  simp only [Outcome.ofText, errors_eq, otherErrors_eq, List.isEmpty_nil, Bool.not_true,
    Bool.false_eq_true, ↓reduceIte]
  rw [← Outcome.relabel_ofTokens, ← Outcome.relabel_ofTokens, alike.tokens_eq id otherId interner]
  rfl

end Bytes.ReadAlike

/-- Label messages are those of the places. -/
theorem Label.MadeAt.map_message {registry : Registry} {source : SourceId}
    {places : List (Span × Option Bytes)} {labels : List Label}
    (made : MadeAt registry source places labels) :
    labels.map Label.message = places.map Prod.snd := by
  induction made with
  | nil => rfl
  | cons labelled _ ih =>
      rcases exists_of_bind_eq_ok labelled with ⟨known, _, labelled⟩
      rcases exists_of_bind_eq_ok labelled with ⟨lines, _, labelled⟩
      cases labelled
      rw [List.map_cons, List.map_cons, ih]

section

variable {registry otherRegistry : Registry} {interner : Interner}

theorem Mistake.agrees_of_report {mistake other : Mistake}
    (same : mistake.relabel .placeless = other.relabel .placeless) {report otherReport : Report}
    (made : mistake.report registry interner = .ok report)
    (otherMade : other.report otherRegistry interner = .ok otherReport) :
    report.Agrees otherReport := by
  have keeps := Relabelling.placeless_keepsTexts interner
  rcases exists_of_report made with ⟨message, labels, told, labelled, rfl⟩
  rcases exists_of_report otherMade with ⟨otherMessage, otherLabels, otherTold, otherLabelled, rfl⟩
  refine ⟨?_, ?_, ?_, ?_, rfl⟩
  · rw [← mistake.severity_relabel .placeless, same, severity_relabel]
  · rw [← mistake.code_relabel .placeless, same, code_relabel]
  · rw [← mistake.message_relabel .placeless keeps, same, message_relabel _ keeps,
      otherTold] at told
    exact (Except.ok.inj told).symm
  · have places_eq := congrArg (fun mistake => mistake.places.map Prod.snd) same
    simp only [places_relabel, List.map_map] at places_eq
    rw [labelled.map_message, otherLabelled.map_message]
    exact places_eq

/-- Runs that find the same but for the places have outputs that are the same but for them. -/
theorem Output.Tells.agrees {outcome other : Outcome}
    (same : outcome.relabel .placeless = other.relabel .placeless) {output otherOutput : Output}
    (tells : output.Tells registry interner outcome)
    (otherTells : otherOutput.Tells otherRegistry interner other) :
    output.failedStage = otherOutput.failedStage ∧
      List.Forall₂ Report.Agrees output.diagnostics otherOutput.diagnostics ∧
      output.program.relabel .placeless = otherOutput.program.relabel .placeless ∧
      output.arena.relabel .placeless = otherOutput.arena.relabel .placeless := by
  have mistakes_eq := congrArg Outcome.mistakes same
  refine ⟨?_, ?_, ?_, ?_⟩
  · rw [tells.failedStage_eq, otherTells.failedStage_eq, ← outcome.failedStage_relabel .placeless,
      same, Outcome.failedStage_relabel]
  · rw [Outcome.relabel, Outcome.relabel, ← List.forall₂_eq_eq_eq, List.forall₂_map_left_iff,
      List.forall₂_map_right_iff] at mistakes_eq
    refine ReportedBy.forall₂ ?_ mistakes_eq tells.reported otherTells.reported
    intro mistake other report otherReport same made otherMade
    exact Mistake.agrees_of_report same made otherMade
  · rw [tells.program_eq, otherTells.program_eq]
    exact congrArg Outcome.program same
  · rw [tells.arena_eq, otherTells.arena_eq]
    exact congrArg Outcome.arena same

end

/--
Layout does not matter. Two sources that are read alike, in whatever registries, are compiled from
the same interner to outputs that are the same but for the places in them: the same stage fails, the
reports agree one by one, and the programs and the symbols differ in spans and sources only. The
same texts are interned, so equal keys are equal names.
-/
theorem compile_ignores_layout {registry otherRegistry : Registry} {id otherId : SourceId}
    {source other : Source} (found : registry.get id = .ok source)
    (otherFound : otherRegistry.get otherId = .ok other) (alike : source.text.ReadAlike other.text)
    (interner : Interner) :
    ∃ output otherOutput final, compile registry id interner = .ok (output, final) ∧
      compile otherRegistry otherId interner = .ok (otherOutput, final) ∧
      output.failedStage = otherOutput.failedStage ∧
      List.Forall₂ Report.Agrees output.diagnostics otherOutput.diagnostics ∧
      output.program.relabel .placeless = otherOutput.program.relabel .placeless ∧
      output.arena.relabel .placeless = otherOutput.arena.relabel .placeless := by
  rcases compile_isOk found interner with ⟨output, final, compiled, _⟩
  rcases compile_isOk otherFound interner with ⟨otherOutput, otherFinal, otherCompiled, _⟩
  rcases (Output.endsRun_of_compile found compiled).tells with ⟨tells, final_eq⟩
  rcases (Output.endsRun_of_compile otherFound otherCompiled).tells with
    ⟨otherTells, otherFinal_eq⟩
  have learned : otherFinal = final := by
    rw [otherFinal_eq, final_eq, alike.interner_eq id otherId]
  subst learned
  exact ⟨output, otherOutput, otherFinal, compiled, otherCompiled,
    tells.agrees (alike.outcome_eq id otherId interner) otherTells⟩

/-- A value of the wrong type, on one line and on three. -/
theorem compile_ignores_layout_mismatch :
    let text := Bytes.ofText "let x @u8 = true;"
    let other := Bytes.ofText "\tlet x@u8\n=true\n;"
    let registry : Registry := ⟨[⟨"one line", text⟩, ⟨"three lines", other⟩]⟩
    registry.get 0 = .ok ⟨"one line", text⟩ ∧ registry.get 1 = .ok ⟨"three lines", other⟩ ∧
    text.ReadAlike other ∧
    ∃ output otherOutput final, compile registry 0 .empty = .ok (output, final) ∧
      compile registry 1 .empty = .ok (otherOutput, final) ∧
      output.failedStage = otherOutput.failedStage ∧
      List.Forall₂ Report.Agrees output.diagnostics otherOutput.diagnostics ∧
      output.program.relabel .placeless = otherOutput.program.relabel .placeless ∧
      output.arena.relabel .placeless = otherOutput.arena.relabel .placeless := by
  intro text other registry
  have alike : text.ReadAlike other :=
    ⟨by decide +kernel, by decide +kernel, by decide +kernel⟩
  exact ⟨rfl, rfl, alike, compile_ignores_layout rfl rfl alike .empty⟩

end TypedLang
