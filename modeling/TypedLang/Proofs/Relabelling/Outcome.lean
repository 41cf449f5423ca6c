import TypedLang.Proofs.Outcome
import TypedLang.Proofs.Relabelling.Parsing
import TypedLang.Proofs.Relabelling.Scope
import TypedLang.Proofs.Relabelling.Typing

/-!
# Outcomes of reworded tokens

A run finds in reworded tokens what it finds in the tokens themselves, reworded: the same stage
fails with the same mistakes elsewhere. A relabelled mistake is as severe as before and has the same
code, the same message if keys keep their texts, and the same label messages at the other places.
-/

namespace TypedLang

namespace Relabelling

/-- Every new key has in one interner the text that the old one has in the other. -/
def KeepsTexts (change : Relabelling) (before after : Interner) : Prop :=
  ∀ key, after.texts[change.key key]? = before.texts[key]?

theorem KeepsTexts.resolve {change : Relabelling} {before after : Interner}
    (keeps : change.KeepsTexts before after) (key : Key) :
    after.resolve (change.key key) = before.resolve key := by
  rw [Interner.resolve, Interner.resolve, keeps key]

theorem KeepsTexts.textOf {change : Relabelling} {before after : Interner}
    (keeps : change.KeepsTexts before after) (key : Key) :
    after.textOf (change.key key) = before.textOf key := by
  rw [Interner.textOf, Interner.textOf, List.getD_eq_getElem?_getD, List.getD_eq_getElem?_getD,
    keeps key]

end Relabelling

variable (change : Relabelling)

namespace Mistake

/-- A mistake, relabelled. -/
def relabel : Mistake → Mistake
  | lexing error => lexing (error.relabel change)
  | parsing error => parsing (error.relabel change)
  | nameResolution error => nameResolution (error.relabel change)
  | typeChecking error => typeChecking (error.relabel change)

@[simp]
theorem stage_relabel (mistake : Mistake) : (mistake.relabel change).stage = mistake.stage := by
  cases mistake <;> rfl

theorem source_relabel (mistake : Mistake) :
    (mistake.relabel change).source = change.source mistake.source := by
  cases mistake <;> rfl

end Mistake

theorem Mistake.severity_relabel (mistake : Mistake) :
    (mistake.relabel change).severity = mistake.severity := by
  rcases mistake with error | ⟨source, cause⟩ | error | ⟨source, span, cause⟩
  · rfl
  · cases cause <;> rfl
  · rfl
  · cases cause <;> rfl

theorem Mistake.code_relabel (mistake : Mistake) :
    (mistake.relabel change).code = mistake.code := by
  rcases mistake with error | ⟨source, cause⟩ | ⟨source, span, cause⟩ | ⟨source, span, cause⟩
  · rfl
  · cases cause <;> rfl
  · cases cause <;> rfl
  · cases cause <;> rfl

theorem ResolutionError.message_relabel {before after : Interner}
    (keeps : change.KeepsTexts before after) (error : ResolutionError) :
    (error.relabel change).message after = error.message before := by
  have name_eq (name : Option Key) :
      nameText after (name.map change.key) = nameText before name := by
    cases name with
    | none => rfl
    | some key => exact congrArg (Except.map Bytes.quoted) (keeps.resolve key)
  rcases error with ⟨source, span, cause⟩
  rcases cause with name | ⟨name, earlier⟩ | ⟨_ | key, expected, found⟩
  · exact congrArg (· >>= _) (name_eq name)
  · exact congrArg (· >>= _) (name_eq name)
  · rfl
  · exact congrArg (· >>= _) (name_eq (some key))

theorem Mistake.message_relabel {before after : Interner}
    (keeps : change.KeepsTexts before after) (mistake : Mistake) :
    (mistake.relabel change).message after = mistake.message before := by
  rcases mistake with error | ⟨source, cause⟩ | error | ⟨source, span, cause⟩
  · rfl
  · cases cause <;> rfl
  · exact error.message_relabel change keeps
  · cases cause <;> rfl

theorem Mistake.places_relabel (mistake : Mistake) :
    (mistake.relabel change).places = mistake.places.map (Prod.map change.span id) := by
  rcases mistake with error | ⟨source, cause⟩ | ⟨source, span, cause⟩ | ⟨source, span, cause⟩
  · rfl
  · rcases cause with ⟨_ | span, got, expected⟩ | expected | _ <;> rfl
  · rcases cause with name | ⟨name, _ | earlier⟩ | ⟨name, expected, found⟩ <;> rfl
  · rcases cause with _ | _ | ⟨expected, got, _ | span⟩ | ⟨expected, got, _ | span⟩ | _ | _ | _ | _
    all_goals rfl

namespace Outcome

/-- An outcome, relabelled. -/
def relabel (outcome : Outcome) : Outcome where
  program := outcome.program.relabel change
  arena := outcome.arena.relabel change
  mistakes := outcome.mistakes.map (Mistake.relabel change)

theorem failedStage_relabel (outcome : Outcome) :
    (outcome.relabel change).failedStage = outcome.failedStage := by
  simp only [failedStage, relabel, List.head?_map, Option.map_map]
  exact congrArg (outcome.mistakes.head?.map ·) (funext fun mistake => mistake.stage_relabel change)

/-- An outcome, reworded. -/
def reword (change : Rewording) (outcome : Outcome) : Outcome where
  program := outcome.program.reword change
  arena := outcome.arena.relabel change
  mistakes := outcome.mistakes.map (Mistake.relabel change)

theorem reword_rewording (outcome : Outcome) :
    outcome.reword change.rewording = outcome.relabel change := by
  rw [reword, relabel, Program.reword_rewording]
  rfl

/-- What a run finds in reworded tokens is what it finds in the tokens, reworded. -/
theorem reword_ofTokens (change : Rewording) (source : SourceId) (tokens : List Token) :
    ofTokens (change.source source) (tokens.map (Token.reword change)) =
      (ofTokens source tokens).reword change := by
  have parsed := Parsed.reword_ofTokens change source tokens
  rw [ofTokens, ofTokens, parsed]
  generalize Parsed.ofTokens source tokens = parsed
  have resolved : (parsed.reword change).program.resolve .empty = _ :=
    parsed.program.resolve_reword change .empty
  rw [resolved]
  generalize parsed.program.resolve .empty = resolution
  have checked : Checked.Relabels change _ _ ((resolution.reword change).program.checkKnown
      (resolution.reword change).arena) :=
    resolution.program.checkKnown_relabels change resolution.arena
  -- The stages correspond with errors or without, so what is left is which of them comes first.
  simp only [Parsed.reword, Resolution.reword, List.isEmpty_map] at checked ⊢
  rw [checked.piece_eq, checked.arena_eq, checked.errors_eq]
  cases parsed.errors.isEmpty with
  | false =>
      simp only [Bool.not_false, ↓reduceIte, reword, List.map_map]
      rfl
  | true =>
      cases resolution.errors.isEmpty with
      | false =>
          simp only [Bool.not_false, Bool.not_true, Bool.false_eq_true, ↓reduceIte, reword,
            List.map_map]
          rfl
      | true =>
          simp only [Bool.not_true, Bool.false_eq_true, ↓reduceIte, reword, List.map_map]
          rfl

/-- What a run finds in relabelled tokens is what it finds in the tokens, relabelled. -/
theorem relabel_ofTokens (source : SourceId) (tokens : List Token) :
    ofTokens (change.source source) (tokens.map (Token.relabel change)) =
      (ofTokens source tokens).relabel change := by
  rw [← funext (Token.reword_rewording change), ← reword_rewording]
  exact reword_ofTokens change.rewording source tokens

end Outcome

end TypedLang
