import TypedLang.Proofs.Severity
import TypedLang.Proofs.Token.Partition

/-!
# Places in a text

All that a mistake refers to is made of tokens or of bytes that form no token, so it is a piece of
the text with at least one byte. Only the error about a program that ends too early refers to
nothing.
-/

namespace TypedLang

/-- A span holds bytes of a text, and nothing behind its end. -/
structure Span.Within (text : Bytes) (span : Span) : Prop where
  nonempty : span.start < span.stop
  stop_le : span.stop ≤ text.length

/-- What tokens of a text cover is a piece of the text. -/
theorem Span.CoveredBy.within {text : Bytes} {tokens : List Token} {span : Span}
    (covered : span.CoveredBy tokens) (each : ∀ token ∈ tokens, token.span.Within text) :
    span.Within text := by
  rcases covered.inside with ⟨inner, innerMem, start_le, le_stop⟩
  rcases covered.stop with ⟨last, lastMem, stop_eq⟩
  have nonempty := (each inner innerMem).nonempty
  exact ⟨by omega, stop_eq ▸ (each last lastMem).stop_le⟩

theorem Partition.token_within {text : Bytes} {tokens : List Token} {errors : List LexicalError}
    (partition : Partition text tokens errors) : ∀ token ∈ tokens, token.span.Within text :=
  fun _ member => ⟨partition.tokens_ascending.nonempty _ (List.mem_map_of_mem member),
    partition.inside _ (List.mem_append_left _ (List.mem_map_of_mem member))⟩

theorem Partition.error_within {text : Bytes} {tokens : List Token} {errors : List LexicalError}
    (partition : Partition text tokens errors) : ∀ error ∈ errors, error.span.Within text :=
  fun _ member => ⟨partition.errors_ascending.nonempty _ (List.mem_map_of_mem member),
    partition.inside _ (List.mem_append_right _ (List.mem_map_of_mem member))⟩

/-- A mistake refers to pieces of a text, or tells that the text ends too early. -/
inductive Mistake.Located (text : Bytes) (mistake : Mistake) : Prop where
  | placed : mistake.code ≠ .unexpectedEndOfInput → mistake.places ≠ [] →
      (∀ place ∈ mistake.places, place.1.Within text) → Located text mistake
  | ended : mistake.code = .unexpectedEndOfInput → mistake.places = [] → Located text mistake

theorem LexicalError.located {text : Bytes} {error : LexicalError}
    (within : error.span.Within text) : (Mistake.lexing error).Located text := by
  refine .placed ?_ (List.cons_ne_nil _ _) (List.forall_mem_singleton.mpr within)
  rw [Mistake.code, LexicalError.code]
  split <;> decide

theorem Failure.Blames.located {text : Bytes} {tokens : List Token} {failure : Failure}
    (blames : failure.Blames tokens) (each : ∀ token ∈ tokens, token.span.Within text)
    (source : SourceId) : (Mistake.parsing (failure.error source)).Located text := by
  rcases failure with ⟨_ | ⟨token, rest⟩, expected, pastEnd⟩
  · cases blames.not_pastEnd
    exact .ended rfl rfl
  · cases blames.not_pastEnd
    have inside := each token (blames.suffix.subset List.mem_cons_self)
    exact .placed (show Code.unexpectedToken ≠ .unexpectedEndOfInput by decide)
      (List.cons_ne_nil _ _) (List.forall_mem_singleton.mpr inside)

theorem ResolutionError.Placed.located {text : Bytes} {source : SourceId} {marks : List Mark}
    {error : ResolutionError} (placed : error.Placed source marks)
    (each : ∀ span, Mark.Inside marks span → span.Within text) :
    (Mistake.nameResolution error).Located text := by
  have within := each _ placed.place
  have code_ne : (Mistake.nameResolution error).code ≠ .unexpectedEndOfInput := by
    rw [Mistake.code, ResolutionError.code]
    split <;> decide
  rcases error with ⟨source, span, name | ⟨name, _ | earlier⟩ | ⟨name, expected, found⟩⟩
  · exact .placed code_ne (List.cons_ne_nil _ _) (List.forall_mem_singleton.mpr within)
  · exact .placed code_ne (List.cons_ne_nil _ _) (List.forall_mem_singleton.mpr within)
  · refine .placed code_ne (List.cons_ne_nil _ _) (List.forall_mem_cons.mpr ⟨?_, ?_⟩)
    · exact each _ (placed.earlier _ rfl)
    · exact List.forall_mem_singleton.mpr within
  · exact .placed code_ne (List.cons_ne_nil _ _) (List.forall_mem_singleton.mpr within)

theorem TypeError.Placed.located {text : Bytes} {source : SourceId} {marks : List Mark}
    {error : TypeError} (placed : error.Placed source marks)
    (each : ∀ span, Mark.Inside marks span → span.Within text) :
    (Mistake.typeChecking error).Located text := by
  have within := each _ placed.place.inside
  have code_ne : (Mistake.typeChecking error).code ≠ .unexpectedEndOfInput := by
    rw [Mistake.code, TypeError.code]
    split <;> decide
  rcases origin_eq : error.origin with _ | origin
  · refine .placed code_ne ?_ ?_
    all_goals rw [Mistake.places, TypeError.places, origin_eq]
    · exact List.cons_ne_nil _ _
    · exact List.forall_mem_singleton.mpr within
  · refine .placed code_ne ?_ ?_
    all_goals rw [Mistake.places, TypeError.places, origin_eq]
    · exact List.cons_ne_nil _ _
    · refine List.forall_mem_cons.mpr ⟨?_, List.forall_mem_singleton.mpr within⟩
      exact each _ (placed.origin origin origin_eq).inside

section

variable {program : Program} (fresh : program.symbols = [])

include fresh

theorem Program.resolve_errors_placed :
    ∀ error ∈ (program.resolve .empty).errors, error.Placed program.source program.marks := by
  rcases program.resolve_conforms .empty fresh with ⟨_, _, errors, _⟩
  intro error member
  have placed := (program.resolve .empty).program.scopeErrors_placed error (errors.mem_iff.mp member)
  rw [program.marks_resolve .empty fresh] at placed
  exact placed

theorem Program.check_errors_placed (clean : (program.resolve .empty).errors = []) :
    ∀ error ∈ ((program.resolve .empty).program.checkKnown (program.resolve .empty).arena).errors,
      error.Placed program.source program.marks := by
  rcases program.check_follows fresh clean with ⟨_, follows⟩
  rcases follows.errors with ⟨verdicts, judged, errors_eq⟩
  intro error member
  rw [errors_eq] at member
  rcases Leaf.exists_of_mem_reduceOption judged member with ⟨leaf, leafMem, violation⟩
  have marked := (program.resolve .empty).program.leaves_isMarked leaf leafMem
  have placed := Leaf.placed_of_firstViolation marked violation
  rw [program.marks_resolve .empty fresh] at placed
  exact placed

end

namespace Outcome

theorem located_ofTokens {source : SourceId} {text : Bytes} {tokens : List Token}
    (each : ∀ token ∈ tokens, token.span.Within text) :
    ∀ mistake ∈ (ofTokens source tokens).mistakes, mistake.Located text := by
  intro mistake member
  have fresh := Parsed.symbols_eq_nil source tokens
  rw [ofTokens] at member
  split at member
  · rcases List.mem_map.mp member with ⟨error, errorMem, rfl⟩
    rcases List.mem_map.mp errorMem with ⟨failure, failed, rfl⟩
    exact (Parsed.declarations_blame _ tokens failure failed).located each source
  rename_i parsedClean
  have marked := Parsed.marked source tokens (by simpa using parsedClean)
  have within : ∀ span, Mark.Inside (Parsed.ofTokens source tokens).program.marks span →
      span.Within text := by
    rintro span ⟨mark, markMem, spanMem⟩
    exact ((marked.coveredBy_of_mem markMem).spans span spanMem).within each
  split at member
  · rcases List.mem_map.mp member with ⟨error, errorMem, rfl⟩
    exact (Program.resolve_errors_placed fresh error errorMem).located within
  · rename_i resolved
    rcases List.mem_map.mp member with ⟨error, errorMem, rfl⟩
    have placed := Program.check_errors_placed fresh (by simpa using resolved) error errorMem
    exact placed.located within

/-- All that the mistakes in a text refer to are pieces of that text. -/
theorem located_ofText (id : SourceId) (text : Bytes) (interner : Interner) :
    ∀ mistake ∈ (ofText id text interner).mistakes, mistake.Located text := by
  have partition : Partition text ((Lexer.ofText id text interner).tokenize).1
      ((Lexer.ofText id text interner).tokenize).2.errors :=
    ((Lexer.ofText id text interner).sortedInto_tokensOf rfl _).partition
  intro mistake member
  rw [ofText] at member
  split at member
  · rcases List.mem_map.mp member with ⟨error, errorMem, rfl⟩
    exact LexicalError.located (partition.error_within error errorMem)
  · exact located_ofTokens partition.token_within mistake member

end Outcome

end TypedLang
