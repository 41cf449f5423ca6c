import Mathlib.Data.List.Induction
import TypedLang.Cursor

/-!
# Calls on a cursor

Whatever is asked of a cursor, it stays inside its text, with its mark at its position or before it,
so that the bytes of the current lexeme can always be cut out of the text. It never goes back, and a
byte that is refused or missing leaves it where it is. Loops go on to the first byte that does not
suit; the byte before it, which a condition may look at as well, is the one of the text.
-/

namespace TypedLang

namespace Bytes

/-- The byte in front of an offset of a text, or the zero byte at the start of the text. -/
def before (text : Bytes) : Nat → Byte
  | 0 => Byte.nul
  | offset + 1 => text.getD offset Byte.nul

/--
From one offset of a text on, a condition on a byte and the byte before it holds up to another
offset, and there it fails unless the text ends.
-/
structure HoldsUpTo (text : Bytes) (accepts : Byte → Byte → Bool) (start stop : Nat) : Prop where
  start_le : start ≤ stop
  stop_le : stop ≤ text.length
  accepted : ∀ offset byte, start ≤ offset → offset < stop → text[offset]? = some byte →
    accepts (text.before offset) byte = true
  refused : ∀ byte, text[stop]? = some byte → accepts (text.before stop) byte = false

variable {text : Bytes} {accepts : Byte → Byte → Bool} {start stop : Nat}

theorem HoldsUpTo.here (start_le : start ≤ text.length)
    (refused : ∀ byte, text[start]? = some byte → accepts (text.before start) byte = false) :
    text.HoldsUpTo accepts start start := by
  refine ⟨Nat.le_refl _, start_le, ?_, refused⟩
  intro offset byte le lt
  omega

theorem HoldsUpTo.next {byte : Byte} (found : text[start]? = some byte)
    (accepted : accepts (text.before start) byte = true)
    (further : text.HoldsUpTo accepts (start + 1) stop) : text.HoldsUpTo accepts start stop := by
  refine ⟨Nat.le_of_succ_le further.start_le, further.stop_le, ?_, further.refused⟩
  intro offset other le lt otherFound
  rcases Nat.eq_or_lt_of_le le with rfl | behind
  · rw [found] at otherFound
    cases otherFound
    exact accepted
  · exact further.accepted offset other behind lt otherFound

/-- A run that looks at the byte before stops where its condition first fails. -/
theorem holdsUpTo_takeWindowed (accepts : Byte → Byte → Bool) (front rest : Bytes) :
    (front ++ rest).HoldsUpTo accepts front.length (front.length +
      (takeWindowed accepts ((front ++ rest).before front.length) rest).length) := by
  induction rest generalizing front with
  | nil => exact .here (by simp) (by simp)
  | cons byte rest ih =>
      have found : (front ++ byte :: rest)[front.length]? = some byte := by simp
      have passed : (front ++ byte :: rest).before (front.length + 1) = byte := by
        simp [before, List.getD]
      rw [takeWindowed]
      split
      · rename_i accepted
        have further := ih (front ++ [byte])
        simp only [List.append_assoc, List.singleton_append, List.length_append,
          List.length_singleton, passed] at further
        rw [List.length_cons, Nat.add_comm _ 1, ← Nat.add_assoc]
        exact .next found accepted further
      · rename_i refused
        apply HoldsUpTo.here (by simp)
        intro other otherFound
        rw [found] at otherFound
        cases otherFound
        simpa using refused

/-- A run whose condition ignores the byte before is a plain one. -/
theorem takeWindowed_eq_takeWhile (accepts : Byte → Bool) (previous : Byte) (text : Bytes) :
    takeWindowed (fun _ byte => accepts byte) previous text = text.takeWhile accepts := by
  induction text generalizing previous with
  | nil => rfl
  | cons byte rest ih =>
      rw [takeWindowed, List.takeWhile_cons]
      split <;> simp_all

end Bytes

namespace Cursor

/-- What may be asked of a cursor. -/
inductive Call where
  | peek
  | consume
  | eat (byte : Byte)
  | eatIf (accepts : Byte → Bool) (expected : Bytes)
  | eatWhile (accepts : Byte → Bool)
  | eatWindowedWhile (accepts : Byte → Byte → Bool)
  | setMark

/-- What a cursor answers. -/
inductive Answer where
  | seen (byte : Option Byte)
  | eaten (result : Except LexicalError Byte)
  | done

/-- The byte that an answer gives. -/
def Answer.given? : Answer → Option Byte
  | seen byte => byte
  | eaten (.ok byte) => some byte
  | eaten (.error _) => none
  | done => none

/-- Whether the text is told to be at its end. -/
def Answer.isEndOfInput : Answer → Bool
  | seen byte => byte.isNone
  | eaten (.error error) => error.kind = .unterminatedLiteral ∧ error.found = "end of input"
  | eaten (.ok _) => false
  | done => false

/-- Whether a call asks for the next byte. -/
def Call.looks : Call → Bool
  | peek | consume | eat _ | eatIf _ _ => true
  | eatWhile _ | eatWindowedWhile _ | setMark => false

/-- Whether the byte that comes next may be given in answer to a call. -/
def Call.accepts : Call → Byte → Bool
  | peek, _ | consume, _ => true
  | eat expected, byte => byte == expected
  | eatIf accepts _, byte => accepts byte
  | eatWhile _, _ | eatWindowedWhile _, _ | setMark, _ => false

/-- What a cursor answers to a call, and the cursor behind it. -/
def answer (cursor : Cursor) : Call → Answer × Cursor
  | .peek => (.seen cursor.peek, cursor)
  | .consume => (.seen cursor.consume.1, cursor.consume.2)
  | .eat byte => (.eaten (cursor.eat byte).1, (cursor.eat byte).2)
  | .eatIf accepts expected =>
      (.eaten (cursor.eatIf accepts expected).1, (cursor.eatIf accepts expected).2)
  | .eatWhile accepts => (.done, cursor.eatWhile accepts)
  | .eatWindowedWhile accepts => (.done, cursor.eatWindowedWhile accepts)
  | .setMark => (.done, cursor.setMark)

/-- The cursor at the start of a text, after some calls. -/
def after (source : SourceId) (text : Bytes) (calls : List Call) : Cursor :=
  calls.foldl (fun cursor call => (cursor.answer call).2) (ofText source text)

@[simp]
theorem after_concat (source : SourceId) (text : Bytes) (calls : List Call) (call : Call) :
    after source text (calls ++ [call]) = ((after source text calls).answer call).2 := by
  simp [after]

/-- What comes of a call that asks a cursor for the next byte. -/
inductive Looks (cursor : Cursor) (call : Call) : Answer → Cursor → Prop where
  | exhausted {answer : Answer} : cursor.peek = none → answer.given? = none →
      answer.isEndOfInput = true → Looks cursor call answer cursor
  | refused {byte : Byte} {answer : Answer} : cursor.peek = some byte →
      call.accepts byte = false → answer.given? = none → answer.isEndOfInput = false →
      Looks cursor call answer cursor
  | shown {byte : Byte} : call = .peek → cursor.peek = some byte →
      Looks cursor call (.seen (some byte)) cursor
  | taken {byte : Byte} {answer : Answer} : call ≠ .peek → cursor.peek = some byte →
      call.accepts byte = true → answer.given? = some byte → answer.isEndOfInput = false →
      Looks cursor call answer (cursor.advance 1)

variable {source : SourceId} {text : Bytes}

/-- A call that reads a byte on a condition takes the next byte or leaves it. -/
theorem eatIf_looks (cursor : Cursor) {call : Call} (accepts : Byte → Bool) (expected : Bytes)
    (call_ne : call ≠ .peek) (accepts_eq : ∀ byte, call.accepts byte = accepts byte) :
    cursor.Looks call (.eaten (cursor.eatIf accepts expected).1)
      (cursor.eatIf accepts expected).2 := by
  rw [eatIf]
  cases next : cursor.peek with
  | none => exact .exhausted next rfl (by simp [Answer.isEndOfInput])
  | some byte =>
      by_cases accepted : accepts byte = true
      · simp only [accepted, ↓reduceIte]
        exact .taken call_ne next (by rw [accepts_eq, accepted]) rfl rfl
      · simp only [accepted, Bool.false_eq_true, ↓reduceIte]
        exact .refused next (by simpa [accepts_eq] using accepted) rfl
          (by simp [Answer.isEndOfInput])

theorem answer_looks (cursor : Cursor) {call : Call} (looks : call.looks = true) :
    cursor.Looks call (cursor.answer call).1 (cursor.answer call).2 := by
  cases call with
  | peek =>
      cases next : cursor.peek with
      | none =>
          simp only [answer, next]
          exact .exhausted next rfl rfl
      | some byte =>
          simp only [answer, next]
          exact .shown rfl next
  | consume =>
      simp only [answer, consume]
      cases next : cursor.peek with
      | none => exact .exhausted next rfl rfl
      | some byte => exact .taken nofun next rfl rfl rfl
  | eat byte => exact cursor.eatIf_looks _ _ nofun fun _ => rfl
  | eatIf accepts expected => exact cursor.eatIf_looks accepts expected nofun fun _ => rfl
  | eatWhile accepts => cases looks
  | eatWindowedWhile accepts => cases looks
  | setMark => cases looks

namespace Looks

variable {cursor next : Cursor} {call : Call} {answer : Answer}

theorem position_le (looks : cursor.Looks call answer next) :
    cursor.position ≤ next.position := by
  cases looks with
  | exhausted => exact Nat.le_refl _
  | refused => exact Nat.le_refl _
  | shown => exact Nat.le_refl _
  | taken => exact Nat.le_succ _

theorem mark_eq (looks : cursor.Looks call answer next) : next.mark = cursor.mark := by
  cases looks <;> rfl

/-- A byte is given exactly if it comes next and may be given. -/
theorem given_iff (looks : cursor.Looks call answer next) (byte : Byte) :
    answer.given? = some byte ↔ cursor.peek = some byte ∧ call.accepts byte = true := by
  cases looks with
  | exhausted ended notGiven => simp [ended, notGiven]
  | refused found refuses notGiven =>
      rw [found, notGiven, Option.some.injEq]
      refine iff_of_false nofun ?_
      rintro ⟨rfl, accepts⟩
      rw [refuses] at accepts
      cases accepts
  | shown isPeek found => simp [isPeek, found, Answer.given?, Call.accepts]
  | taken _ found accepts given =>
      rw [found, given, Option.some.injEq]
      exact ⟨fun same => ⟨same, same ▸ accepts⟩, And.left⟩

/-- A byte that is given is passed by, unless it is only looked at. -/
theorem position_of_given (looks : cursor.Looks call answer next) {byte : Byte}
    (given : answer.given? = some byte) (notPeek : call ≠ .peek) :
    next.position = cursor.position + 1 := by
  cases looks with
  | exhausted _ notGiven => simp [notGiven] at given
  | refused _ _ notGiven => simp [notGiven] at given
  | shown isPeek => exact absurd isPeek notPeek
  | taken => rfl

theorem eq_of_not_given (looks : cursor.Looks call answer next) (notGiven : answer.given? = none) :
    next = cursor := by
  cases looks with
  | exhausted => rfl
  | refused => rfl
  | shown => rfl
  | taken _ _ _ given => simp [given] at notGiven

theorem isEndOfInput_iff (looks : cursor.Looks call answer next) :
    answer.isEndOfInput = true ↔ cursor.peek = none := by
  cases looks with
  | exhausted ended _ told => simp [ended, told]
  | refused found _ _ notTold => simp [found, notTold]
  | shown _ found => simp [found, Answer.isEndOfInput]
  | taken _ found _ _ notTold => simp [found, notTold]

end Looks

/-- A cursor over a text reads the text and does not leave it. -/
structure Within (cursor : Cursor) (source : SourceId) (text : Bytes) : Prop where
  source_eq : cursor.source = source
  text_eq : cursor.text = text
  position_le : cursor.position ≤ text.length

namespace Within

variable {cursor next : Cursor}

theorem peek_eq (within : cursor.Within source text) : cursor.peek = text[cursor.position]? := by
  rw [peek, within.text_eq]

theorem previous_eq (within : cursor.Within source text) :
    cursor.previous = text.before cursor.position := by
  rw [previous, within.text_eq]
  cases cursor.position <;> simp [Bytes.before]

theorem holdsUpTo_eatWindowedWhile (within : cursor.Within source text)
    (accepts : Byte → Byte → Bool) :
    text.HoldsUpTo accepts cursor.position (cursor.eatWindowedWhile accepts).position := by
  have front_length : (text.take cursor.position).length = cursor.position := by
    simp [within.position_le]
  have stops := Bytes.holdsUpTo_takeWindowed accepts (text.take cursor.position)
    (text.drop cursor.position)
  rw [List.take_append_drop, front_length, ← within.previous_eq] at stops
  simpa [eatWindowedWhile, advance, rest, within.text_eq] using stops

theorem holdsUpTo_eatWhile (within : cursor.Within source text) (accepts : Byte → Bool) :
    text.HoldsUpTo (fun _ byte => accepts byte) cursor.position
      (cursor.eatWhile accepts).position := by
  have stops := within.holdsUpTo_eatWindowedWhile fun _ byte => accepts byte
  rwa [eatWindowedWhile, Bytes.takeWindowed_eq_takeWhile] at stops

theorem of_looks (within : cursor.Within source text) {call : Call} {answer : Answer}
    (looks : cursor.Looks call answer next) : next.Within source text := by
  cases looks with
  | exhausted => exact within
  | refused => exact within
  | shown => exact within
  | taken _ found =>
      rw [within.peek_eq] at found
      exact ⟨within.source_eq, within.text_eq, (List.getElem?_eq_some_iff.mp found).1⟩

/-- No call leads out of the text. -/
theorem answer (within : cursor.Within source text) (call : Call) :
    (cursor.answer call).2.Within source text := by
  cases call with
  | peek => exact within.of_looks (cursor.answer_looks rfl)
  | consume => exact within.of_looks (cursor.answer_looks rfl)
  | eat byte => exact within.of_looks (cursor.answer_looks rfl)
  | eatIf accepts expected => exact within.of_looks (cursor.answer_looks rfl)
  | eatWhile accepts =>
      exact ⟨within.source_eq, within.text_eq, (within.holdsUpTo_eatWhile accepts).stop_le⟩
  | eatWindowedWhile accepts =>
      exact ⟨within.source_eq, within.text_eq, (within.holdsUpTo_eatWindowedWhile accepts).stop_le⟩
  | setMark => exact ⟨within.source_eq, within.text_eq, within.position_le⟩

end Within

theorem within_after (source : SourceId) (text : Bytes) (calls : List Call) :
    (after source text calls).Within source text := by
  induction calls using List.reverseRecOn with
  | nil => exact ⟨rfl, rfl, Nat.zero_le _⟩
  | append_singleton calls call ih =>
      rw [after_concat]
      exact ih.answer call

/-- What holds of a cursor over a text at any time, whatever it is asked next. -/
structure Reads (cursor : Cursor) (source : SourceId) (text : Bytes) : Prop where
  source_eq : cursor.source = source
  text_eq : cursor.text = text
  mark_le : cursor.mark ≤ cursor.position
  position_le : cursor.position ≤ text.length
  span_eq : Span.ofBounds cursor.mark cursor.position = .ok cursor.span
  lexeme_eq : ∃ front back, text = front ++ cursor.lexeme ++ back ∧
    front.length = cursor.mark ∧ (front ++ cursor.lexeme).length = cursor.position
  position_le_answer : ∀ call, cursor.position ≤ (cursor.answer call).2.position
  position_answer : ∀ call byte, (cursor.answer call).1.given? = some byte → call ≠ .peek →
    (cursor.answer call).2.position = cursor.position + 1
  mark_answer : ∀ call, (cursor.answer call).2.mark =
    match call with
    | .setMark => cursor.position
    | _ => cursor.mark
  given_iff : ∀ call byte, (cursor.answer call).1.given? = some byte ↔
    text[cursor.position]? = some byte ∧ call.accepts byte = true
  not_given : ∀ call, call.looks = true → (cursor.answer call).1.given? = none →
    (cursor.answer call).2 = cursor
  peek : (cursor.answer .peek).2 = cursor
  isAtEnd_iff : cursor.isAtEnd = true ↔ cursor.position = text.length
  isEndOfInput_iff : ∀ call, (cursor.answer call).1.isEndOfInput = true ↔
    call.looks = true ∧ cursor.position = text.length
  eatWhile : ∀ accepts, text.HoldsUpTo (fun _ byte => accepts byte) cursor.position
    (cursor.answer (.eatWhile accepts)).2.position
  eatWindowedWhile : ∀ accepts, text.HoldsUpTo accepts cursor.position
    (cursor.answer (.eatWindowedWhile accepts)).2.position

/-- Whatever was asked of a cursor, it reads its text. -/
theorem reads_after (source : SourceId) (text : Bytes) (calls : List Call) :
    (after source text calls).Reads source text := by
  have within := within_after source text calls
  generalize after source text calls = cursor at within
  have exhausted_iff : cursor.peek = none ↔ cursor.position = text.length := by
    rw [within.peek_eq, List.getElem?_eq_none_iff]
    have := within.position_le
    omega
  constructor
  case source_eq => exact within.source_eq
  case text_eq => exact within.text_eq
  case mark_le => exact cursor.mark_le_position
  case position_le => exact within.position_le
  case span_eq => simp [Span.ofBounds, cursor.mark_le_position, span]
  case lexeme_eq =>
    have inside := within.position_le
    have ordered := cursor.mark_le_position
    refine ⟨text.take cursor.mark, text.drop cursor.position, ?_, ?_, ?_⟩
    · have back_eq : text.drop cursor.position =
          (text.drop cursor.mark).drop (cursor.position - cursor.mark) := by
        rw [List.drop_drop, Nat.add_sub_cancel' ordered]
      rw [lexeme, within.text_eq, List.append_assoc, back_eq, List.take_append_drop,
        List.take_append_drop]
    · rw [List.length_take]
      omega
    · simp only [lexeme, within.text_eq, List.length_append, List.length_take, List.length_drop]
      omega
  case position_le_answer =>
    intro call
    by_cases looks : call.looks = true
    · exact (cursor.answer_looks looks).position_le
    · cases call with
      | eatWhile accepts => exact (within.holdsUpTo_eatWhile accepts).start_le
      | eatWindowedWhile accepts => exact (within.holdsUpTo_eatWindowedWhile accepts).start_le
      | setMark => exact Nat.le_refl _
      | _ => exact absurd rfl looks
  case mark_answer =>
    intro call
    cases call with
    | eatWhile accepts => rfl
    | eatWindowedWhile accepts => rfl
    | setMark => rfl
    | _ => exact (cursor.answer_looks rfl).mark_eq
  case given_iff =>
    intro call byte
    by_cases looks : call.looks = true
    · rw [← within.peek_eq]
      exact (cursor.answer_looks looks).given_iff byte
    · cases call <;> simp_all [Call.looks, Cursor.answer, Answer.given?, Call.accepts]
  case position_answer =>
    intro call byte given notPeek
    by_cases looks : call.looks = true
    · exact (cursor.answer_looks looks).position_of_given given notPeek
    · cases call <;> first | cases given | exact absurd rfl looks
  case not_given => exact fun call looks => (cursor.answer_looks looks).eq_of_not_given
  case peek => rfl
  case isAtEnd_iff =>
    have := within.position_le
    simp only [isAtEnd, within.text_eq, decide_eq_true_eq]
    omega
  case isEndOfInput_iff =>
    intro call
    by_cases looks : call.looks = true
    · simp [(cursor.answer_looks looks).isEndOfInput_iff, exhausted_iff, looks]
    · cases call <;> simp_all [Call.looks, Cursor.answer, Answer.isEndOfInput]
  case eatWhile => exact within.holdsUpTo_eatWhile
  case eatWindowedWhile => exact within.holdsUpTo_eatWindowedWhile

end Cursor

end TypedLang
