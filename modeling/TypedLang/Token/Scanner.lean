import TypedLang.Cursor
import TypedLang.Token.Lexer

/-!
# Scanners

A scanner reads the tokens of a source with a cursor. It passes by blank bytes, marks where an item
starts, and lets the first byte decide by which rule the cursor goes on. A `Lexer` has all items of
its text laid out from the start; a scanner finds each one when it is asked for.
-/

namespace TypedLang

namespace Cursor

/-- What an item turns out to be, and the cursor behind it. -/
abbrev Found := Except LexicalError (Lexeme Bytes) × Cursor

/-- The item that ends at the position, whose bytes form a lexeme or are misspelled. -/
def settle (cursor : Cursor) (result : Except Misspelling (Lexeme Bytes)) : Found :=
  (result.mapError (LexicalError.ofMisspelling cursor.source cursor.span), cursor)

/-- Reads a word. -/
def word (cursor : Cursor) : Found :=
  let cursor := cursor.eatWhile Byte.continuesName
  cursor.settle (.ok (Scan.ofWord cursor.lexeme))

/-- Reads a number, and what is behind its dot if it has one. -/
def number (cursor : Cursor) : Found :=
  let cursor := cursor.eatWhile Byte.isDigit
  let whole := cursor.lexeme
  if cursor.peek = some Byte.dot then
    let cursor := cursor.consume.2.eatWhile Byte.isDigit
    cursor.settle (Scan.decimal whole (cursor.lexeme.drop (whole.length + 1)))
  else cursor.settle (Scan.integer whole)

/-- Reads a string with both quotes. -/
def string (cursor : Cursor) : Found :=
  let cursor := cursor.consume.2.eatWindowedWhile Scan.staysInString
  match cursor.eat Byte.quote with
  | (.error error, cursor) => (.error error, cursor)
  | (.ok _, cursor) =>
      cursor.settle (.ok (.string ((cursor.lexeme.drop 1).take (cursor.lexeme.length - 2))))

/-- Reads on, for so many bytes at most, while they continue a character of several bytes. -/
def eatContinuations (cursor : Cursor) : Nat → Cursor
  | 0 => cursor
  | count + 1 =>
      match cursor.peek with
      | none => cursor
      | some byte =>
          if byte.continuesCharacter then cursor.consume.2.eatContinuations count else cursor

/-- Reads the rest of a character that starts no lexeme. -/
def unexpected (cursor : Cursor) (first : Byte) : Found :=
  let cursor := if first.isBeyondAscii then cursor.eatContinuations 3 else cursor
  cursor.settle (.error ⟨.unexpectedCharacter, cursor.lexeme, "the start of a token"⟩)

/-- Reads a mark, along with an equals sign behind it if both form a mark. -/
def punct (cursor : Cursor) (first : Byte) : Found :=
  let cursor := cursor.consume.2
  let fused := if cursor.peek = some Byte.equals then Scan.mark? [first, Byte.equals] else none
  match fused, Scan.mark? [first] with
  | some mark, _ => cursor.consume.2.settle (.ok (.punct mark))
  | none, some mark => cursor.settle (.ok (.punct mark))
  | none, none => cursor.unexpected first

/-- Reads the item that starts at the position with the given byte. -/
def item (cursor : Cursor) (first : Byte) : Found :=
  if first.isLetter then cursor.word
  else if first.isDigit then cursor.number
  else if first = Byte.quote then cursor.string
  else cursor.punct first

section

variable {cursor : Cursor} {first : Byte}

theorem length_rest_advance (cursor : Cursor) (count : Nat) :
    (cursor.advance count).rest.length = cursor.rest.length - count := by
  simp only [rest, advance, List.length_drop]
  omega

theorem length_rest_advance_le (cursor : Cursor) (count : Nat) :
    (cursor.advance count).rest.length ≤ cursor.rest.length := by
  rw [length_rest_advance]
  exact Nat.sub_le _ _

theorem rest_eq_cons (next : cursor.peek = some first) :
    cursor.rest = first :: cursor.text.drop (cursor.position + 1) := by
  rcases List.getElem?_eq_some_iff.mp next with ⟨inside, rfl⟩
  exact List.drop_eq_getElem_cons inside

theorem length_rest_consume_le (cursor : Cursor) :
    cursor.consume.2.rest.length ≤ cursor.rest.length := by
  rw [consume]
  split
  · exact Nat.le_refl _
  · exact cursor.length_rest_advance_le 1

theorem length_rest_consume_lt (next : cursor.peek = some first) :
    cursor.consume.2.rest.length < cursor.rest.length := by
  rw [consume, next, length_rest_advance, rest_eq_cons next]
  exact Nat.lt_succ_self _

theorem length_rest_eatWhile_lt {accepts : Byte → Bool} (next : cursor.peek = some first)
    (accepted : accepts first = true) :
    (cursor.eatWhile accepts).rest.length < cursor.rest.length := by
  rw [eatWhile, length_rest_advance, rest_eq_cons next, List.takeWhile_cons_of_pos accepted,
    List.length_cons, List.length_cons]
  omega

theorem length_rest_eat_le (cursor : Cursor) (byte : Byte) :
    (cursor.eat byte).2.rest.length ≤ cursor.rest.length := by
  rw [eat, eatIf]
  split
  · exact Nat.le_refl _
  · split
    · exact cursor.length_rest_advance_le 1
    · exact Nat.le_refl _

theorem length_rest_eatContinuations_le (cursor : Cursor) (count : Nat) :
    (cursor.eatContinuations count).rest.length ≤ cursor.rest.length := by
  induction count generalizing cursor with
  | zero => exact Nat.le_refl _
  | succ count ih =>
      rw [eatContinuations]
      split
      · exact Nat.le_refl _
      · split
        · exact Nat.le_trans (ih _) cursor.length_rest_consume_le
        · exact Nat.le_refl _

theorem length_rest_number_lt (next : cursor.peek = some first) (isDigit : first.isDigit) :
    cursor.number.2.rest.length < cursor.rest.length := by
  have whole := length_rest_eatWhile_lt next isDigit
  rw [number]
  split
  · exact Nat.lt_of_le_of_lt (Nat.le_trans (length_rest_advance_le _ _)
      (length_rest_consume_le _)) whole
  · exact whole

theorem length_rest_string_lt (next : cursor.peek = some first) :
    cursor.string.2.rest.length < cursor.rest.length := by
  let body := cursor.consume.2.eatWindowedWhile Scan.staysInString
  have body_lt : body.rest.length < cursor.rest.length :=
    Nat.lt_of_le_of_lt (length_rest_advance_le _ _) (length_rest_consume_lt next)
  have closed_lt := Nat.lt_of_le_of_lt (body.length_rest_eat_le Byte.quote) body_lt
  rw [string]
  split <;> simp_all [body, settle]

theorem length_rest_punct_lt (next : cursor.peek = some first) :
    (cursor.punct first).2.rest.length < cursor.rest.length := by
  have consumed := length_rest_consume_lt next
  rw [punct]
  split
  · exact Nat.lt_of_le_of_lt (length_rest_consume_le _) consumed
  · exact consumed
  · rw [unexpected]
    split
    · exact Nat.lt_of_le_of_lt (length_rest_eatContinuations_le _ _) consumed
    · exact consumed

/-- Every item takes a byte at least. -/
theorem length_rest_item_lt (next : cursor.peek = some first) :
    (cursor.setMark.item first).2.rest.length < cursor.rest.length := by
  change cursor.setMark.peek = some first at next
  change _ < cursor.setMark.rest.length
  rw [item]
  split
  · exact length_rest_eatWhile_lt next (by simp [Byte.continuesName, *])
  · split
    · exact length_rest_number_lt next ‹_›
    · split
      · exact length_rest_string_lt next
      · exact length_rest_punct_lt next

end

end Cursor

/-- A scanner: how far it has read, and what it collected so far. -/
structure Scanner where
  cursor : Cursor
  interner : Interner
  errors : List LexicalError
  deriving Repr

namespace Scanner

/-- A scanner at the start of a text. -/
def ofText (source : SourceId) (text : Bytes) (interner : Interner) : Scanner :=
  ⟨.ofText source text, interner, []⟩

/-- A scanner at the start of a registered source. -/
def ofSource (registry : Registry) (id : SourceId) (interner : Interner) :
    Except Fault Scanner := do
  let source ← registry.get id
  pure (ofText id source.text interner)

/-- The next token, or none once the text is exhausted; errors before it are collected. -/
def next (scanner : Scanner) : Option Token × Scanner :=
  let cursor := scanner.cursor.eatWhile Byte.isBlank
  match _ : cursor.peek with
  | none => (none, { scanner with cursor := cursor })
  | some first =>
      match _ : cursor.setMark.item first with
      | (.ok lexeme, behind) =>
          let (lexeme, interner) := lexeme.intern scanner.interner
          (some ⟨lexeme, behind.span⟩, { scanner with cursor := behind, interner := interner })
      | (.error error, behind) =>
          next { scanner with cursor := behind, errors := scanner.errors ++ [error] }
termination_by scanner.cursor.rest.length
decreasing_by
  rename_i coming found
  have shorter := Cursor.length_rest_item_lt coming
  rw [found] at shorter
  exact Nat.lt_of_lt_of_le shorter (Cursor.length_rest_advance_le _ _)

/-- Behind a token there is less of the text left than in front of it. -/
theorem length_rest_next_lt {scanner later : Scanner} {token : Token}
    (next_eq : scanner.next = (some token, later)) :
    later.cursor.rest.length < scanner.cursor.rest.length := by
  fun_induction next scanner with
  | case1 => cases next_eq
  | case2 scanner cursor first coming lexeme behind found =>
      cases next_eq
      have shorter := Cursor.length_rest_item_lt coming
      rw [found] at shorter
      exact Nat.lt_of_lt_of_le shorter (Cursor.length_rest_advance_le _ _)
  | case3 scanner cursor first coming error behind found ih =>
      have shorter := Cursor.length_rest_item_lt coming
      rw [found] at shorter
      exact Nat.lt_trans (ih next_eq)
        (Nat.lt_of_lt_of_le shorter (Cursor.length_rest_advance_le _ _))

/-- All tokens that are left. -/
def tokenize (scanner : Scanner) : List Token × Scanner :=
  match _ : scanner.next with
  | (none, scanner) => ([], scanner)
  | (some token, scanner) =>
      let (tokens, scanner) := scanner.tokenize
      (token :: tokens, scanner)
termination_by scanner.cursor.rest.length
decreasing_by exact length_rest_next_lt ‹_›

/-- The errors collected so far, and a scanner that has collected none. -/
def takeErrors (scanner : Scanner) : List LexicalError × Scanner :=
  (scanner.errors, { scanner with errors := [] })

end Scanner

end TypedLang
