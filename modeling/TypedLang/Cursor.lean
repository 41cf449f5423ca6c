import TypedLang.Token.Error

/-!
# Cursors

A cursor reads a text byte by byte. Its mark remembers where the current lexeme began; the bytes
from the mark to the position are the lexeme. The position only ever moves forward, and moving the
mark sets it to the position, so the mark never lies behind it.
-/

namespace TypedLang

/-- A reading position in the text of a source. -/
structure Cursor where
  source : SourceId
  text : Bytes
  mark : Nat := 0
  position : Nat := 0
  mark_le_position : mark ≤ position := by omega
  deriving Repr

namespace Cursor

/-- A cursor at the start of a text. -/
def ofText (source : SourceId) (text : Bytes) : Cursor :=
  ⟨source, text, 0, 0, Nat.le_refl 0⟩

/-- The bytes that are still to be read. -/
def rest (cursor : Cursor) : Bytes :=
  cursor.text.drop cursor.position

/-- Whether everything is read. -/
def isAtEnd (cursor : Cursor) : Bool :=
  cursor.text.length ≤ cursor.position

/-- The span of the current lexeme. -/
def span (cursor : Cursor) : Span :=
  ⟨cursor.mark, cursor.position, cursor.mark_le_position⟩

/-- The bytes of the current lexeme. -/
def lexeme (cursor : Cursor) : Bytes :=
  (cursor.text.drop cursor.mark).take (cursor.position - cursor.mark)

/-- The byte in front of the position, or the zero byte at the start of the text. -/
def previous (cursor : Cursor) : Byte :=
  if cursor.position = 0 then Byte.nul
  else cursor.text.getD (cursor.position - 1) Byte.nul

/-- The next byte, which stays to be read. -/
def peek (cursor : Cursor) : Option Byte :=
  cursor.text[cursor.position]?

/-- The cursor a number of bytes further on. -/
def advance (cursor : Cursor) (count : Nat) : Cursor :=
  { cursor with
    position := cursor.position + count
    mark_le_position := Nat.le_add_right_of_le cursor.mark_le_position }

/-- The next byte and the cursor behind it. -/
def consume (cursor : Cursor) : Option Byte × Cursor :=
  match cursor.peek with
  | none => (none, cursor)
  | some byte => (some byte, cursor.advance 1)

/-- The current lexeme starts at the position from now on. -/
def setMark (cursor : Cursor) : Cursor :=
  { cursor with mark := cursor.position, mark_le_position := Nat.le_refl cursor.position }

/-- Reads one byte that satisfies a condition, described by `expected`; otherwise stays in place. -/
def eatIf (cursor : Cursor) (accepts : Byte → Bool) (expected : Bytes) :
    Except LexicalError Byte × Cursor :=
  match cursor.peek with
  | none =>
      (.error ⟨.unterminatedLiteral, cursor.source, cursor.span, "end of input", expected⟩, cursor)
  | some byte =>
      if accepts byte then (.ok byte, cursor.advance 1)
      else
        let span := Span.ofLength cursor.position 1
        (.error ⟨.unexpectedCharacter, cursor.source, span, [byte], expected⟩, cursor)

/-- Reads the given byte; otherwise stays in place. -/
def eat (cursor : Cursor) (byte : Byte) : Except LexicalError Byte × Cursor :=
  cursor.eatIf (· == byte) (Bytes.quoted [byte])

/-- Reads on while a condition holds of the next byte. -/
def eatWhile (cursor : Cursor) (accepts : Byte → Bool) : Cursor :=
  cursor.advance (cursor.rest.takeWhile accepts).length

/-- Reads on while a condition holds of the byte read last and the next one. -/
def eatWindowedWhile (cursor : Cursor) (accepts : Byte → Byte → Bool) : Cursor :=
  cursor.advance (Bytes.takeWindowed accepts cursor.previous cursor.rest).length

end Cursor

end TypedLang
