import TypedLang.Token

/-!
# Scanning

Scanning splits a text into items: lexemes, and stretches of bytes that form none. Blank bytes
separate items and belong to none of them. What an item is depends on the bytes from its start on
and on nothing before it; the first byte decides which of four rules applies.
-/

namespace TypedLang

/-- The ways in which bytes can fail to form a lexeme. -/
inductive LexicalErrorKind where
  | unexpectedCharacter | unterminatedLiteral | outOfRange
  deriving Repr, DecidableEq

/-- Bytes that form no lexeme: what was found, and what would have been one. -/
structure Misspelling where
  kind : LexicalErrorKind
  found : Bytes
  expected : Bytes
  deriving Repr, DecidableEq

/-- The outcome of one scanning rule and the number of bytes that it took. -/
structure Scan where
  length : Nat
  result : Except Misspelling (Lexeme Bytes)
  deriving Repr

namespace Scan

/-- The lexeme of a whole word: a truth value, a reserved word or an identifier. -/
def ofWord (word : Bytes) : Lexeme Bytes :=
  if word = Bytes.ofText "true" then .boolean true
  else if word = Bytes.ofText "false" then .boolean false
  else
    match Keyword.all.find? fun keyword => Bytes.ofText keyword.spelling = word with
    | some keyword => .keyword keyword
    | none =>
        match TypeName.all.find? fun name => Bytes.ofText name.spelling = word with
        | some name => .typeName name
        | none => .identifier word

/-- A word is the longest run of letters, digits and underscores. -/
def word (text : Bytes) : Scan :=
  let letters := text.takeWhile Byte.continuesName
  ⟨letters.length, .ok (ofWord letters)⟩

/-- The value of an integer literal, which has to be below `2 ^ 64`. -/
def integer (digits : Bytes) : Except Misspelling (Lexeme Bytes) :=
  if digits.toNumber < powerOfTwo 64 then .ok (.integer (UInt64.ofNat digits.toNumber))
  else .error ⟨.outOfRange, digits, "an integer that fits into 64 bits"⟩

/-- The value of a decimal literal, given the digits before and behind its dot. -/
def decimal (whole fraction : Bytes) : Except Misspelling (Lexeme Bytes) :=
  (Binary64.ofDecimal? (Bytes.toNumber (whole ++ fraction)) fraction.length).elim
    (.error ⟨.outOfRange, whole ++ Byte.dot :: fraction, "a finite 64-bit decimal"⟩)
    fun value => .ok (.decimal value)

/-- A number is the longest run of digits and, if a dot follows, the dot and all its digits. -/
def number (text : Bytes) : Scan :=
  let whole := text.takeWhile Byte.isDigit
  match text.dropWhile Byte.isDigit with
  | [] => ⟨whole.length, integer whole⟩
  | next :: rest =>
      if next = Byte.dot then
        let fraction := rest.takeWhile Byte.isDigit
        ⟨whole.length + 1 + fraction.length, decimal whole fraction⟩
      else ⟨whole.length, integer whole⟩

/-- A byte stays inside a string unless it is a quote without a backslash right before it. -/
def staysInString (previous current : Byte) : Bool :=
  current != Byte.quote || previous == Byte.backslash

/-- A string, given the text behind its opening quote, ends at the first quote that closes it. -/
def string (text : Bytes) : Scan :=
  let body := Bytes.takeWindowed staysInString Byte.quote text
  if body.length < text.length then ⟨body.length + 2, .ok (.string body)⟩
  else ⟨body.length + 1, .error ⟨.unterminatedLiteral, "end of input", "'\"'"⟩⟩

/-- The mark with a given spelling. -/
def mark? (spelling : Bytes) : Option Punct :=
  Punct.all.find? fun mark => Bytes.ofText mark.spelling = spelling

/--
A byte that starts no lexeme. The rest of a multi-byte character, at most three bytes, is taken
along with its first byte, so that the character is reported once.
-/
def unexpected (first : Byte) (rest : Bytes) : Scan :=
  let others := if first.isBeyondAscii then (rest.take 3).takeWhile Byte.continuesCharacter else []
  ⟨1 + others.length, .error ⟨.unexpectedCharacter, first :: others, "the start of a token"⟩⟩

/-- A mark, given its first byte and the text behind it; two bytes are better than one. -/
def punct (first : Byte) (rest : Bytes) : Scan :=
  match mark? (first :: rest.take 1) with
  | some mark => ⟨(first :: rest.take 1).length, .ok (.punct mark)⟩
  | none =>
      match mark? [first] with
      | some mark => ⟨1, .ok (.punct mark)⟩
      | none => unexpected first rest

/-- The item that starts with a byte that is not blank, given the text behind that byte. -/
def item (first : Byte) (rest : Bytes) : Scan :=
  if first.isLetter then word (first :: rest)
  else if first.isDigit then number (first :: rest)
  else if first = Byte.quote then string rest
  else punct first rest

end Scan

/-- A lexeme or a misspelling at its place in a text. -/
structure Item where
  span : Span
  result : Except Misspelling (Lexeme Bytes)
  deriving Repr

namespace Item

/--
The items of a text that starts at an offset, when the first `skip` bytes belong to an item that is
already taken.
-/
def listFrom (offset skip : Nat) : Bytes → List Item
  | [] => []
  | byte :: rest =>
      match skip with
      | skip + 1 => listFrom (offset + 1) skip rest
      | 0 =>
          if byte.isBlank then listFrom (offset + 1) 0 rest
          else
            let scan := Scan.item byte rest
            ⟨.ofLength offset scan.length, scan.result⟩ ::
              listFrom (offset + 1) (scan.length - 1) rest

/-- The items of a text in order. -/
def list (text : Bytes) : List Item :=
  listFrom 0 0 text

end Item

end TypedLang
