/-!
# Byte strings

Source texts, names and messages are sequences of bytes. Nothing here assumes that they form valid
text in any encoding; the character classes are those of ASCII, so a byte from 128 on is neither a
letter, a digit nor blank.
-/

namespace TypedLang

/-- One byte of a text. -/
abbrev Byte := UInt8

/-- A text as the sequence of its bytes. -/
abbrev Bytes := List Byte

namespace Byte

/-- The byte that ends a text handed over without its length. -/
def nul : Byte := 0

/-- The line feed, which ends a line. -/
def newline : Byte := 10

/-- The horizontal tabulator. -/
def tab : Byte := 9

/-- The carriage return. -/
def carriageReturn : Byte := 13

/-- The space, which indents listings. -/
def space : Byte := 32

/-- The double quote around string literals. -/
def quote : Byte := 34

/-- The hyphen that starts an option of the command line. -/
def hyphen : Byte := 45

/-- The dot between the two parts of a decimal literal. -/
def dot : Byte := 46

/-- The slash between a directory and a file in it. -/
def slash : Byte := 47

/-- The digit zero, the first of the ten consecutive digits. -/
def zero : Byte := 48

/-- The equals sign, the second byte of every two-byte operator. -/
def equals : Byte := 61

/-- The backslash, which keeps a quote after it from closing a string. -/
def backslash : Byte := 92

/-- The underscore, allowed in an identifier after its first letter. -/
def underscore : Byte := 95

/-- Blank bytes: the space and the five controls from tabulator to carriage return. -/
def isBlank (byte : Byte) : Bool :=
  byte == space || (tab ≤ byte && byte ≤ carriageReturn)

/-- The digits from zero to nine. -/
def isDigit (byte : Byte) : Bool :=
  48 ≤ byte && byte ≤ 57

/-- The letters of ASCII, of either case. -/
def isLetter (byte : Byte) : Bool :=
  (65 ≤ byte && byte ≤ 90) || (97 ≤ byte && byte ≤ 122)

/-- The bytes that may follow the first letter of an identifier. -/
def continuesName (byte : Byte) : Bool :=
  isLetter byte || isDigit byte || byte == underscore

/-- Bytes beyond ASCII, which start or continue a multi-byte character. -/
def isBeyondAscii (byte : Byte) : Bool :=
  128 ≤ byte

/-- The bytes that UTF-8 uses after the first byte of a multi-byte character. -/
def continuesCharacter (byte : Byte) : Bool :=
  128 ≤ byte && byte < 192

end Byte

namespace Bytes

/-- The bytes of a text whose characters all have codes below 256, one byte for each. -/
def ofText (text : String) : Bytes :=
  text.toList.map fun character => character.toNat.toUInt8

instance : Coe String Bytes := ⟨ofText⟩

/-- The pieces of a message, one after the other. -/
def concat (pieces : List Bytes) : Bytes :=
  pieces.flatten

/-- A number in base ten without leading zeros. -/
def ofNat (number : Nat) : Bytes :=
  (Nat.toDigits 10 number).map fun digit => digit.toNat.toUInt8

/-- The number that a run of digits stands for in base ten. -/
def toNumber (digits : Bytes) : Nat :=
  digits.foldl (fun value digit => 10 * value + (digit.toNat - Byte.zero.toNat)) 0

/-- The text between two single quotes. -/
def quoted (text : Bytes) : Bytes :=
  concat ["'", text, "'"]

/--
The longest run at the front of a text in which `continues previous current` holds of every byte
`current` and the byte `previous` before it. The byte before the first one is given.
-/
def takeWindowed (continues : Byte → Byte → Bool) (previous : Byte) : Bytes → Bytes
  | [] => []
  | current :: rest =>
      if continues previous current then current :: takeWindowed continues current rest else []

end Bytes

end TypedLang
