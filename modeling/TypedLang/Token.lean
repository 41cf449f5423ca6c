import TypedLang.Binary64
import TypedLang.Bytes
import TypedLang.Interner
import TypedLang.Span
import TypedLang.Ty

/-!
# Tokens

The vocabulary of the language: the words that are reserved, the marks of punctuation, and the kinds
of tokens together with the two ways in which a kind is written. Its name appears in listings of
tokens, its description in messages.

A lexeme is a kind together with the value that a token of that kind carries. Its texts are either
bytes or, once they are interned, keys.
-/

namespace TypedLang

/-- The reserved words that name no type. -/
inductive Keyword where
  | structWord | returnWord | letWord | selfWord | funWord
  deriving Repr, DecidableEq

namespace Keyword

/-- Every reserved word that names no type. -/
def all : List Keyword :=
  [structWord, returnWord, letWord, selfWord, funWord]

/-- A reserved word as it is written in a program. -/
def spelling : Keyword → String
  | structWord => "struct"
  | returnWord => "return"
  | letWord => "let"
  | selfWord => "self"
  | funWord => "fun"

/-- The name of a reserved word in listings. -/
def name : Keyword → String
  | structWord => "KwStruct"
  | returnWord => "KwReturn"
  | letWord => "KwLet"
  | selfWord => "KwSelf"
  | funWord => "KwFun"

end Keyword

/-- The reserved words that name a type. -/
inductive TypeName where
  | u8 | i8 | u16 | i16 | u32 | i32 | u64 | i64 | usize | isize | f32 | f64 | bool
  deriving Repr, DecidableEq

namespace TypeName

/-- Every type name, in the order in which messages list them. -/
def all : List TypeName :=
  [u8, i8, u16, i16, u32, i32, u64, i64, usize, isize, f32, f64, bool]

/-- A type name as it is written in a program. -/
def spelling : TypeName → String
  | u8 => "u8"
  | i8 => "i8"
  | u16 => "u16"
  | i16 => "i16"
  | u32 => "u32"
  | i32 => "i32"
  | u64 => "u64"
  | i64 => "i64"
  | usize => "usize"
  | isize => "isize"
  | f32 => "f32"
  | f64 => "f64"
  | bool => "bool"

/-- The name of a type name in listings. -/
def name : TypeName → String
  | u8 => "KwU8"
  | i8 => "KwI8"
  | u16 => "KwU16"
  | i16 => "KwI16"
  | u32 => "KwU32"
  | i32 => "KwI32"
  | u64 => "KwU64"
  | i64 => "KwI64"
  | usize => "KwUsize"
  | isize => "KwIsize"
  | f32 => "KwF32"
  | f64 => "KwF64"
  | bool => "KwBool"

/-- The type that a type name denotes; the two sizes are those of a machine of 64 bits. -/
def type : TypeName → Ty
  | u8 => .integer .unsigned .bits8
  | i8 => .integer .signed .bits8
  | u16 => .integer .unsigned .bits16
  | i16 => .integer .signed .bits16
  | u32 => .integer .unsigned .bits32
  | i32 => .integer .signed .bits32
  | u64 => .integer .unsigned .bits64
  | i64 => .integer .signed .bits64
  | usize => .integer .unsigned .bits64
  | isize => .integer .signed .bits64
  | f32 => .decimal .bits32
  | f64 => .decimal .bits64
  | bool => .boolean

end TypeName

/-- The marks of punctuation and the operators. -/
inductive Punct where
  | leftBrace | rightBrace | leftParen | rightParen | leftBracket | rightBracket
  | atSign | comma | dot | semicolon
  | plus | plusEqual | minus | minusEqual | star | starEqual | slash | slashEqual
  | less | lessEqual | greater | greaterEqual | equal | equalEqual | bang | bangEqual
  deriving Repr, DecidableEq

namespace Punct

/-- Every mark. -/
def all : List Punct :=
  [leftBrace, rightBrace, leftParen, rightParen, leftBracket, rightBracket, atSign, comma, dot,
    semicolon, plus, plusEqual, minus, minusEqual, star, starEqual, slash, slashEqual, less,
    lessEqual, greater, greaterEqual, equal, equalEqual, bang, bangEqual]

/-- A mark as it is written in a program. -/
def spelling : Punct → String
  | leftBrace => "\x7b"
  | rightBrace => "\x7d"
  | leftParen => "("
  | rightParen => ")"
  | leftBracket => "["
  | rightBracket => "]"
  | atSign => "@"
  | comma => ","
  | dot => "."
  | semicolon => ";"
  | plus => "+"
  | plusEqual => "+="
  | minus => "-"
  | minusEqual => "-="
  | star => "*"
  | starEqual => "*="
  | slash => "/"
  | slashEqual => "/="
  | less => "<"
  | lessEqual => "<="
  | greater => ">"
  | greaterEqual => ">="
  | equal => "="
  | equalEqual => "=="
  | bang => "!"
  | bangEqual => "!="

/-- The name of a mark in listings. -/
def name : Punct → String
  | leftBrace => "LBrace"
  | rightBrace => "RBrace"
  | leftParen => "LParen"
  | rightParen => "RParen"
  | leftBracket => "LBracket"
  | rightBracket => "RBracket"
  | atSign => "At"
  | comma => "Comma"
  | dot => "Dot"
  | semicolon => "Semicolon"
  | plus => "Plus"
  | plusEqual => "PlusEqual"
  | minus => "Minus"
  | minusEqual => "MinusEqual"
  | star => "Star"
  | starEqual => "StarEqual"
  | slash => "Slash"
  | slashEqual => "SlashEqual"
  | less => "Less"
  | lessEqual => "LessEqual"
  | greater => "Greater"
  | greaterEqual => "GreaterEqual"
  | equal => "Equal"
  | equalEqual => "EqualEqual"
  | bang => "Bang"
  | bangEqual => "BangEqual"

end Punct

/-- The kinds of tokens. -/
inductive TokenKind where
  | identifier | integer | decimal | string | boolean
  | keyword (word : Keyword)
  | typeName (word : TypeName)
  | punct (mark : Punct)
  deriving Repr, DecidableEq

namespace TokenKind

/-- Every kind: literals and names, reserved words, type names and marks. -/
def all : List TokenKind :=
  [identifier, integer, decimal, string, boolean] ++ Keyword.all.map keyword ++
    TypeName.all.map typeName ++ Punct.all.map punct

/-- The name of a kind in listings. -/
def name : TokenKind → String
  | identifier => "Identifier"
  | integer => "IntegerLiteral"
  | decimal => "DecimalLiteral"
  | string => "StringLiteral"
  | boolean => "BooleanLiteral"
  | keyword word => word.name
  | typeName word => word.name
  | punct mark => mark.name

/-- The description of a kind in messages. -/
def describe : TokenKind → String
  | identifier => "an identifier"
  | integer => "an integer"
  | decimal => "a decimal"
  | string => "a string"
  | boolean => "a boolean"
  | keyword word => "'" ++ word.spelling ++ "'"
  | typeName word => "'" ++ word.spelling ++ "'"
  | punct mark => "'" ++ mark.spelling ++ "'"

/-- The kinds that name a type, in the order in which messages list them. -/
def typeNames : List TokenKind :=
  TypeName.all.map typeName

/-- The type that a kind names, if it names one. -/
def type? : TokenKind → Option Ty
  | typeName word => some word.type
  | _ => none

end TokenKind

/-- A kind of token together with the value that such a token carries. -/
inductive Lexeme (Text : Type) where
  | identifier (text : Text)
  | integer (value : UInt64)
  | decimal (value : Binary64)
  | string (text : Text)
  | boolean (value : Bool)
  | keyword (word : Keyword)
  | typeName (word : TypeName)
  | punct (mark : Punct)
  deriving Repr, DecidableEq

namespace Lexeme

variable {Text : Type}

/-- The kind of a lexeme. -/
def kind : Lexeme Text → TokenKind
  | identifier _ => .identifier
  | integer _ => .integer
  | decimal _ => .decimal
  | string _ => .string
  | boolean _ => .boolean
  | keyword word => .keyword word
  | typeName word => .typeName word
  | punct mark => .punct mark

/-- A lexeme with its text interned. -/
def intern (interner : Interner) : Lexeme Bytes → Lexeme Key × Interner
  | identifier text => ((interner.intern text).map identifier id)
  | string text => ((interner.intern text).map string id)
  | integer value => (integer value, interner)
  | decimal value => (decimal value, interner)
  | boolean value => (boolean value, interner)
  | keyword word => (keyword word, interner)
  | typeName word => (typeName word, interner)
  | punct mark => (punct mark, interner)

end Lexeme

/-- A lexeme at its place in a source. -/
structure Token where
  lexeme : Lexeme Key
  span : Span
  deriving Repr, DecidableEq

namespace Token

/-- The kind of a token. -/
def kind (token : Token) : TokenKind :=
  token.lexeme.kind

end Token

end TypedLang
