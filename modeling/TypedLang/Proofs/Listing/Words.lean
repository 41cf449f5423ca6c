import Mathlib.Data.Option.Basic
import TypedLang.Proofs.Listing.Lines
import TypedLang.Proofs.Parsing.Completeness

/-!
# The words of a line

The words of a line are told apart from both of its ends: the span stands at the end of a line, a
symbol in front of it, and a type at the start. What is left is a word that names the kind of the
node, with an operator, a name or a value behind it. The value of a string may have any bytes in it,
and so it is not looked at before all else is known.
-/

namespace TypedLang

/-- Every type. -/
def Ty.all : List Ty :=
  [.integer .unsigned .bits8, .integer .signed .bits8, .integer .unsigned .bits16,
    .integer .signed .bits16, .integer .unsigned .bits32, .integer .signed .bits32,
    .integer .unsigned .bits64, .integer .signed .bits64, .decimal .bits32, .decimal .bits64,
    .boolean]

theorem Ty.mem_all (type : Ty) : type ∈ all := by
  rcases type with ⟨sign, width⟩ | ⟨width⟩ | _
  · cases sign <;> cases width <;> decide
  · cases width <;> decide
  · decide

/-- Different types have different names. -/
theorem Ty.name_injective : Function.Injective fun type : Ty => Bytes.ofText type.name := by
  have pairs : ∀ type ∈ all, ∀ other ∈ all,
      Bytes.ofText type.name = Bytes.ofText other.name → type = other := by decide +kernel
  exact fun type other => pairs type type.mem_all other other.mem_all

/-- Different binary operators are headed by different words. -/
theorem BinaryOp.words_injective : ∀ op other : BinaryOp,
    Bytes.concat [op.levelName, " op=", op.spelling] =
      Bytes.concat [other.levelName, " op=", other.spelling] → op = other := by
  decide +kernel

theorem UnaryOp.words_injective (op other : UnaryOp)
    (same : Bytes.concat ["Unary op=", op.spelling] = Bytes.concat ["Unary op=", other.spelling]) :
    op = other := by
  have marks : Bytes.ofText UnaryOp.negate.spelling ≠ Bytes.ofText UnaryOp.complement.spelling := by
    decide
  simp only [Bytes.concat, List.flatten_cons, List.flatten_nil, List.append_nil,
    List.append_cancel_left_eq] at same
  cases op <;> cases other
  case negate.complement => exact absurd same marks
  case complement.negate => exact absurd same.symm marks
  all_goals rfl

namespace Listing

theorem spanText_eq (span : Span) : spanText span = Bytes.ofText " span" ++
    Byte.equals :: (Bytes.ofNat span.start ++ Byte.dot :: Byte.dot :: Bytes.ofNat span.stop) := by
  rw [spanText, Bytes.concat]
  simp only [List.flatten_cons, List.flatten_nil, List.append_nil]
  rfl

theorem absent_of_isDigit {byte : Byte} {digits : Bytes}
    (isDigits : ∀ digit ∈ digits, Byte.isDigit digit) (isNone : byte.isDigit = false) :
    byte ∉ digits := by
  intro member
  rw [isDigits byte member] at isNone
  cases isNone

/-- The span at the end of a line and what stands in front of it are told apart. -/
theorem spanText_append_inj {front other : Bytes} {span otherSpan : Span}
    (same : front ++ spanText span = other ++ spanText otherSpan) :
    front = other ∧ span = otherSpan := by
  have noDot (number : Nat) : Byte.dot ∉ Bytes.ofNat number :=
    absent_of_isDigit Bytes.isDigit_of_mem_ofNat rfl
  have noEquals (number : Nat) : Byte.equals ∉ Bytes.ofNat number :=
    absent_of_isDigit Bytes.isDigit_of_mem_ofNat rfl
  have regroup (front : Bytes) (span : Span) : front ++ spanText span =
      ((front ++ Bytes.ofText " span") ++ Byte.equals :: Bytes.ofNat span.start ++ [Byte.dot]) ++
        Byte.dot :: Bytes.ofNat span.stop := by
    simp [spanText_eq]
  rw [regroup, regroup] at same
  rcases Bytes.separated_last_inj (noDot _) (noDot _) same with ⟨start, stop_eq⟩
  rcases Bytes.separated_last_inj (noEquals _) (noEquals _) (List.append_cancel_right start) with
    ⟨front_eq, start_eq⟩
  exact ⟨List.append_cancel_right front_eq,
    Span.eq_of_bounds (Bytes.ofNat_injective start_eq) (Bytes.ofNat_injective stop_eq)⟩

/-- A text that does not end with a digit. -/
def EndsInWord (text : Bytes) : Prop :=
  ∀ last ∈ text.getLast?, Byte.isDigit last = false

theorem EndsInWord.concat (front : Bytes) {last : Byte} (isNone : last.isDigit = false) :
    EndsInWord (front ++ [last]) := by
  intro other member
  rw [List.getLast?_concat] at member
  cases member
  exact isNone

theorem symbolText_some (id : SymbolId) :
    symbolText (some id) = Bytes.ofText " symbol=" ++ 35 :: Bytes.ofNat id := by
  rw [symbolText, Bytes.concat]
  simp only [List.flatten_cons, List.flatten_nil, List.append_nil]
  rfl

theorem not_endsInWord_symbolText (front : Bytes) (id : SymbolId) :
    ¬ EndsInWord (front ++ symbolText (some id)) := by
  intro endsInWord
  have nonempty : Bytes.ofNat id ≠ [] := by
    simp [Bytes.ofNat, Nat.toDigits_ne_nil]
  have isDigit := Bytes.isDigit_of_mem_ofNat _ (List.getLast_mem nonempty)
  rw [endsInWord _ (by simp [symbolText_some, List.getLast?_append, List.getLast?_cons,
    List.getLast?_eq_some_getLast nonempty])] at isDigit
  cases isDigit

/-- The symbol behind a word and the word are told apart. -/
theorem symbolText_append_inj {front other : Bytes} {symbol otherSymbol : Option SymbolId}
    (endsInWord : EndsInWord front) (otherEndsInWord : EndsInWord other)
    (same : front ++ symbolText symbol = other ++ symbolText otherSymbol) :
    front = other ∧ symbol = otherSymbol := by
  rcases symbol with _ | id <;> rcases otherSymbol with _ | otherId
  · exact ⟨by simpa [symbolText] using same, rfl⟩
  · rw [symbolText, List.append_nil] at same
    exact absurd (same ▸ endsInWord) (not_endsInWord_symbolText other otherId)
  · rw [symbolText, List.append_nil] at same
    exact absurd (same ▸ otherEndsInWord) (not_endsInWord_symbolText front id)
  · have noHash (number : Nat) : (35 : Byte) ∉ Bytes.ofNat number :=
      absent_of_isDigit Bytes.isDigit_of_mem_ofNat rfl
    rw [symbolText_some, symbolText_some, ← List.append_assoc, ← List.append_assoc] at same
    rcases Bytes.separated_last_inj (noHash _) (noHash _) same with ⟨front_eq, digits_eq⟩
    exact ⟨List.append_cancel_right front_eq, congrArg some (Bytes.ofNat_injective digits_eq)⟩

theorem symbolText_injective : Function.Injective symbolText := by
  intro symbol other same
  have framed : ([] : Bytes) ++ symbolText symbol = [] ++ symbolText other := same
  exact (symbolText_append_inj (by simp [EndsInWord]) (by simp [EndsInWord]) framed).2

/-- The type at the start of a line and the word behind it are told apart. -/
theorem typeText_append_inj {first other : Byte} {rest otherRest : Bytes}
    {type otherType : Option Ty} (isWord : first.isLetter) (otherIsWord : other.isLetter)
    (same : typeText type ++ first :: rest = typeText otherType ++ other :: otherRest) :
    type = otherType ∧ first :: rest = other :: otherRest := by
  have noClose (type : Ty) : (62 : Byte) ∉ Bytes.ofText type.name := by
    have all : ∀ type ∈ Ty.all, (62 : Byte) ∉ Bytes.ofText type.name := by decide +kernel
    exact all type type.mem_all
  have some_eq (type : Ty) (rest : Bytes) : typeText (some type) ++ rest =
      60 :: (Bytes.ofText type.name ++ 62 :: 32 :: rest) := by
    rw [typeText, Bytes.concat]
    simp only [List.flatten_cons, List.flatten_nil, List.append_nil, List.append_assoc]
    rfl
  rcases type with _ | type <;> rcases otherType with _ | otherType
  · exact ⟨rfl, same⟩
  · rw [some_eq] at same
    cases (List.cons.inj same).1
    cases isWord
  · rw [some_eq] at same
    cases (List.cons.inj same).1
    cases otherIsWord
  · rw [some_eq, some_eq] at same
    rcases Bytes.separated_inj (noClose _) (noClose _) (List.cons.inj same).2 with
      ⟨type_eq, rest_eq⟩
    exact ⟨congrArg some (Ty.name_injective type_eq), (List.cons.inj rest_eq).2⟩

/-- The byte that a backslash and another byte stand for. -/
def escaped (code : Byte) : Byte :=
  if code = 110 then Byte.newline
  else if code = 116 then Byte.tab
  else if code = 114 then Byte.carriageReturn
  else code

/-- A text before it was escaped. -/
def unescape : Bytes → Bytes
  | [] => []
  | [byte] => [byte]
  | first :: second :: rest =>
      if first = Byte.backslash then escaped second :: unescape rest
      else first :: unescape (second :: rest)

theorem unescape_backslash (code : Byte) (rest : Bytes) :
    unescape (Byte.backslash :: code :: rest) = escaped code :: unescape rest := by
  rw [unescape, if_pos rfl]

theorem unescape_cons {byte : Byte} (plain : byte ≠ Byte.backslash) (rest : Bytes) :
    unescape (byte :: rest) = byte :: unescape rest := by
  cases rest with
  | nil => rfl
  | cons next rest => rw [unescape, if_neg plain]

/-- An escaped text can be read back. -/
theorem unescape_flatMap_escape (text : Bytes) : unescape (text.flatMap escape) = text := by
  induction text with
  | nil => rfl
  | cons byte text ih =>
      rw [List.flatMap_cons, escape]
      split_ifs with isBackslash isQuote isNewline isTab isReturn
      case neg => rw [List.singleton_append, unescape_cons isBackslash, ih]
      all_goals
        subst byte
        exact (unescape_backslash _ _).trans (congrArg _ ih)

/-- An escaped text has no newline. -/
theorem isLine_flatMap_escape (text : Bytes) : Bytes.IsLine (text.flatMap escape) := by
  intro member
  rcases List.mem_flatMap.mp member with ⟨byte, _, inEscape⟩
  rw [escape] at inEscape
  split_ifs at inEscape with isBackslash isQuote isNewline isTab isReturn
  case neg => exact isNewline (List.mem_singleton.mp inEscape).symm
  all_goals
    revert inEscape
    decide

theorem quotedText_eq (text : Bytes) :
    quotedText text = Byte.quote :: (text.flatMap escape ++ [Byte.quote]) := by
  rw [quotedText, Bytes.concat]
  simp only [List.flatten_cons, List.flatten_nil, List.append_nil]
  rfl

theorem quotedText_injective : Function.Injective quotedText := by
  intro text other same
  rw [quotedText_eq, quotedText_eq] at same
  have escaped_eq := List.append_cancel_right (List.cons.inj same).2
  rw [← unescape_flatMap_escape text, escaped_eq, unescape_flatMap_escape]

theorem nameText_eq (interner : Interner) (key : Key) :
    nameText interner key = Byte.quote :: (interner.textOf key ++ [Byte.quote]) := by
  rw [nameText, Bytes.concat]
  simp only [List.flatten_cons, List.flatten_nil, List.append_nil]
  rfl

theorem endsInWord_nameText (interner : Interner) (key : Key) :
    EndsInWord (nameText interner key) := by
  rw [nameText_eq, ← List.cons_append]
  exact .concat _ rfl

theorem nameText_inj {first second : Interner} {key other : Key}
    (same : nameText first key = nameText second other) :
    first.textOf key = second.textOf other := by
  rw [nameText_eq, nameText_eq] at same
  exact List.append_cancel_right (List.cons.inj same).2

end Listing

/-- Literals are alike if their values are the same, or the texts that their keys stand for. -/
inductive Literal.Alike (first second : Interner) : Literal → Literal → Prop where
  | integer (value : UInt64) : Alike first second (.integer value) (.integer value)
  | decimal (value : Binary64) : Alike first second (.decimal value) (.decimal value)
  | string {key other : Key} : first.textOf key = second.textOf other →
      Alike first second (.string key) (.string other)
  | boolean (value : Bool) : Alike first second (.boolean value) (.boolean value)

/-- Whether a literal is a decimal, of which a listing shows six digits only. -/
def Literal.IsDecimal : Literal → Prop
  | .decimal _ => True
  | _ => False

instance : DecidablePred Literal.IsDecimal
  | .decimal _ => .isTrue trivial
  | .integer _ | .string _ | .boolean _ => .isFalse id

namespace Listing

/-- The first letter of the kind of a literal. -/
def initial : Literal → Byte
  | .integer _ => 73
  | .decimal _ => 68
  | .string _ => 83
  | .boolean _ => 66

theorem booleanText_injective : Function.Injective booleanText := by
  have different : booleanText true ≠ booleanText false := by decide
  intro value other same
  cases value <;> cases other
  case false.true => exact absurd same.symm different
  case true.false => exact absurd same different
  all_goals rfl

theorem literalText_initial (interner : Interner) (value : Literal) :
    (literalText interner value)[5]? = some (initial value) := by
  cases value <;> rfl

theorem literalText_of_alike {first second : Interner} {value other : Literal}
    (alike : value.Alike first second other) :
    literalText first value = literalText second other := by
  cases alike with
  | string text_eq => rw [literalText, literalText, text_eq]
  | integer value | decimal value | boolean value => rfl

/-- Literals that are no decimals are listed alike only if they are. -/
theorem literalText_inj {first second : Interner} {value other : Literal}
    (noDecimal : ¬ value.IsDecimal) (otherNoDecimal : ¬ other.IsDecimal)
    (same : literalText first value = literalText second other) :
    value.Alike first second other := by
  have kinds : initial value = initial other := by
    have letters := congrArg (fun text : Bytes => text[5]?) same
    simp only [literalText_initial] at letters
    exact Option.some.inj letters
  cases value with
  | decimal value => exact absurd trivial noDecimal
  | integer value =>
      cases other with
      | integer otherValue =>
          simp only [literalText, Bytes.concat, List.flatten_cons, List.flatten_nil,
            List.append_nil, List.append_cancel_left_eq] at same
          rw [UInt64.toNat_inj.mp (Bytes.ofNat_injective same)]
          exact .integer otherValue
      | _ => cases kinds
  | string key =>
      cases other with
      | string otherKey =>
          simp only [literalText, Bytes.concat, List.flatten_cons, List.flatten_nil,
            List.append_nil, List.append_cancel_left_eq] at same
          exact .string (quotedText_injective same)
      | _ => cases kinds
  | boolean value =>
      cases other with
      | boolean otherValue =>
          simp only [literalText, Bytes.concat, List.flatten_cons, List.flatten_nil,
            List.append_nil, List.append_cancel_left_eq] at same
          cases booleanText_injective same
          exact .boolean value
      | _ => cases kinds

end Listing

end TypedLang
