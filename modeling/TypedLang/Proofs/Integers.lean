import TypedLang.Proofs.Compilation
import TypedLang.Proofs.Outcome
import TypedLang.Proofs.Token.Spacing
import TypedLang.Proofs.Token.Stretches

/-!
# Integer literals from digits to types

The number that some digits stand for goes through a run unchanged: the lexer refuses it when it
does not fit into 64 bits, and the checker gives it the narrowest unsigned type that holds it. So a
variable of an integer type may be declared with a number just in case that narrowest type can be
assigned to it, and then the number is a value of the type.
-/

namespace TypedLang

/-- The narrowest width at which an unsigned type holds a number. -/
structure IntegerWidth.IsLeast (width : IntegerWidth) (number : Nat) : Prop where
  fits : number < 2 ^ width.bits
  least : ∀ other : IntegerWidth, number < 2 ^ other.bits → width.bits ≤ other.bits

/-- The whole numbers among the values of a type. -/
def Ty.Holds : Ty → Int → Prop
  | integer .unsigned width, number => 0 ≤ number ∧ number < 2 ^ width.bits
  | integer .signed width, number =>
      -(2 ^ (width.bits - 1)) ≤ number ∧ number < 2 ^ (width.bits - 1)
  | decimal _, _ => False
  | boolean, _ => False

/-- The narrowest width for some numbers is as wide as a type of a given sign has to be. -/
def Signedness.Admits (signedness : Signedness) (origin target : IntegerWidth) : Prop :=
  match signedness with
  | .unsigned => origin.bits ≤ target.bits
  | .signed => origin.bits < target.bits

theorem IntegerWidth.IsLeast.unique {width other : IntegerWidth} {number : Nat}
    (isLeast : width.IsLeast number) (otherIsLeast : other.IsLeast number) : width = other := by
  have bits_eq : width.bits = other.bits :=
    Nat.le_antisymm (isLeast.least other otherIsLeast.fits)
      (otherIsLeast.least width isLeast.fits)
  revert bits_eq
  cases width <;> cases other <;> decide

/-- An integer literal has the narrowest unsigned type that holds its value. -/
theorem Ty.exists_ofInteger_eq (value : UInt64) :
    ∃ width : IntegerWidth, ofInteger value = integer .unsigned width ∧
      width.IsLeast value.toNat := by
  have bound := value.toNat_lt
  rw [ofInteger]
  by_cases in8 : value.toNat < powerOfTwo 8
  · refine ⟨.bits8, if_pos in8, in8, fun other _ => ?_⟩
    cases other <;> decide
  by_cases in16 : value.toNat < powerOfTwo 16
  · refine ⟨.bits16, by rw [if_neg in8, if_pos in16], in16, fun other fits => ?_⟩
    rw [powerOfTwo_eq] at in8
    cases other <;> simp only [IntegerWidth.bits] at fits ⊢ <;> omega
  by_cases in32 : value.toNat < powerOfTwo 32
  · refine ⟨.bits32, by rw [if_neg in8, if_neg in16, if_pos in32], in32, fun other fits => ?_⟩
    rw [powerOfTwo_eq] at in16
    cases other <;> simp only [IntegerWidth.bits] at fits ⊢ <;> omega
  · refine ⟨.bits64, by rw [if_neg in8, if_neg in16, if_neg in32], bound, fun other fits => ?_⟩
    rw [powerOfTwo_eq] at in32
    cases other <;> simp only [IntegerWidth.bits] at fits ⊢ <;> omega

theorem Ty.isAssignable_integer_iff {signedness : Signedness} {origin target : IntegerWidth} :
    (integer .unsigned origin).isAssignable (integer signedness target) ↔
      signedness.Admits origin target := by
  cases signedness <;> simp [isAssignable, Signedness.Admits]

/-- What may be assigned to a type is among its values. -/
theorem Signedness.Admits.holds {signedness : Signedness} {origin target : IntegerWidth}
    (admits : signedness.Admits origin target) {number : Nat} (fits : number < 2 ^ origin.bits) :
    (Ty.integer signedness target).Holds number := by
  cases signedness with
  | unsigned =>
      have wider : 2 ^ origin.bits ≤ 2 ^ target.bits := Nat.pow_le_pow_right Nat.two_pos admits
      refine ⟨Int.natCast_nonneg number, ?_⟩
      exact_mod_cast Nat.lt_of_lt_of_le fits wider
  | signed =>
      have wider : 2 ^ origin.bits ≤ 2 ^ (target.bits - 1) :=
        Nat.pow_le_pow_right Nat.two_pos (Nat.le_sub_one_of_lt admits)
      constructor
      · have positive : (0 : Int) ≤ 2 ^ (target.bits - 1) :=
          by exact_mod_cast Nat.zero_le (2 ^ (target.bits - 1))
        exact Int.le_trans (Int.neg_nonpos_of_nonneg positive) (Int.natCast_nonneg number)
      · exact_mod_cast Nat.lt_of_lt_of_le fits wider

/-- A type of an integer literal suits an integer type just in case its least width does. -/
theorem Ty.exists_assignable_iff {number : Nat} {signedness : Signedness} {target : IntegerWidth} :
    (∃ value : UInt64, value.toNat = number ∧
        (ofInteger value).isAssignable (integer signedness target)) ↔
      number < 2 ^ 64 ∧ ∃ width : IntegerWidth, width.IsLeast number ∧
        signedness.Admits width target := by
  constructor
  · rintro ⟨value, rfl, suits⟩
    rcases exists_ofInteger_eq value with ⟨width, type_eq, isLeast⟩
    rw [type_eq, isAssignable_integer_iff] at suits
    exact ⟨value.toNat_lt, width, isLeast, suits⟩
  · rintro ⟨fits, width, isLeast, admits⟩
    refine ⟨.ofNat number, UInt64.toNat_ofNat_of_lt' fits, ?_⟩
    rcases exists_ofInteger_eq (.ofNat number) with ⟨other, type_eq, otherIsLeast⟩
    rw [UInt64.toNat_ofNat_of_lt' fits] at otherIsLeast
    rw [type_eq, isAssignable_integer_iff, otherIsLeast.unique isLeast]
    exact admits

theorem Scan.integer_of_lt {digits : Bytes} (fits : digits.inBaseTen < 2 ^ 64) :
    ∃ value : UInt64, value.toNat = digits.inBaseTen ∧ integer digits = .ok (.integer value) := by
  refine ⟨.ofNat digits.inBaseTen, UInt64.toNat_ofNat_of_lt' fits, ?_⟩
  rw [integer, powerOfTwo_eq, Bytes.toNumber_eq_inBaseTen, if_pos fits]

theorem Scan.integer_of_le {digits : Bytes} (exceeds : 2 ^ 64 ≤ digits.inBaseTen) :
    integer digits = .error ⟨.outOfRange, digits, "an integer that fits into 64 bits"⟩ := by
  rw [integer, powerOfTwo_eq, Bytes.toNumber_eq_inBaseTen, if_neg (Nat.not_lt.mpr exceeds)]

/--
A lexer reads digits exactly: a number that fits into 64 bits becomes one token with this value,
which the checker gives the narrowest unsigned type, and any other number becomes one error.
-/
structure Lexer.ReadsInteger (scanned : List Token × Lexer) (source : SourceId) (span : Span)
    (digits : Bytes) : Prop where
  exact : digits.inBaseTen < 2 ^ 64 → ∃ value : UInt64, value.toNat = digits.inBaseTen ∧
    Makes scanned span [⟨.integer value, span⟩] [] ∧
    ∃ width : IntegerWidth, width.IsLeast digits.inBaseTen ∧
      ∀ arena known, (Expr.literal (.integer value) span known).check source arena =
        (.literal (.integer value) span (some (.integer .unsigned width)),
          .ok (.integer .unsigned width))
  outOfRange : 2 ^ 64 ≤ digits.inBaseTen → Makes scanned span []
    [⟨.outOfRange, source, span, digits, "an integer that fits into 64 bits"⟩]

theorem Lexer.readsInteger (source : SourceId) (interner : Interner)
    {before digits others : Bytes} (isDigits : digits.IsDigits)
    (ends : ∀ next ∈ others.head?, next.isDigit = false ∧ next ≠ Byte.dot)
    (starts : Item.StartsAt (before ++ (digits ++ others)) before.length) :
    ReadsInteger (ofText source (before ++ (digits ++ others)) interner).tokenize source
      (.ofLength before.length digits.length) digits := by
  have member : ⟨.ofLength before.length digits.length, Scan.integer digits⟩ ∈
      Item.list (before ++ (digits ++ others)) := by
    rcases List.exists_cons_of_ne_nil isDigits.1 with ⟨first, rest, rfl⟩
    have found := starts.mem_list
    rw [Scan.item_of_digits isDigits ends rfl] at found
    exact found
  constructor
  case exact =>
    intro fits
    rcases Scan.integer_of_lt fits with ⟨value, value_eq, read⟩
    rcases Ty.exists_ofInteger_eq value with ⟨width, type_eq, isLeast⟩
    rw [read] at member
    refine ⟨value, value_eq, makes_token source interner member, width, value_eq ▸ isLeast, ?_⟩
    intro arena known
    rw [← type_eq]
    rfl
  case outOfRange =>
    intro exceeds
    rw [Scan.integer_of_le exceeds] at member
    exact makes_error source interner member

/-- The text of a variable declaration: a name, a type and digits. -/
def Bytes.letText (name : Bytes) (type : TypeName) (digits : Bytes) : Bytes :=
  concat ["let ", name, " @", ofText type.spelling, " = ", digits, ";"]

/-- A lexeme in front of a space is an item, and the next one is looked for behind the space. -/
theorem Item.listFrom_of_spelled {taken : Bytes} {lexeme : Lexeme Bytes}
    (spelled : Lexeme.Spelled taken lexeme) (offset : Nat) (others : Bytes) :
    listFrom offset 0 (taken ++ Byte.space :: others) =
      ⟨.ofLength offset taken.length, .ok lexeme⟩ ::
        listFrom (offset + taken.length + 1) 0 others := by
  have blank : ∀ next ∈ (Byte.space :: others).head?, next.isBlank := by
    rintro next ⟨⟩
    rfl
  rw [listFrom_of_munch ⟨spelled, .of_isBlank blank lexeme⟩, listFrom_of_isBlank rfl]

theorem Item.exists_list_letText {name digits : Bytes} (isName : name.IsName) (type : TypeName)
    (isDigits : digits.IsDigits) : ∃ keyword nameSpan sign typeSpan equal number semicolon : Span,
      list (Bytes.letText name type digits) =
        [⟨keyword, .ok (.keyword .letWord)⟩, ⟨nameSpan, .ok (.identifier name)⟩,
          ⟨sign, .ok (.punct .atSign)⟩, ⟨typeSpan, .ok (.typeName type)⟩,
          ⟨equal, .ok (.punct .equal)⟩, ⟨number, Scan.integer digits⟩,
          ⟨semicolon, .ok (.punct .semicolon)⟩] := by
  let behind : Bytes := Bytes.ofText Punct.semicolon.spelling ++ []
  have text_eq : Bytes.letText name type digits =
      Bytes.ofText Keyword.letWord.spelling ++ Byte.space :: (name ++ Byte.space ::
        (Bytes.ofText Punct.atSign.spelling ++ (Bytes.ofText type.spelling ++ Byte.space ::
          (Bytes.ofText Punct.equal.spelling ++ Byte.space :: (digits ++ behind))))) := rfl
  have sign_ends : ∀ others, Lexeme.Ends (.punct .atSign) others := by
    rintro others next _ ⟨⟩
  have digits_end : ∀ next ∈ behind.head?, next.isDigit = false ∧ next ≠ Byte.dot := by
    rintro next ⟨⟩
    decide
  rcases List.exists_cons_of_ne_nil isDigits.1 with ⟨first, rest, rfl⟩
  have solid : first.isBlank = false :=
    Byte.isBlank_of_isDigit (isDigits.2 first List.mem_cons_self)
  rw [list, text_eq, listFrom_of_spelled (.keyword .letWord),
    listFrom_of_spelled (.identifier isName.isWord isName.free),
    listFrom_of_munch ⟨.punct .atSign, sign_ends _⟩, listFrom_of_spelled (.typeName type),
    listFrom_of_spelled (.punct .equal),
    listFrom_of_item solid (Scan.item_of_digits isDigits digits_end rfl),
    listFrom_of_munch ⟨.punct .semicolon, .nil _⟩]
  exact ⟨_, _, _, _, _, _, _, rfl⟩

/-- All that can be wrong with such a declaration is that the type of the literal does not suit. -/
theorem Outcome.mistakes_let (source : SourceId) (key : Key) (type : TypeName) (value : UInt64)
    (keyword name sign typeSpan equal number semicolon : Span) :
    (ofTokens source [⟨.keyword .letWord, keyword⟩, ⟨.identifier key, name⟩,
      ⟨.punct .atSign, sign⟩, ⟨.typeName type, typeSpan⟩, ⟨.punct .equal, equal⟩,
      ⟨.integer value, number⟩, ⟨.punct .semicolon, semicolon⟩]).mistakes =
      if (Ty.ofInteger value).isAssignable type.type then []
      else [.typeChecking (WrittenType.mismatch source ⟨type.type, sign.combine typeSpan⟩ number
        (Ty.ofInteger value))] := by
  let mismatch := WrittenType.mismatch source ⟨type.type, sign.combine typeSpan⟩ number
    (Ty.ofInteger value)
  -- The parser and the resolver find nothing, and the checker finds the errors of one declaration.
  change (((if (Ty.ofInteger value).isAssignable type.type then [] else [mismatch]) ++ []).map
    Mistake.typeChecking) = _
  rw [List.append_nil]
  split <;> rfl

theorem Outcome.mistakes_letText (source : SourceId) {name digits : Bytes} (isName : name.IsName)
    (type : TypeName) (isDigits : digits.IsDigits) :
    (ofText source (Bytes.letText name type digits) .empty).mistakes = [] ↔
      ∃ value : UInt64, value.toNat = digits.inBaseTen ∧
        (Ty.ofInteger value).isAssignable type.type := by
  rcases Item.exists_list_letText isName type isDigits with
    ⟨keyword, nameSpan, sign, typeSpan, equal, number, semicolon, list_eq⟩
  rcases Nat.lt_or_ge digits.inBaseTen (2 ^ 64) with fits | exceeds
  · rcases Scan.integer_of_lt fits with ⟨value, value_eq, read⟩
    have scanned : (Lexer.ofText source (Bytes.letText name type digits) .empty).tokenize =
        ([⟨.keyword .letWord, keyword⟩, ⟨.identifier 0, nameSpan⟩, ⟨.punct .atSign, sign⟩,
          ⟨.typeName type, typeSpan⟩, ⟨.punct .equal, equal⟩, ⟨.integer value, number⟩,
          ⟨.punct .semicolon, semicolon⟩], ⟨source, [], ⟨[name]⟩, []⟩) := by
      rw [Lexer.tokenize, Lexer.ofText, list_eq, read]
      rfl
    have clean_iff : (ofText source (Bytes.letText name type digits) .empty).mistakes = [] ↔
        (Ty.ofInteger value).isAssignable type.type := by
      rw [ofText, scanned, if_neg (by simp), mistakes_let]
      split
      · rename_i suits
        exact iff_of_true rfl suits
      · rename_i refused
        exact iff_of_false (List.cons_ne_nil _ _) refused
    rw [clean_iff]
    constructor
    · exact fun suits => ⟨value, value_eq, suits⟩
    · rintro ⟨other, other_eq, suits⟩
      obtain rfl : other = value := UInt64.toNat_inj.mp (other_eq.trans value_eq.symm)
      exact suits
  · have errors_eq : (Lexer.ofText source (Bytes.letText name type digits) .empty).tokenize.2.errors =
        [⟨.outOfRange, source, number, digits, "an integer that fits into 64 bits"⟩] := by
      rw [Lexer.tokenize, Lexer.ofText, list_eq, Scan.integer_of_le exceeds]
      rfl
    rw [ofText, errors_eq, if_pos (by rfl)]
    constructor
    · rintro ⟨⟩
    · rintro ⟨value, value_eq, _⟩
      exact absurd value.toNat_lt (Nat.not_lt.mpr (value_eq ▸ exceeds))

/--
Integer literals are exact. Digits that the lexer starts to read as a number become one token with
their value, typed by the narrowest unsigned type that holds it, or one error about all of them. So
a declaration with such a literal passes all stages just in case the value fits into 64 bits and the
type is as wide as this value needs for its sign, and then the value is one of the type.
-/
theorem integer_literals_exact {digits : Bytes} (isDigits : digits.IsDigits) :
    (∀ (source : SourceId) (interner : Interner) (before others : Bytes),
      (∀ next ∈ others.head?, next.isDigit = false ∧ next ≠ Byte.dot) →
      Item.StartsAt (before ++ (digits ++ others)) before.length →
      Lexer.ReadsInteger (Lexer.ofText source (before ++ (digits ++ others)) interner).tokenize
        source (.ofLength before.length digits.length) digits) ∧
    ∀ (name label : Bytes) (type : TypeName) (signedness : Signedness) (target : IntegerWidth),
      name.IsName → type.type = .integer signedness target →
      ∃ compilation, compileText (Bytes.letText name type digits) label = .ok compilation ∧
        (compilation.output.success ↔ digits.inBaseTen < 2 ^ 64 ∧
          ∃ width : IntegerWidth, width.IsLeast digits.inBaseTen ∧
            signedness.Admits width target) ∧
        (compilation.output.success → type.type.Holds digits.inBaseTen) := by
  constructor
  · intro source interner before others ends starts
    exact Lexer.readsInteger source interner isDigits ends starts
  · intro name label type signedness target isName type_eq
    rcases exists_endsRun_compileText (Bytes.letText name type digits) label with
      ⟨compilation, compiled, ends⟩
    have success_iff : compilation.output.success ↔ digits.inBaseTen < 2 ^ 64 ∧
        ∃ width : IntegerWidth, width.IsLeast digits.inBaseTen ∧
          signedness.Admits width target := by
      rw [Output.success, Option.isNone_iff_eq_none, ends.tells.1.failedStage_eq,
        Outcome.failedStage, Option.map_eq_none_iff, List.head?_eq_none_iff,
        Outcome.mistakes_letText _ isName type isDigits, type_eq]
      exact Ty.exists_assignable_iff
    refine ⟨compilation, compiled, success_iff, fun success => ?_⟩
    rcases success_iff.mp success with ⟨_, width, isLeast, admits⟩
    rw [type_eq]
    exact admits.holds isLeast.fits

/-- The largest number of 64 bits, with a leading zero, is read and fits the widest type. -/
theorem integer_literals_exact_largest :
    let digits : Bytes := "018446744073709551615"
    let text : Bytes := "let x @u64 = 018446744073709551615;"
    digits.IsDigits ∧ Item.StartsAt text 13 ∧
      Lexer.ReadsInteger (Lexer.ofText 0 text .empty).tokenize 0 (.ofLength 13 21) digits ∧
      ∃ compilation, compileText text = .ok compilation ∧ compilation.output.success := by
  intro digits text
  have isDigits : digits.IsDigits := ⟨by decide, by decide +kernel⟩
  have isName : Bytes.IsName "x" := ⟨⟨⟨120, by decide, by decide⟩, by decide +kernel⟩, by decide⟩
  have starts : Item.StartsAt text 13 := by decide +kernel
  have isLeast : IntegerWidth.IsLeast .bits64 digits.inBaseTen := by
    refine ⟨by decide, fun other => ?_⟩
    cases other <;> decide
  rcases integer_literals_exact isDigits with ⟨reads, compiles⟩
  refine ⟨isDigits, starts, ?_, ?_⟩
  · exact reads 0 .empty "let x @u64 = " ";" (by decide +kernel) starts
  · rcases compiles "x" defaultName .u64 .unsigned .bits64 isName rfl with
      ⟨compilation, compiled, success_iff, _⟩
    exact ⟨compilation, compiled, success_iff.mpr ⟨by decide, .bits64, isLeast, Nat.le_refl 64⟩⟩

end TypedLang
