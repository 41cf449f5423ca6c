import TypedLang.Proofs.Source.Utf8
import TypedLang.Proofs.Token.Misspellings
import TypedLang.Proofs.Token.Reading
import TypedLang.Proofs.Token.Stretches

/-!
# Whole characters

In a text in UTF-8 every item takes whole characters. Lexemes but for strings are in ASCII, a string
ends with a quote, and of a character beyond ASCII the scanner takes all bytes: the lead byte and
the ones that continue it, of which there are at most three. So nothing that a lexer gives cuts a
character, and a character beyond ASCII is either inside a string or one error of its own.
-/

namespace TypedLang

namespace Byte

theorem isBeyondAscii_of_continuesName {byte : Byte} (continues : byte.continuesName) :
    byte.isBeyondAscii = false := by
  simp only [continuesName, isLetter, isDigit, underscore, isBeyondAscii, UInt8.le_iff_toNat_le,
    Bool.or_eq_true, Bool.and_eq_true, beq_iff_eq, decide_eq_true_eq, decide_eq_false_iff_not,
    ← UInt8.toNat_inj, UInt8.reduceToNat] at continues ⊢
  omega

theorem isBeyondAscii_of_isDigit {byte : Byte} (digit : byte.isDigit) :
    byte.isBeyondAscii = false :=
  isBeyondAscii_of_continuesName (by simp [continuesName, digit])

theorem isBeyondAscii_of_isBlank {byte : Byte} (blank : byte.isBlank) :
    byte.isBeyondAscii = false := by
  simp only [isBlank, space, tab, carriageReturn, isBeyondAscii, UInt8.le_iff_toNat_le,
    Bool.or_eq_true, Bool.and_eq_true, beq_iff_eq, decide_eq_true_eq, decide_eq_false_iff_not,
    ← UInt8.toNat_inj, UInt8.reduceToNat] at blank ⊢
  omega

end Byte

theorem Punct.isBeyondAscii_of_mem_spelling (mark : Punct) :
    ∀ byte ∈ Bytes.ofText mark.spelling, byte.isBeyondAscii = false := by
  have ascii : (Bytes.ofText mark.spelling).all fun byte => !byte.isBeyondAscii := by
    cases mark <;> rfl
  intro byte member
  simpa using List.all_eq_true.mp ascii byte member

namespace Lexeme.Spelled

variable {taken : Bytes} {lexeme : Lexeme Bytes}

/-- A lexeme is in ASCII unless it is a string. -/
theorem ascii_or_string (spelled : Spelled taken lexeme) :
    (∀ byte ∈ taken, byte.isBeyondAscii = false) ∨
      ∃ body, lexeme = .string body ∧ taken = Byte.quote :: body ++ [Byte.quote] := by
  have of_word {word : Bytes} (isWord : word.IsWord) : ∀ byte ∈ word, byte.isBeyondAscii = false :=
    fun byte member => Byte.isBeyondAscii_of_continuesName (isWord.2 byte member)
  cases spelled with
  | keyword word => exact .inl (of_word (Bytes.isWord_of_mem_reserved word.mem_reserved))
  | typeName word => exact .inl (of_word (Bytes.isWord_of_mem_reserved word.mem_reserved))
  | boolean value =>
      exact .inl (of_word (Bytes.isWord_of_mem_reserved (Bytes.boolean_mem_reserved value)))
  | identifier isWord _ => exact .inl (of_word isWord)
  | integer isDigits _ =>
      exact .inl fun byte member => Byte.isBeyondAscii_of_isDigit (isDigits.2 byte member)
  | decimal isDigits digits _ =>
      refine .inl fun byte member => ?_
      rcases List.mem_append.mp member with inWhole | behind
      · exact Byte.isBeyondAscii_of_isDigit (isDigits.2 byte inWhole)
      rcases List.mem_cons.mp behind with rfl | inFraction
      · rfl
      · exact Byte.isBeyondAscii_of_isDigit (digits byte inFraction)
  | @string body _ => exact .inr ⟨body, rfl, rfl⟩
  | punct mark => exact .inl mark.isBeyondAscii_of_mem_spelling

/-- The text in a lexeme in ASCII is in ASCII. -/
theorem isUtf8_of_mem_texts (spelled : Spelled taken lexeme)
    (ascii : ∀ byte ∈ taken, byte.isBeyondAscii = false) :
    ∀ text ∈ lexeme.texts, text.IsUtf8 := by
  cases spelled with
  | identifier _ _ =>
      rintro text member
      rw [List.mem_singleton.mp member]
      exact Bytes.isUtf8_of_ascii ascii
  | @string body _ =>
      rintro text member
      rw [List.mem_singleton.mp member]
      exact Bytes.isUtf8_of_ascii fun byte inBody => ascii byte (by simp [inBody])
  | _ =>
      rintro text ⟨⟩

end Lexeme.Spelled

namespace Scan

/-- The texts in a lexeme, or what a misspelling found, are in UTF-8. -/
def IsEncoded : Except Misspelling (Lexeme Bytes) → Prop
  | .ok lexeme => ∀ text ∈ lexeme.texts, text.IsUtf8
  | .error misspelling => misspelling.found.IsUtf8

/-- How an item takes characters. Beyond ASCII they are in a string, or the item is one of them. -/
inductive TakesCharacters : List Char → Except Misspelling (Lexeme Bytes) → Prop where
  | ascii {taken : List Char} {result : Except Misspelling (Lexeme Bytes)}
      (ascii : ∀ byte ∈ Bytes.utf8 taken, byte.isBeyondAscii = false)
      (isEncoded : IsEncoded result) : TakesCharacters taken result
  | string {taken body : List Char}
      (split : Bytes.utf8 taken = Byte.quote :: Bytes.utf8 body ++ [Byte.quote]) :
      TakesCharacters taken (.ok (.string (Bytes.utf8 body)))
  | unterminated {taken : List Char} {misspelling : Misspelling}
      (kind_eq : misspelling.kind = .unterminatedLiteral)
      (found_eq : misspelling.found = Bytes.ofText "end of input") :
      TakesCharacters taken (.error misspelling)
  | unexpected (character : Char) :
      TakesCharacters [character]
        (.error ⟨.unexpectedCharacter, Bytes.utf8 [character], "the start of a token"⟩)

theorem TakesCharacters.isEncoded {taken : List Char}
    {result : Except Misspelling (Lexeme Bytes)} (takes : TakesCharacters taken result) :
    IsEncoded result := by
  cases takes with
  | ascii _ isEncoded => exact isEncoded
  | @string _ body _ =>
      intro text member
      exact ⟨body, List.mem_singleton.mp member⟩
  | unterminated _ found_eq =>
      rw [IsEncoded, found_eq]
      exact Bytes.isUtf8_of_ascii (by decide +kernel)
  | unexpected character => exact ⟨[character], rfl⟩

/-- Behind a lead byte all bytes of its character are taken, and no more. -/
theorem takeWhile_continuesCharacter {more others : Bytes} (few : more.length ≤ 3)
    (continues : ∀ byte ∈ more, byte.continuesCharacter)
    (ends : ∀ next ∈ others.head?, next.continuesCharacter = false) :
    ((more ++ others).take 3).takeWhile Byte.continuesCharacter = more := by
  have pieces : (more ++ others).take 3 = more ++ others.take (3 - more.length) := by
    rw [List.take_append, List.take_of_length_le few]
  have endsSoon : ∀ next ∈ (others.take (3 - more.length)).head?,
      next.continuesCharacter = false := by
    intro next member
    rw [List.head?_take] at member
    split_ifs at member
    · cases member
    · exact ends next member
  rw [pieces]
  exact (Bytes.takeWhile_of_ends continues endsSoon).1

section

variable {characters : List Char} {first : Byte} {rest : Bytes}
  (split : Bytes.utf8 characters = first :: rest)

include split

/-- A byte beyond ASCII where a character starts is taken with all that continues the character. -/
theorem exists_character_of_beyond (beyond : first.isBeyondAscii) :
    ∃ character others, characters = character :: others ∧
      first :: (rest.take 3).takeWhile Byte.continuesCharacter = Bytes.utf8 [character] := by
  rcases characters with _ | ⟨character, others⟩
  · cases split
  have encodes := Bytes.encodes_utf8 character
  rw [Bytes.utf8_cons] at split
  refine ⟨character, others, rfl, ?_⟩
  generalize Bytes.utf8 [character] = code at encodes split
  cases encodes with
  | ascii ascii =>
      rw [List.singleton_append, List.cons.injEq] at split
      rw [split.1, beyond] at ascii
      cases ascii
  | multiple _ few continues =>
      rw [List.cons_append, List.cons.injEq] at split
      rcases split with ⟨rfl, rfl⟩
      rw [takeWhile_continuesCharacter few continues (Bytes.head_utf8 others)]

theorem exists_takesCharacters_of_ok {lexeme : Lexeme Bytes}
    (found : (item first rest).result = .ok lexeme) :
    ∃ taken others, characters = taken ++ others ∧
      (item first rest).length = (Bytes.utf8 taken).length ∧
      TakesCharacters taken (.ok lexeme) := by
  rcases item_finds first rest lexeme found with ⟨bytes, behind, bytes_split, length_eq, munch⟩
  rw [bytes_split] at split
  rcases munch.spelled.forms with ⟨_, forms⟩
  rcases munch.spelled.ascii_or_string with ascii | ⟨body, rfl, rfl⟩
  · rcases Bytes.exists_of_ascii_front forms.ne_nil ascii split with ⟨taken, others, rfl, rfl, _⟩
    exact ⟨taken, others, rfl, length_eq, .ascii ascii (munch.spelled.isUtf8_of_mem_texts ascii)⟩
  · rcases Bytes.exists_of_concat (by rfl) split with ⟨taken, others, rfl, taken_eq, _⟩
    -- Between its quotes a string has whole characters.
    have opening : Bytes.utf8 taken = [] ++ Byte.quote :: (body ++ [Byte.quote]) := taken_eq
    rcases Bytes.exists_of_ascii (by rfl) opening with ⟨_, _, inner, _, _, _, inner_eq⟩
    rcases Bytes.exists_of_ascii (by rfl) inner_eq with ⟨body, _, _, _, rfl, _⟩
    exact ⟨taken, others, rfl, by rw [length_eq, taken_eq], .string taken_eq⟩

theorem exists_takesCharacters_of_error {misspelling : Misspelling}
    (failed : (item first rest).result = .error misspelling) :
    ∃ taken others, characters = taken ++ others ∧
      (item first rest).length = (Bytes.utf8 taken).length ∧
      TakesCharacters taken (.error misspelling) := by
  rcases item_fails first rest misspelling failed with
    ⟨bytes, behind, bytes_split, length_eq, misspells⟩
  rw [bytes_split] at split
  cases misspells with
  | outOfRange nonempty digits =>
      have ascii : ∀ byte ∈ bytes, byte.isBeyondAscii = false := by
        intro byte member
        rcases digits byte member with digit | rfl
        · exact Byte.isBeyondAscii_of_isDigit digit
        · rfl
      rcases Bytes.exists_of_ascii_front nonempty ascii split with ⟨taken, others, rfl, rfl, _⟩
      exact ⟨taken, others, rfl, length_eq, .ascii ascii ⟨taken, rfl⟩⟩
  | unterminated body =>
      rw [List.append_nil] at split
      exact ⟨characters, [], (List.append_nil _).symm, by rw [length_eq, split],
        .unterminated rfl rfl⟩
  | @unexpected lead more _ more_eq =>
      by_cases beyond : lead.isBeyondAscii
      · rw [List.cons_append] at split
        rcases exists_character_of_beyond split beyond with ⟨character, others, rfl, taken_eq⟩
        rw [if_pos beyond] at more_eq
        rw [← more_eq] at taken_eq
        rw [taken_eq] at length_eq ⊢
        exact ⟨[character], others, rfl, length_eq, .unexpected character⟩
      · rw [if_neg beyond] at more_eq
        subst more_eq
        have ascii : ∀ byte ∈ [lead], byte.isBeyondAscii = false :=
          List.forall_mem_singleton.mpr (Bool.eq_false_iff.mpr beyond)
        rcases Bytes.exists_of_ascii_front (List.cons_ne_nil _ _) ascii split with
          ⟨taken, others, rfl, taken_eq, _⟩
        rw [← taken_eq] at ascii length_eq ⊢
        exact ⟨taken, others, rfl, length_eq, .ascii ascii ⟨taken, rfl⟩⟩

/-- In a text in UTF-8 an item takes whole characters. -/
theorem exists_takesCharacters :
    ∃ taken others, characters = taken ++ others ∧
      (item first rest).length = (Bytes.utf8 taken).length ∧
      TakesCharacters taken (item first rest).result := by
  rcases found : (item first rest).result with misspelling | lexeme
  · exact exists_takesCharacters_of_error split found
  · exact exists_takesCharacters_of_ok split found

end

end Scan

namespace Item

/-- The items of characters that start at an offset: each one takes whole characters. -/
inductive Covers : Nat → List Char → List Item → Prop where
  | done {offset : Nat} : Covers offset [] []
  | blank {offset : Nat} {character : Char} {rest : List Char} {items : List Item}
      (ascii : character.toNat < 128)
      (others : Covers (offset + (Bytes.utf8 [character]).length) rest items) :
      Covers offset (character :: rest) items
  | item {offset : Nat} {taken rest : List Char} {result : Except Misspelling (Lexeme Bytes)}
      {items : List Item} (takes : Scan.TakesCharacters taken result)
      (others : Covers (offset + (Bytes.utf8 taken).length) rest items) :
      Covers offset (taken ++ rest) (⟨.ofLength offset (Bytes.utf8 taken).length, result⟩ :: items)

/-- Where no blank stands, the first item takes characters, and the others are those behind. -/
theorem exists_listFrom_eq {characters : List Char} {first : Byte} {rest : Bytes}
    (split : Bytes.utf8 characters = first :: rest) (solid : first.isBlank = false) (offset : Nat) :
    ∃ taken others result, characters = taken ++ others ∧ taken ≠ [] ∧
      Scan.TakesCharacters taken result ∧ listFrom offset 0 (Bytes.utf8 characters) =
        ⟨.ofLength offset (Bytes.utf8 taken).length, result⟩ ::
          listFrom (offset + (Bytes.utf8 taken).length) 0 (Bytes.utf8 others) := by
  rcases Scan.exists_takesCharacters split with ⟨taken, others, rfl, length_eq, takes⟩
  have positive := Scan.length_item_pos first rest
  rw [length_eq] at positive
  refine ⟨taken, others, _, rfl, ?_, takes, ?_⟩
  · rintro rfl
    exact Nat.lt_irrefl 0 positive
  · rw [Bytes.utf8_append] at split ⊢
    rcases List.exists_cons_of_length_pos positive with ⟨lead, tail, taken_eq⟩
    rw [taken_eq, List.cons_append, List.cons.injEq] at split
    rcases split with ⟨rfl, rfl⟩
    rw [taken_eq, List.length_cons] at length_eq ⊢
    refine listFrom_of_item solid ?_ offset
    rw [← length_eq]

theorem covers_listFrom (offset : Nat) (characters : List Char) :
    Covers offset characters (listFrom offset 0 (Bytes.utf8 characters)) := by
  match characters with
  | [] => exact .done
  | character :: others =>
      have ne_nil := (Bytes.encodes_utf8 character).ne_nil
      rcases List.exists_cons_of_ne_nil ne_nil with ⟨first, more, code_eq⟩
      have split : Bytes.utf8 (character :: others) = first :: (more ++ Bytes.utf8 others) := by
        rw [Bytes.utf8_cons, code_eq, List.cons_append]
      by_cases isBlank : first.isBlank
      · have ascii := Byte.isBeyondAscii_of_isBlank isBlank
        have member : first ∈ Bytes.utf8 [character] := by simp [code_eq]
        have single := (Bytes.encodes_utf8 character).eq_singleton member ascii
        rw [Bytes.utf8_cons, single, List.singleton_append, listFrom_of_isBlank isBlank]
        refine .blank (Bytes.lt_of_mem_utf8 member ascii) ?_
        rw [single]
        exact covers_listFrom (offset + 1) others
      · rcases exists_listFrom_eq split (Bool.eq_false_iff.mpr isBlank) offset with
          ⟨taken, behind, result, characters_eq, nonempty, takes, list_eq⟩
        have shorter : behind.length < others.length + 1 := by
          have positive := List.length_pos_iff.mpr nonempty
          rw [← List.length_cons (a := character), characters_eq, List.length_append]
          omega
        rw [list_eq, characters_eq]
        exact .item takes (covers_listFrom (offset + (Bytes.utf8 taken).length) behind)
termination_by characters.length

section

variable {offset : Nat} {characters : List Char} {items : List Item}

theorem Covers.exists_of_mem (covers : Covers offset characters items) {item : Item}
    (member : item ∈ items) : ∃ front taken back, characters = front ++ taken ++ back ∧
      item.span = .ofLength (offset + (Bytes.utf8 front).length) (Bytes.utf8 taken).length ∧
      Scan.TakesCharacters taken item.result := by
  induction covers with
  | done => cases member
  | @blank offset character rest items _ _ ih =>
      rcases ih member with ⟨front, taken, back, rfl, span_eq, takes⟩
      refine ⟨character :: front, taken, back, rfl, ?_, takes⟩
      rw [span_eq, Bytes.utf8_cons character front, List.length_append, Nat.add_assoc]
  | @item offset first rest result items takes _ ih =>
      rcases List.mem_cons.mp member with rfl | member
      · exact ⟨[], first, rest, rfl, rfl, takes⟩
      · rcases ih member with ⟨front, taken, back, rfl, span_eq, takes⟩
        refine ⟨first ++ front, taken, back, by simp, ?_, takes⟩
        rw [span_eq, Bytes.utf8_append, List.length_append, Nat.add_assoc]

/-- A character beyond ASCII is an item of its own, or it is inside a string. -/
theorem Covers.of_character (covers : Covers offset characters items) {front back : List Char}
    {character : Char} (characters_eq : characters = front ++ character :: back)
    (beyond : 128 ≤ character.toNat) :
    (∃ item ∈ items, item.span.Holds (offset + (Bytes.utf8 front).length) ∧
      ((∃ body, item.result = .ok (.string body)) ∨ Scan.IsUnterminated item.result)) ∨
    ⟨.ofLength (offset + (Bytes.utf8 front).length) (Bytes.utf8 [character]).length,
      .error ⟨.unexpectedCharacter, Bytes.utf8 [character], "the start of a token"⟩⟩ ∈ items := by
  induction covers generalizing front with
  | done => simp at characters_eq
  | @blank offset first rest items ascii _ ih =>
      rcases front with _ | ⟨other, front⟩
      · cases characters_eq
        exact absurd ascii (Nat.not_lt.mpr beyond)
      · cases characters_eq
        rw [Bytes.utf8_cons first front, List.length_append, ← Nat.add_assoc]
        exact ih rfl
  | @item offset taken rest result items takes _ ih =>
      rcases Bytes.append_eq_append_cons characters_eq with
        ⟨middle, rfl, rest_eq⟩ | ⟨middle, taken_eq, _⟩
      · rw [Bytes.utf8_append, List.length_append, ← Nat.add_assoc]
        refine (ih rest_eq).imp ?_ (List.mem_cons_of_mem _)
        rintro ⟨item, member, inString⟩
        exact ⟨item, List.mem_cons_of_mem _ member, inString⟩
      have holds : Span.Holds (.ofLength offset (Bytes.utf8 taken).length)
          (offset + (Bytes.utf8 front).length) := by
        have positive := List.length_pos_iff.mpr (Bytes.encodes_utf8 character).ne_nil
        rw [taken_eq, Bytes.utf8_append, Bytes.utf8_cons character middle]
        simp only [Span.Holds, Span.ofLength, List.length_append]
        omega
      cases takes with
      | ascii ascii _ =>
          rcases List.exists_mem_of_ne_nil _ (Bytes.encodes_utf8 character).ne_nil with
            ⟨byte, member⟩
          have inTaken : byte ∈ Bytes.utf8 taken := by
            rw [taken_eq, Bytes.utf8_append, Bytes.utf8_cons character middle]
            exact List.mem_append_right _ (List.mem_append_left _ member)
          exact absurd (Bytes.lt_of_mem_utf8 member (ascii byte inTaken)) (Nat.not_lt.mpr beyond)
      | @string _ body _ => exact .inl ⟨_, List.mem_cons_self, holds, .inl ⟨_, rfl⟩⟩
      | unterminated kind_eq _ =>
          exact .inl ⟨_, List.mem_cons_self, holds, .inr ⟨_, rfl, kind_eq⟩⟩
      | unexpected other =>
          rcases List.append_eq_cons_iff.mp taken_eq.symm with ⟨rfl, same⟩ | ⟨_, _, same⟩
          · cases same
            exact .inr List.mem_cons_self
          · simp at same

end

section

variable {text : Bytes} (isUtf8 : text.IsUtf8) {item : Item} (member : item ∈ list text)

include isUtf8 member

theorem isBoundary_of_mem : text.IsBoundary item.span.start ∧ text.IsBoundary item.span.stop := by
  rcases isUtf8 with ⟨characters, rfl⟩
  rcases (covers_listFrom 0 characters).exists_of_mem member with
    ⟨front, taken, back, rfl, span_eq, _⟩
  rw [span_eq, Nat.zero_add]
  refine ⟨⟨front, taken ++ back, by rw [List.append_assoc], rfl⟩, front ++ taken, back, rfl, ?_⟩
  rw [Bytes.utf8_append, List.length_append]
  rfl

theorem isEncoded_of_mem : Scan.IsEncoded item.result := by
  rcases isUtf8 with ⟨characters, rfl⟩
  rcases (covers_listFrom 0 characters).exists_of_mem member with ⟨_, _, _, _, _, takes⟩
  exact takes.isEncoded

end

end Item

namespace Lexer

/--
A lexer does not cut the characters of a text in UTF-8. All tokens and errors start and stop between
characters, and what names, strings and errors hold is in UTF-8 again. A character beyond ASCII that
is in no string, be it closed or not, is one error about this character and nothing else.
-/
theorem tokenize_utf8 (source : SourceId) {text : Bytes} (isUtf8 : text.IsUtf8)
    (interner : Interner) :
    let scanned := (ofText source text interner).tokenize
    (∀ span ∈ scanned.1.map Token.span ++ scanned.2.errors.map LexicalError.span,
      text.IsBoundary span.start ∧ text.IsBoundary span.stop) ∧
    (∀ front character back, text = Bytes.utf8 (front ++ character :: back) →
      128 ≤ character.toNat →
      (∀ token ∈ scanned.1, token.kind = .string →
        ¬ token.span.Holds (Bytes.utf8 front).length) →
      (∀ error ∈ scanned.2.errors, error.kind = .unterminatedLiteral →
        ¬ error.span.Holds (Bytes.utf8 front).length) →
      let span := Span.ofLength (Bytes.utf8 front).length (Bytes.utf8 [character]).length
      Makes scanned span []
        [⟨.unexpectedCharacter, source, span, Bytes.utf8 [character], "the start of a token"⟩]) ∧
    (∀ token ∈ scanned.1, ∃ lexeme, token.lexeme.resolve scanned.2.interner = .ok lexeme ∧
      ∀ word ∈ lexeme.texts, word.IsUtf8) ∧
    ∀ error ∈ scanned.2.errors, error.found.IsUtf8 := by
  intro scanned
  have sorted := sortedInto_tokensOf (ofText source text interner) rfl (Item.list text)
  refine ⟨?boundaries, ?characters, ?texts, ?found⟩
  case boundaries =>
    intro span member
    rcases sorted.exists_of_mem_spans member with ⟨item, itemMem, rfl⟩
    exact Item.isBoundary_of_mem isUtf8 itemMem
  case characters =>
    rintro front character back rfl beyond noString noUnterminated span
    have covers := Item.covers_listFrom 0 (front ++ character :: back)
    rcases covers.of_character rfl beyond with
      ⟨⟨place, _⟩, itemMem, holds, ⟨body, rfl⟩ | ⟨misspelling, rfl, kind_eq⟩⟩ | member
    · have makes := makes_token source interner itemMem
      rw [Nat.zero_add] at holds
      exact absurd holds (noString _ (makes.mem_tokens List.mem_cons_self) rfl)
    · have makes := makes_error source interner itemMem
      rw [Nat.zero_add] at holds
      exact absurd holds (noUnterminated _ (makes.mem_errors List.mem_cons_self) kind_eq)
    · rw [Nat.zero_add] at member
      exact makes_error source interner member
  case texts =>
    intro token member
    rcases exists_of_mem_tokensOf _ _ token member with
      ⟨item, itemMem, lexeme, result_eq, _, resolved⟩
    have texts := Item.isEncoded_of_mem isUtf8 itemMem
    rw [result_eq] at texts
    exact ⟨lexeme, resolved, texts⟩
  case found =>
    intro error member
    rcases sorted.exists_of_mem_errors member with ⟨item, itemMem, misspelling, result_eq, rfl⟩
    have found := Item.isEncoded_of_mem isUtf8 itemMem
    rw [result_eq] at found
    exact found

/-- A character of two bytes right behind a name, and one of four bytes inside a string. -/
theorem tokenize_utf8_accent :
    let text : Bytes := Bytes.utf8 "xé\"😀\"".toList
    let scanned := (ofText 0 text .empty).tokenize
    text.IsUtf8 ∧
      Makes scanned (.ofLength 1 2) []
        [⟨.unexpectedCharacter, 0, .ofLength 1 2, Bytes.utf8 ['é'], "the start of a token"⟩] := by
  intro text scanned
  have isUtf8 : text.IsUtf8 := ⟨_, rfl⟩
  have outside : (∀ token ∈ scanned.1, token.kind = .string → ¬ token.span.Holds 1) ∧
      ∀ error ∈ scanned.2.errors, error.kind = .unterminatedLiteral → ¬ error.span.Holds 1 := by
    decide +kernel
  rcases tokenize_utf8 0 isUtf8 .empty with ⟨_, characters, _⟩
  exact ⟨isUtf8, characters "x".toList 'é' "\"😀\"".toList rfl (by decide) outside.1 outside.2⟩

end Lexer

end TypedLang
