import Mathlib.Data.List.Basic
import TypedLang.Proofs.Token.Lexemes
import TypedLang.Token.Scan

/-!
# Scanning by the lexical grammar

Each scanning rule stops exactly where the lexeme at its place ends. So the scanner finds a lexeme
wherever there is one that nothing behind it continues, and it finds no other. A stretch of bytes
therefore spells one lexeme at most.
-/

namespace TypedLang

/-- Bytes that spell a lexeme in front of others that do not continue it. -/
structure Lexeme.Munch (taken others : Bytes) (lexeme : Lexeme Bytes) : Prop where
  spelled : Spelled taken lexeme
  ends : lexeme.Ends others

/-- A name that nothing behind it goes on with is read as an identifier. -/
theorem Bytes.IsName.munch {word others : Bytes} (isName : word.IsName)
    (ends : ∀ next ∈ others.head?, next.continuesName = false) :
    Lexeme.Munch word others (.identifier word) :=
  ⟨.identifier isName.isWord isName.free, ends⟩

namespace Bytes

variable {accepts : Byte → Bool} {taken others : Bytes}

/-- A run of bytes of a class that the next byte ends. -/
theorem takeWhile_of_ends (accepted : ∀ byte ∈ taken, accepts byte)
    (ends : ∀ next ∈ others.head?, accepts next = false) :
    (taken ++ others).takeWhile accepts = taken ∧ (taken ++ others).dropWhile accepts = others := by
  rw [List.takeWhile_append_of_pos accepted, List.dropWhile_append_of_pos accepted]
  cases others with
  | nil => simp
  | cons next others => simp [ends next rfl]

theorem head_dropWhile (accepts : Byte → Bool) (text : Bytes) :
    ∀ next ∈ (text.dropWhile accepts).head?, accepts next = false := by
  intro next member
  have refused := List.head?_dropWhile_not accepts text
  rw [Option.mem_def.mp member] at refused
  exact refused

end Bytes

namespace Scan

theorem ofWord_keyword (word : Keyword) : ofWord (Bytes.ofText word.spelling) = .keyword word := by
  cases word <;> decide +kernel

theorem ofWord_typeName (word : TypeName) :
    ofWord (Bytes.ofText word.spelling) = .typeName word := by
  cases word <;> decide +kernel

theorem ofWord_boolean (value : Bool) :
    ofWord (Bytes.ofText (if value then "true" else "false")) = .boolean value := by
  cases value <;> decide +kernel

theorem ofWord_of_not_reserved {word : Bytes} (notReserved : word ∉ Bytes.reserved) :
    ofWord word = .identifier word := by
  have notTrue : word ≠ Bytes.ofText "true" := by
    rintro rfl
    exact notReserved (Bytes.boolean_mem_reserved true)
  have notFalse : word ≠ Bytes.ofText "false" := by
    rintro rfl
    exact notReserved (Bytes.boolean_mem_reserved false)
  have noKeyword :
      (Keyword.all.find? fun keyword => Bytes.ofText keyword.spelling = word) = none := by
    rw [List.find?_eq_none]
    intro keyword _ spelled
    exact notReserved (of_decide_eq_true spelled ▸ keyword.mem_reserved)
  have noTypeName : (TypeName.all.find? fun name => Bytes.ofText name.spelling = word) = none := by
    rw [List.find?_eq_none]
    intro name _ spelled
    exact notReserved (of_decide_eq_true spelled ▸ name.mem_reserved)
  rw [ofWord, if_neg notTrue, if_neg notFalse, noKeyword, noTypeName]

theorem munch_ofWord {word others : Bytes} (isWord : word.IsWord)
    (ends : ∀ next ∈ others.head?, next.continuesName = false) :
    Lexeme.Munch word others (ofWord word) := by
  by_cases reserved : word ∈ Bytes.reserved
  · simp only [Bytes.reserved, List.mem_append, List.mem_map, List.mem_cons, List.not_mem_nil,
      or_false] at reserved
    rcases reserved with ((rfl | rfl) | ⟨keyword, _, rfl⟩) | ⟨name, _, rfl⟩
    · exact ⟨.boolean true, ends⟩
    · exact ⟨.boolean false, ends⟩
    · rw [ofWord_keyword]
      exact ⟨.keyword keyword, ends⟩
    · rw [ofWord_typeName]
      exact ⟨.typeName name, ends⟩
  · rw [ofWord_of_not_reserved reserved]
    exact ⟨.identifier isWord reserved, ends⟩

theorem word_of_ends {word : Bytes} (isWord : word.IsWord) {others : Bytes}
    (ends : ∀ next ∈ others.head?, next.continuesName = false) :
    Scan.word (word ++ others) = ⟨word.length, .ok (ofWord word)⟩ := by
  simp only [Scan.word, (Bytes.takeWhile_of_ends isWord.2 ends).1]

/-- What a scan finds at the front of a text, unless it is an error, is a lexeme that ends there. -/
def Finds (scan : Scan) (text : Bytes) : Prop :=
  ∀ lexeme, scan.result = .ok lexeme → ∃ taken others, text = taken ++ others ∧
    scan.length = taken.length ∧ Lexeme.Munch taken others lexeme

theorem word_finds {first : Byte} (isLetter : first.isLetter) (rest : Bytes) :
    (Scan.word (first :: rest)).Finds (first :: rest) := by
  intro lexeme read
  cases read
  refine ⟨_, _, List.takeWhile_append_dropWhile.symm, rfl, munch_ofWord ⟨?_, ?_⟩
    (Bytes.head_dropWhile Byte.continuesName _)⟩
  · exact ⟨first, by simp [Byte.continuesName, isLetter], isLetter⟩
  · intro byte member
    exact List.mem_takeWhile_imp member

theorem integer_eq_ok_iff {digits : Bytes} {lexeme : Lexeme Bytes} :
    integer digits = .ok lexeme ↔
      ∃ value : UInt64, lexeme = .integer value ∧ value.toNat = digits.inBaseTen := by
  rw [integer, Bytes.toNumber_eq_inBaseTen]
  constructor
  · intro read
    split at read
    · rename_i fits
      cases read
      exact ⟨_, rfl, UInt64.toNat_ofNat_of_lt' fits⟩
    · cases read
  · rintro ⟨value, rfl, value_eq⟩
    rw [← value_eq, powerOfTwo_eq, if_pos value.toNat_lt, UInt64.ofNat_toNat]

theorem decimal_eq_ok_iff {whole fraction : Bytes} {lexeme : Lexeme Bytes} :
    decimal whole fraction = .ok lexeme ↔ ∃ value : Binary64, lexeme = .decimal value ∧
      value.IsDecimal (Bytes.inBaseTen (whole ++ fraction)) fraction.length := by
  simp only [← Binary64.ofDecimal?_eq_some_iff, decimal, Bytes.toNumber_eq_inBaseTen]
  cases Binary64.ofDecimal? (Bytes.inBaseTen (whole ++ fraction)) fraction.length with
  | none => simp
  | some value => simp [eq_comm]

theorem number_of_integer {digits others : Bytes} (isDigits : digits.IsDigits)
    (ends : ∀ next ∈ others.head?, next.isDigit = false ∧ next ≠ Byte.dot) :
    number (digits ++ others) = ⟨digits.length, integer digits⟩ := by
  have pieces := Bytes.takeWhile_of_ends isDigits.2 fun next member => (ends next member).1
  simp only [number, pieces.1, pieces.2]
  cases others with
  | nil => rfl
  | cons next others => simp only [if_neg (ends next rfl).2]

theorem number_of_decimal {whole fraction others : Bytes} (isDigits : whole.IsDigits)
    (digits : ∀ byte ∈ fraction, byte.isDigit)
    (ends : ∀ next ∈ others.head?, next.isDigit = false) :
    number (whole ++ Byte.dot :: (fraction ++ others)) =
      ⟨whole.length + 1 + fraction.length, decimal whole fraction⟩ := by
  have atDot : ∀ next ∈ (Byte.dot :: (fraction ++ others)).head?, next.isDigit = false := by
    rintro next ⟨⟩
    decide
  have pieces := Bytes.takeWhile_of_ends isDigits.2 atDot
  have behind := Bytes.takeWhile_of_ends digits ends
  simp only [number, pieces.1, pieces.2, if_pos, behind.1]

/-- A number is digits, or digits and a dot with the digits behind it. -/
theorem number_cases {first : Byte} (isDigit : first.isDigit) (rest : Bytes) :
    (∃ digits others : Bytes, first :: rest = digits ++ others ∧ digits.IsDigits ∧
      (∀ next ∈ others.head?, next.isDigit = false ∧ next ≠ Byte.dot) ∧
      number (first :: rest) = ⟨digits.length, integer digits⟩) ∨
    ∃ whole fraction others : Bytes, first :: rest = (whole ++ Byte.dot :: fraction) ++ others ∧
      whole.IsDigits ∧ (∀ byte ∈ fraction, byte.isDigit) ∧
      (∀ next ∈ others.head?, next.isDigit = false) ∧
      number (first :: rest) =
        ⟨(whole ++ Byte.dot :: fraction).length, decimal whole fraction⟩ := by
  have pieces := List.takeWhile_append_dropWhile (p := Byte.isDigit) (l := first :: rest)
  have isDigits : Bytes.IsDigits ((first :: rest).takeWhile Byte.isDigit) :=
    ⟨by simp [isDigit], fun byte member => List.mem_takeWhile_imp member⟩
  have ends := Bytes.head_dropWhile Byte.isDigit (first :: rest)
  generalize (first :: rest).takeWhile Byte.isDigit = whole at *
  generalize (first :: rest).dropWhile Byte.isDigit = behind at *
  rw [← pieces]
  by_cases atDot : ∃ more, behind = Byte.dot :: more
  · rcases atDot with ⟨more, rfl⟩
    have split := List.takeWhile_append_dropWhile (p := Byte.isDigit) (l := more)
    have digits : ∀ byte ∈ more.takeWhile Byte.isDigit, byte.isDigit :=
      fun byte member => List.mem_takeWhile_imp member
    have fractionEnds := Bytes.head_dropWhile Byte.isDigit more
    generalize more.takeWhile Byte.isDigit = fraction at *
    generalize more.dropWhile Byte.isDigit = others at *
    subst split
    refine .inr ⟨whole, fraction, others, by simp, isDigits, digits, fractionEnds, ?_⟩
    rw [number_of_decimal isDigits digits fractionEnds, List.length_append, List.length_cons,
      Nat.add_right_comm, Nat.add_assoc]
  · have wholeEnds : ∀ next ∈ behind.head?, next.isDigit = false ∧ next ≠ Byte.dot := by
      intro next member
      refine ⟨ends next member, ?_⟩
      rintro rfl
      rcases List.head?_eq_some_iff.mp member with ⟨_, split⟩
      exact atDot ⟨behind.tail, by simp [split]⟩
    exact .inl ⟨whole, behind, rfl, isDigits, wholeEnds, number_of_integer isDigits wholeEnds⟩

theorem number_finds {first : Byte} (isDigit : first.isDigit) (rest : Bytes) :
    (number (first :: rest)).Finds (first :: rest) := by
  intro lexeme read
  rcases number_cases isDigit rest with
    ⟨digits, others, split, isDigits, ends, number_eq⟩ |
      ⟨whole, fraction, others, split, isDigits, fractionDigits, ends, number_eq⟩
  · rw [number_eq] at read ⊢
    rcases integer_eq_ok_iff.mp read with ⟨value, rfl, value_eq⟩
    exact ⟨digits, others, split, rfl, .integer isDigits value_eq, ends⟩
  · rw [number_eq] at read ⊢
    dsimp only at read
    rcases decimal_eq_ok_iff.mp read with ⟨value, rfl, isDecimal⟩
    exact ⟨_, others, split, rfl, .decimal isDigits fractionDigits isDecimal, ends⟩

theorem staysInString_eq_true_iff {previous current : Byte} :
    staysInString previous current = true ↔ (current = Byte.quote → previous = Byte.backslash) := by
  simp only [staysInString, Bool.or_eq_true, bne_iff_ne, beq_iff_eq]
  tauto

/-- A run inside a string ends with the text or before a quote that closes the string. -/
theorem takeWindowed_quotable : (previous : Byte) → (text : Bytes) →
    let body := Bytes.takeWindowed staysInString previous text
    (∀ before after, body = before ++ Byte.quote :: after →
        (previous :: before).getLast? = some Byte.backslash) ∧
      (body = text ∨ ((previous :: body).getLast? ≠ some Byte.backslash ∧
        ∃ others, text = body ++ Byte.quote :: others))
  | previous, [] => ⟨by simp [Bytes.takeWindowed], .inl rfl⟩
  | previous, current :: rest => by
      rcases takeWindowed_quotable current rest with ⟨escaped, ended⟩
      rw [Bytes.takeWindowed]
      split
      · rename_i stays
        refine ⟨?_, ended.imp (congrArg (current :: ·)) ?_⟩
        · intro before after split
          rcases List.cons_eq_append_iff.mp split with ⟨rfl, quoted⟩ | ⟨before, rfl, inner⟩
          · have isQuote := (List.cons.inj quoted).1.symm
            rw [List.getLast?_singleton, staysInString_eq_true_iff.mp stays isQuote]
          · rw [List.getLast?_cons_cons]
            exact escaped before after inner
        · rintro ⟨closable, others, split⟩
          rw [List.getLast?_cons_cons]
          exact ⟨closable, others, congrArg (current :: ·) split⟩
      · rename_i closes
        rcases Classical.not_imp.mp (staysInString_eq_true_iff.not.mp closes) with
          ⟨rfl, notEscaped⟩
        exact ⟨by simp, .inr ⟨by simpa using notEscaped, rest, rfl⟩⟩

theorem takeWindowed_of_quotable : (previous : Byte) → (body others : Bytes) →
    (∀ before after, body = before ++ Byte.quote :: after →
      (previous :: before).getLast? = some Byte.backslash) →
    (previous :: body).getLast? ≠ some Byte.backslash →
    Bytes.takeWindowed staysInString previous (body ++ Byte.quote :: others) = body
  | previous, [], others, _, closable => by
      have closes : staysInString previous Byte.quote = false := by
        rw [← Bool.not_eq_true, staysInString_eq_true_iff]
        simpa using closable
      simp [Bytes.takeWindowed, closes]
  | previous, current :: body, others, escaped, closable => by
      have stays : staysInString previous current = true := by
        rw [staysInString_eq_true_iff]
        rintro rfl
        simpa using escaped [] body rfl
      rw [List.cons_append, Bytes.takeWindowed, if_pos stays]
      congr 1
      apply takeWindowed_of_quotable current body others
      · rintro before after rfl
        rw [← List.getLast?_cons_cons (a := previous)]
        exact escaped (current :: before) after rfl
      · rwa [List.getLast?_cons_cons] at closable

/-- The opening quote is no backslash, so it makes no difference to what may follow it. -/
theorem getLast?_quote_cons {text : Bytes} :
    (Byte.quote :: text).getLast? = some Byte.backslash ↔
      text.getLast? = some Byte.backslash := by
  rw [List.getLast?_cons]
  cases text.getLast? with
  | none => decide
  | some last => simp

theorem string_of_quotable {body : Bytes} (isQuotable : body.IsQuotable) (others : Bytes) :
    string (body ++ Byte.quote :: others) = ⟨body.length + 2, .ok (.string body)⟩ := by
  have taken := takeWindowed_of_quotable Byte.quote body others
    (fun before after split => getLast?_quote_cons.mpr (isQuotable.escaped before after split))
    (getLast?_quote_cons.not.mpr isQuotable.closable)
  rw [string, taken, if_pos (by simp)]

theorem string_finds (rest : Bytes) : (string rest).Finds (Byte.quote :: rest) := by
  rcases takeWindowed_quotable Byte.quote rest with ⟨escaped, ended⟩
  intro lexeme read
  rcases ended with whole | ⟨closable, others, split⟩
  · rw [string, whole, if_neg (Nat.lt_irrefl _)] at read
    cases read
  · generalize Bytes.takeWindowed staysInString Byte.quote rest = body at *
    subst split
    have isQuotable : body.IsQuotable :=
      ⟨fun before after split => getLast?_quote_cons.mp (escaped before after split),
        getLast?_quote_cons.not.mp closable⟩
    rw [string_of_quotable isQuotable] at read ⊢
    cases read
    exact ⟨Byte.quote :: body ++ [Byte.quote], others, by simp, by simp, .string isQuotable,
      trivial⟩

theorem mark?_eq_some_iff {spelling : Bytes} {mark : Punct} :
    mark? spelling = some mark ↔ Bytes.ofText mark.spelling = spelling := by
  have found : ∀ mark : Punct, mark? (Bytes.ofText mark.spelling) = some mark := by
    decide +kernel
  constructor
  · intro isFound
    simpa using List.find?_some isFound
  · rintro rfl
    exact found mark

/-- A mark of one byte is not taken together with a next byte that does not continue it. -/
theorem mark?_pair_eq_none {mark : Punct} {first next : Byte} {others : Bytes}
    (spelled : Bytes.ofText mark.spelling = [first])
    (ends : (Lexeme.punct mark).Ends (next :: others)) : mark? [first, next] = none := by
  rw [Option.eq_none_iff_forall_ne_some]
  intro other found
  rw [mark?_eq_some_iff] at found
  have goesOn : Bytes.ofText mark.spelling <+: Bytes.ofText other.spelling :=
    ⟨[next], by rw [spelled, found]; rfl⟩
  rcases mark.fused_of_extends other goesOn with rfl | ⟨fused, split⟩
  · rw [spelled] at found
    cases found
  · rw [spelled, found] at split
    cases split
    exact ends Byte.equals rfl (by simp [fused]) rfl

theorem punct_of_ends {mark : Punct} {first : Byte} {rest others : Bytes}
    (split : first :: rest = Bytes.ofText mark.spelling ++ others)
    (ends : (Lexeme.punct mark).Ends others) :
    punct first rest = ⟨(Bytes.ofText mark.spelling).length, .ok (.punct mark)⟩ := by
  rcases mark.spelling_cases with single | ⟨double, _⟩
  · rcases List.length_eq_one_iff.mp single with ⟨byte, spelled⟩
    rw [spelled] at split ⊢
    cases split
    have found : mark? [first] = some mark := mark?_eq_some_iff.mpr spelled
    cases others with
    | nil => simp [punct, found]
    | cons next others => simp [punct, mark?_pair_eq_none spelled ends, found]
  · rcases List.length_eq_two.mp double with ⟨byte, next, spelled⟩
    rw [spelled] at split ⊢
    cases split
    have found : mark? [first, next] = some mark := mark?_eq_some_iff.mpr spelled
    simp [punct, found]

theorem punct_finds (first : Byte) (rest : Bytes) : (punct first rest).Finds (first :: rest) := by
  intro lexeme read
  cases pair_eq : mark? (first :: rest.take 1) with
  | some mark =>
      have spelled := mark?_eq_some_iff.mp pair_eq
      have split : first :: rest = Bytes.ofText mark.spelling ++ rest.drop 1 := by
        rw [spelled, List.cons_append, List.take_append_drop]
      have ends : (Lexeme.punct mark).Ends (rest.drop 1) := by
        intro next member isFused
        rcases mark.spelling_cases with single | ⟨_, notFused⟩
        · rw [spelled] at single
          cases rest with
          | nil => cases member
          | cons byte rest => cases single
        · rw [notFused] at isFused
          cases isFused
      rw [punct_of_ends split ends] at read ⊢
      cases read
      exact ⟨_, _, split, rfl, .punct mark, ends⟩
  | none =>
      cases single_eq : mark? [first] with
      | some mark =>
          have spelled := mark?_eq_some_iff.mp single_eq
          have ends : (Lexeme.punct mark).Ends rest := by
            rintro _ member isFused rfl
            rcases Option.isSome_iff_exists.mp isFused with ⟨other, fused⟩
            rcases List.head?_eq_some_iff.mp member with ⟨more, rfl⟩
            have pair := mark.spelling_fused other fused
            rw [spelled, List.singleton_append] at pair
            rw [List.take_succ_cons, List.take_zero, mark?_eq_some_iff.mpr pair] at pair_eq
            cases pair_eq
          have split : first :: rest = Bytes.ofText mark.spelling ++ rest := by
            rw [spelled, List.singleton_append]
          rw [punct_of_ends split ends] at read ⊢
          cases read
          exact ⟨_, _, split, rfl, .punct mark, ends⟩
      | none =>
          simp only [punct, pair_eq, single_eq, unexpected] at read
          cases read

/-- The first byte of an item decides on the rule for it. -/
theorem item_eq (first : Byte) (rest : Bytes) :
    item first rest =
      match first.start with
      | .letter => Scan.word (first :: rest)
      | .digit => number (first :: rest)
      | .quote => string rest
      | .mark => punct first rest := by
  simp only [item, Byte.start]
  repeat' split
  all_goals simp_all

/-- What the scanner finds is a lexeme that ends where the scan does. -/
theorem item_finds (first : Byte) (rest : Bytes) : (item first rest).Finds (first :: rest) := by
  rw [item]
  split
  · exact word_finds ‹_› rest
  · split
    · exact number_finds ‹_› rest
    · split
      · rename_i isQuote
        rw [isQuote]
        exact string_finds rest
      · exact punct_finds first rest

section

variable {first : Byte} {rest taken others : Bytes} {lexeme : Lexeme Bytes}

theorem start_of_forms {start : Start} (forms : taken.Forms start)
    (split : first :: rest = taken ++ others) : first.start = start := by
  rcases List.exists_cons_of_ne_nil forms.ne_nil with ⟨byte, more, rfl⟩
  have byte_start := forms.start
  cases split
  exact Option.some.inj byte_start

theorem item_of_word (isWord : taken.IsWord)
    (ends : ∀ next ∈ others.head?, next.continuesName = false)
    (split : first :: rest = taken ++ others) :
    item first rest = ⟨taken.length, .ok (ofWord taken)⟩ := by
  rw [item_eq, start_of_forms (.word isWord) split, split]
  exact word_of_ends isWord ends

/-- Digits are scanned as an integer, be it in range or not, unless a dot follows. -/
theorem item_of_digits (isDigits : taken.IsDigits)
    (ends : ∀ next ∈ others.head?, next.isDigit = false ∧ next ≠ Byte.dot)
    (split : first :: rest = taken ++ others) :
    item first rest = ⟨taken.length, integer taken⟩ := by
  rw [item_eq, start_of_forms (.integer isDigits) split, split]
  exact number_of_integer isDigits ends

/-- The scanner finds every lexeme that ends in front of what follows. -/
theorem item_of_munch (split : first :: rest = taken ++ others)
    (munch : Lexeme.Munch taken others lexeme) :
    item first rest = ⟨taken.length, .ok lexeme⟩ := by
  rcases munch with ⟨spelled, ends⟩
  cases spelled with
  | keyword word =>
      rw [item_of_word (Bytes.isWord_of_mem_reserved word.mem_reserved) ends split, ofWord_keyword]
  | typeName word =>
      rw [item_of_word (Bytes.isWord_of_mem_reserved word.mem_reserved) ends split, ofWord_typeName]
  | boolean value =>
      rw [item_of_word (Bytes.isWord_of_mem_reserved (Bytes.boolean_mem_reserved value)) ends split,
        ofWord_boolean]
  | identifier isWord notReserved =>
      rw [item_of_word isWord ends split, ofWord_of_not_reserved notReserved]
  | @integer _ value isDigits value_eq =>
      rw [item_of_digits isDigits ends split, integer_eq_ok_iff.mpr ⟨value, rfl, value_eq⟩]
  | @decimal whole fraction value isDigits digits isDecimal =>
      have read := decimal_eq_ok_iff.mpr ⟨value, rfl, isDecimal⟩
      have length_eq : (whole ++ Byte.dot :: fraction).length =
          whole.length + 1 + fraction.length := by
        simp only [List.length_append, List.length_cons]
        omega
      rw [item_eq, start_of_forms (.decimal isDigits digits) split, split, ← read, length_eq,
        List.append_assoc, List.cons_append]
      exact number_of_decimal isDigits digits ends
  | @string body isQuotable =>
      have rest_eq : rest = body ++ Byte.quote :: others := by
        simpa using (List.cons.inj split).2
      have length_eq : (Byte.quote :: body ++ [Byte.quote]).length = body.length + 2 := by simp
      rw [item_eq, start_of_forms (.string isQuotable) split, rest_eq, length_eq]
      exact string_of_quotable isQuotable others
  | punct mark =>
      rw [item_eq, start_of_forms (.punct mark) split]
      exact punct_of_ends split ends

end

end Scan

namespace Lexeme

theorem Ends.nil (lexeme : Lexeme Bytes) : lexeme.Ends [] := by
  cases lexeme <;> simp [Ends]

/-- Bytes spell one lexeme at most. -/
theorem Spelled.unique {taken : Bytes} {lexeme other : Lexeme Bytes}
    (spelled : Spelled taken lexeme) (otherSpelled : Spelled taken other) : other = lexeme := by
  rcases spelled.forms with ⟨start, forms⟩
  rcases List.exists_cons_of_ne_nil forms.ne_nil with ⟨first, rest, rfl⟩
  -- The scanner would find either of them in a text of just these bytes.
  have split : first :: rest = (first :: rest) ++ [] := (List.append_nil _).symm
  have found := Scan.item_of_munch split ⟨spelled, .nil lexeme⟩
  rw [Scan.item_of_munch split ⟨otherSpelled, .nil other⟩] at found
  exact Except.ok.inj (congrArg Scan.result found)

end Lexeme

end TypedLang
