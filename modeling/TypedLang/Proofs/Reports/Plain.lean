import TypedLang.Proofs.FirstFailure
import TypedLang.Proofs.Printing
import TypedLang.Proofs.Renaming.Reports
import TypedLang.Proofs.Token.Munch

/-!
# Messages fit into lines

Messages quote pieces of the text: bytes that start no token, numbers that are out of range, names.
None of these pieces has a newline in it: a newline is blank, so it is no part of an item but of a
string, and no message quotes a string. All else that a message says is the same for every text.
-/

namespace TypedLang

/-- What the report about a misspelling quotes fits into one line. -/
structure Misspelling.IsPlain (misspelling : Misspelling) : Prop where
  found : misspelling.found.IsLine
  expected : misspelling.expected.IsLine

namespace Scan

/-- If a scan fails, then with a plain misspelling. -/
def FailsPlainly (result : Except Misspelling (Lexeme Bytes)) : Prop :=
  ∀ misspelling, result = .error misspelling → misspelling.IsPlain

theorem integer_failsPlainly {digits : Bytes} (isLine : digits.IsLine) :
    FailsPlainly (integer digits) := by
  intro misspelling failed
  rw [integer] at failed
  split_ifs at failed
  cases failed
  exact ⟨isLine, by dsimp only; decide⟩

theorem decimal_failsPlainly {whole fraction : Bytes} (isLine : whole.IsLine)
    (fractionIsLine : fraction.IsLine) : FailsPlainly (decimal whole fraction) := by
  intro misspelling failed
  rw [decimal] at failed
  cases value_eq : Binary64.ofDecimal? (Bytes.toNumber (whole ++ fraction)) fraction.length with
  | some value =>
      rw [value_eq] at failed
      cases failed
  | none =>
      rw [value_eq] at failed
      cases failed
      have dot : Byte.dot ≠ Byte.newline := by decide
      exact ⟨by simp [isLine, fractionIsLine, dot], by dsimp only; decide⟩

theorem number_failsPlainly (text : Bytes) : FailsPlainly (number text).result := by
  have digits (text : Bytes) : Bytes.IsLine (text.takeWhile Byte.isDigit) :=
    Bytes.isLine_of_isDigit fun _ member => List.mem_takeWhile_imp member
  rw [number]
  split
  · exact integer_failsPlainly (digits text)
  · rename_i next rest _
    by_cases isDot : next = Byte.dot
    · simp only [if_pos isDot]
      exact decimal_failsPlainly (digits text) (digits rest)
    · simp only [if_neg isDot]
      exact integer_failsPlainly (digits text)

theorem string_failsPlainly (rest : Bytes) : FailsPlainly (string rest).result := by
  intro misspelling failed
  rw [string] at failed
  split_ifs at failed
  cases failed
  exact ⟨by decide, by decide⟩

/-- A byte that starts no token is not blank, and what is taken along with it is beyond ASCII. -/
theorem unexpected_failsPlainly {first : Byte} (solid : first.isBlank = false) (rest : Bytes) :
    FailsPlainly (unexpected first rest).result := by
  intro misspelling failed
  cases failed
  refine ⟨?_, by dsimp only; decide⟩
  simp only [Bytes.isLine_cons_iff]
  constructor
  · rintro rfl
    cases solid
  · split
    · intro member
      cases List.mem_takeWhile_imp member
    · exact Bytes.isLine_nil

theorem item_failsPlainly {first : Byte} (solid : first.isBlank = false) (rest : Bytes) :
    FailsPlainly (item first rest).result := by
  rw [item]
  split
  · rintro misspelling ⟨⟩
  split
  · exact number_failsPlainly _
  split
  · exact string_failsPlainly rest
  · rw [punct]
    split
    · rintro misspelling ⟨⟩
    split
    · rintro misspelling ⟨⟩
    · exact unexpected_failsPlainly solid rest

end Scan

/-- The items of a text fail plainly. -/
theorem Item.failsPlainly_of_mem : (offset skip : Nat) → (text : Bytes) →
    ∀ item ∈ listFrom offset skip text, Scan.FailsPlainly item.result
  | _, _, [] => by simp [listFrom]
  | offset, skip + 1, _ :: rest => failsPlainly_of_mem (offset + 1) skip rest
  | offset, 0, byte :: rest => by
      rw [listFrom]
      split
      · exact failsPlainly_of_mem (offset + 1) 0 rest
      · rename_i solid
        refine List.forall_mem_cons.mpr ⟨?_, failsPlainly_of_mem (offset + 1) _ rest⟩
        exact Scan.item_failsPlainly (by simpa using solid) rest

/-- The words that the message of an error quotes or says, besides names and types. -/
def ResolutionErrorCause.words : ResolutionErrorCause → List Bytes
  | kindMismatch _ expected found => [expected, found]
  | _ => []

/-- The words that the message of an error quotes, besides types. -/
def TypeErrorCause.words : TypeErrorCause → List Bytes
  | invalidBinary op _ _ => [op]
  | invalidUnary op _ => [op]
  | _ => []

theorem SymbolKind.isLine_name (kind : SymbolKind) : Bytes.IsLine kind.name := by
  cases kind <;> decide

theorem Punct.isLine_spelling (mark : Punct) : Bytes.IsLine mark.spelling := by
  cases mark <;> decide

theorem TokenKind.isLine_describe (kind : TokenKind) : Bytes.IsLine kind.describe := by
  rcases kind with _ | _ | _ | _ | _ | word | word | mark
  all_goals first | decide | skip
  · cases word <;> decide
  · cases word <;> decide
  · cases mark <;> decide

theorem Ty.isLine_name (type : Ty) : Bytes.IsLine type.name := by
  rcases type with ⟨sign, width⟩ | ⟨width⟩ | _
  · cases sign <;> cases width <;> decide
  · cases width <;> decide
  · decide

theorem Occurrence.words_errors {source : SourceId} (occurrence : Occurrence) :
    ∀ error ∈ occurrence.errors source, ∀ word ∈ error.cause.words, word.IsLine := by
  intro error member
  rw [Occurrence.errors] at member
  split at member
  · cases List.mem_singleton.mp member
    simp [ResolutionErrorCause.words]
  · rename_i declaration _
    split at member
    · cases member
    · cases List.mem_singleton.mp member
      have needed : Bytes.IsLine occurrence.use.needed := by
        cases occurrence.use <;> decide
      simp [ResolutionErrorCause.words, needed, declaration.kind.isLine_name]

theorem Program.words_scopeErrors (program : Program) :
    ∀ error ∈ program.scopeErrors, ∀ word ∈ error.cause.words, word.IsLine := by
  intro error member
  rcases List.mem_append.mp member with member | member
  · rcases List.mem_append.mp member with member | member
    · rcases List.mem_flatMap.mp member with ⟨occurrence, _, errorMem⟩
      exact occurrence.words_errors error errorMem
    · rcases List.mem_map.mp member with ⟨callee, _, rfl⟩
      simp only [Expr.callError, ResolutionErrorCause.words]
      decide
  · rcases List.mem_map.mp member with ⟨repetition, _, rfl⟩
    simp [Declaration.repetitionError, ResolutionErrorCause.words]

theorem WrittenType.FirstMismatch.words_eq_nil {source : SourceId} {parameters : List WrittenType}
    {arguments : List Expr} {types : List Ty} {error : TypeError}
    (mismatch : FirstMismatch source parameters arguments types error) :
    error.cause.words = [] := by
  induction mismatch with
  | head => rfl
  | tail _ _ ih => exact ih

theorem BinaryOp.isLine_spelling (op : BinaryOp) : Bytes.IsLine op.spelling :=
  op.mark.isLine_spelling

theorem UnaryOp.isLine_spelling (op : UnaryOp) : Bytes.IsLine op.spelling :=
  op.mark.isLine_spelling

mutual

theorem Expr.FirstViolation.words_isLine {source : SourceId} {context : Context} {value : Expr}
    {error : TypeError} : value.FirstViolation source context error →
      ∀ word ∈ error.cause.words, word.IsLine
  | .left violation => violation.words_isLine
  | .right _ violation => violation.words_isLine
  | .binary _ _ _ => by simp [TypeErrorCause.words, BinaryOp.isLine_spelling]
  | .operand violation => violation.words_isLine
  | .unary _ _ => by simp [TypeErrorCause.words, UnaryOp.isLine_spelling]
  | .argument _ violations => violations.words_isLine
  | .arity _ _ _ => by simp [TypeErrorCause.words]
  | .mismatch _ _ _ mismatch => by simp [mismatch.words_eq_nil]
  | .inner violation => violation.words_isLine
  | .literal _ => by simp [TypeErrorCause.words]

theorem Expr.FirstViolations.words_isLine {source : SourceId} {context : Context}
    {values : List Expr} {error : TypeError} : Expr.FirstViolations source context values error →
      ∀ word ∈ error.cause.words, word.IsLine
  | .head violation => violation.words_isLine
  | .tail _ violations => violations.words_isLine

end

theorem Leaf.FirstViolation.words_isLine {source : SourceId} {leaf : Leaf} {error : TypeError}
    (violation : leaf.FirstViolation source error) :
    ∀ word ∈ error.cause.words, word.IsLine := by
  cases violation with
  | value _ violation => exact violation.words_isLine
  | initializer _ _ _ => simp [TypeErrorCause.words]
  | returning _ _ => simp [TypeErrorCause.words]

/-- All that a mistake says fits into lines: its message, and the messages of its labels. -/
structure Mistake.IsPlain (interner : Interner) (mistake : Mistake) : Prop where
  message : ∀ message, mistake.message interner = .ok message → message.IsLine
  labels : ∀ place ∈ mistake.places, ∀ message ∈ place.2, Bytes.IsLine message

theorem LexicalError.isLine_message {error : LexicalError} (found : error.found.IsLine)
    (expected : error.expected.IsLine) : error.message.IsLine := by
  rw [message]
  split
  · simp only [Bytes.isLine_concat_iff, List.forall_mem_cons, Bytes.isLine_quoted_iff, found,
      expected]
    decide
  · decide
  · simp only [Bytes.isLine_concat_iff, List.forall_mem_cons, Bytes.isLine_quoted_iff, found]
    decide

theorem LexicalError.isLine_labelMessage {error : LexicalError}
    (expected : error.expected.IsLine) : error.labelMessage.IsLine := by
  rw [labelMessage]
  split
  · decide
  · simp only [Bytes.isLine_concat_iff, List.forall_mem_cons, expected]
    decide
  · simp only [Bytes.isLine_concat_iff, List.forall_mem_cons, expected]
    decide

theorem LexicalError.isPlain {error : LexicalError} (found : error.found.IsLine)
    (expected : error.expected.IsLine) (interner : Interner) :
    (Mistake.lexing error).IsPlain interner where
  message := by
    rintro message ⟨⟩
    exact isLine_message found expected
  labels := by
    simpa [Mistake.places, LexicalError.places] using isLine_labelMessage expected

theorem ParseError.isLine_alternatives : (kinds : List TokenKind) → (alternatives kinds).IsLine
  | [] => Bytes.isLine_nil
  | [kind] => kind.isLine_describe
  | [first, last] => by
      have word : Bytes.IsLine " or " := by decide
      simp [alternatives, first.isLine_describe, last.isLine_describe, word]
  | first :: second :: third :: rest => by
      have comma : Bytes.IsLine ", " := by decide
      have others := isLine_alternatives (second :: third :: rest)
      simp [alternatives, first.isLine_describe, others, comma]

theorem ParseError.isLine_found (got : Option TokenKind) : (found got).IsLine := by
  rcases got with _ | kind
  · decide
  · exact kind.isLine_describe

theorem ParseError.isLine_message (error : ParseError) : error.message.IsLine := by
  rw [message]
  split
  · simp only [Bytes.isLine_concat_iff, List.forall_mem_cons, isLine_alternatives, isLine_found]
    decide
  · simp only [Bytes.isLine_concat_iff, List.forall_mem_cons, isLine_alternatives]
    decide
  · decide

theorem ParseError.isPlain (error : ParseError) (interner : Interner) :
    (Mistake.parsing error).IsPlain interner where
  message := by
    rintro message ⟨⟩
    exact error.isLine_message
  labels := by
    rw [Mistake.places, places]
    split
    · rename_i got _ _
      have word : Bytes.IsLine "found " := by decide
      simp [word, isLine_found got]
    · simp

theorem ResolutionErrorCause.isLine_frame {cause : ResolutionErrorCause}
    (words : ∀ word ∈ cause.words, word.IsLine) :
    cause.frame.1.IsLine ∧ cause.frame.2.IsLine := by
  cases cause with
  | symbolNotFound name =>
      simp only [frame]
      decide
  | nameAlreadyUsed name earlier =>
      simp only [frame]
      decide
  | kindMismatch name expected found =>
      simp only [ResolutionErrorCause.words, List.forall_mem_cons] at words
      simp only [frame, Bytes.isLine_concat_iff, List.forall_mem_cons, words]
      decide

section NameResolution

variable {error : ResolutionError} (words : ∀ word ∈ error.cause.words, word.IsLine)

include words

theorem ResolutionError.isLine_labelMessage : error.labelMessage.IsLine := by
  rw [labelMessage]
  split
  · decide
  · decide
  · rename_i name expected found cause_eq
    simp only [cause_eq, ResolutionErrorCause.words, List.forall_mem_cons] at words
    simp only [Bytes.isLine_concat_iff, List.forall_mem_cons, words]
    decide

theorem ResolutionError.isLine_places :
    ∀ place ∈ error.places, ∀ message ∈ place.2, Bytes.IsLine message := by
  have own := isLine_labelMessage words
  rw [places]
  split
  · have first : Bytes.IsLine "first declared here" := by decide
    simp [own, first]
  · simpa using own

/-- A message quotes a name, or it says that there is none. -/
theorem ResolutionError.isLine_message {interner : Interner}
    (names : ∀ key, error.cause.name? = some key →
      ∃ word, interner.resolve key = .ok word ∧ word.IsLine)
    {message : Bytes} (told : error.message interner = .ok message) : message.IsLine := by
  rcases named : error.cause.name? with _ | key
  · rcases error with ⟨source, span, name | ⟨name, earlier⟩ | ⟨name, expected, found⟩⟩
    all_goals
      cases named
      cases told
    · decide
    · decide
    · simp only [ResolutionErrorCause.words, List.forall_mem_cons] at words
      simp only [Bytes.isLine_concat_iff, List.forall_mem_cons, words]
      decide
  · rcases names key named with ⟨word, resolved, isLine⟩
    have frame := ResolutionErrorCause.isLine_frame words
    cases (message_of_name named resolved).symm.trans told
    simp [frame, isLine]

end NameResolution

theorem TypeError.isLine_typeText (type : Option Ty) : (typeText type).IsLine := by
  rcases type with _ | type
  · decide
  · simpa [typeText] using type.isLine_name

theorem TypeError.isLine_message {error : TypeError}
    (words : ∀ word ∈ error.cause.words, word.IsLine) : error.message.IsLine := by
  rw [message]
  split
  case h_1 op left right cause_eq | h_2 op operand cause_eq =>
    simp only [cause_eq, TypeErrorCause.words, List.forall_mem_cons] at words
    simp only [Bytes.isLine_concat_iff, List.forall_mem_cons, Bytes.isLine_quoted_iff, words,
      isLine_typeText]
    decide
  case h_3 | h_4 =>
    simp only [Bytes.isLine_concat_iff, List.forall_mem_cons, Bytes.isLine_ofNat, isLine_typeText]
    decide
  all_goals decide

theorem TypeError.isLine_labelMessage {error : TypeError} :
    ∀ message ∈ error.labelMessage, Bytes.IsLine message := by
  rw [labelMessage]
  split
  case h_3 =>
    have word : Bytes.IsLine "found " := by decide
    simp [word, isLine_typeText]
  all_goals simp
  all_goals decide

theorem TypeError.isLine_origin {error : TypeError} :
    ∀ origin ∈ error.origin, Bytes.IsLine origin.2 := by
  rw [origin]
  split
  · have word : Bytes.IsLine "expected because of this" := by decide
    simp [word]
  · have word : Bytes.IsLine "function declared here" := by decide
    simp [word]
  · simp

theorem TypeError.isPlain {error : TypeError} (words : ∀ word ∈ error.cause.words, word.IsLine)
    (interner : Interner) : (Mistake.typeChecking error).IsPlain interner where
  message := by
    rintro message ⟨⟩
    exact isLine_message words
  labels := by
    have own := error.isLine_labelMessage
    rw [Mistake.places, places]
    split
    · simpa using own
    · rename_i origin_eq
      have origin := error.isLine_origin _ origin_eq
      simpa [origin] using own

section

variable {program : Program} (fresh : program.symbols = [])

include fresh

theorem Program.words_resolve :
    ∀ error ∈ (program.resolve .empty).errors, ∀ word ∈ error.cause.words, word.IsLine := by
  rcases program.resolve_conforms .empty fresh with ⟨_, _, errors, _⟩
  intro error member
  exact (program.resolve .empty).program.words_scopeErrors error (errors.mem_iff.mp member)

theorem Program.words_check (clean : (program.resolve .empty).errors = []) :
    ∀ error ∈ ((program.resolve .empty).program.checkKnown (program.resolve .empty).arena).errors,
      ∀ word ∈ error.cause.words, word.IsLine := by
  rcases program.check_follows fresh clean with ⟨_, follows⟩
  rcases follows.errors with ⟨verdicts, judged, errors_eq⟩
  intro error member
  rw [errors_eq] at member
  rcases Leaf.exists_of_mem_reduceOption judged member with ⟨leaf, _, violation⟩
  exact violation.words_isLine

end

theorem Bytes.IsName.isLine {word : Bytes} (isName : word.IsName) : word.IsLine := by
  intro member
  cases isName.isWord.2 _ member

theorem Lexeme.exists_of_resolve_identifier {interner : Interner} {key : Key}
    {lexeme : Lexeme Bytes} (resolved : (identifier key).resolve interner = .ok lexeme) :
    ∃ word, interner.resolve key = .ok word ∧ lexeme = .identifier word := by
  rw [resolve] at resolved
  rcases word_eq : interner.resolve key with fault | word
  all_goals
    rw [word_eq] at resolved
    cases resolved
  exact ⟨word, rfl, rfl⟩

/-- The identifiers among the tokens of a text are names. -/
theorem Lexer.exists_name_of_mem_tokenize {source : SourceId} {text : Bytes} {interner : Interner}
    {token : Token} (member : token ∈ ((ofText source text interner).tokenize).1) {key : Key}
    (isIdentifier : token.lexeme = .identifier key) :
    ∃ word : Bytes,
      ((ofText source text interner).tokenize).2.interner.resolve key = .ok word ∧ word.IsName := by
  rcases exists_of_mem_tokensOf _ _ token member with
    ⟨item, itemMem, lexeme, result_eq, _, resolved⟩
  rcases Item.isScanned_of_mem 0 0 text item itemMem with ⟨_, first, rest, _, _, scanned⟩
  rcases Scan.item_finds first rest lexeme (scanned.symm.trans result_eq) with
    ⟨taken, others, _, _, munch⟩
  rw [isIdentifier] at resolved
  rcases Lexeme.exists_of_resolve_identifier resolved with ⟨word, word_eq, rfl⟩
  exact ⟨word, word_eq, munch.spelled.isName.2⟩

namespace Outcome

theorem isPlain_ofTokens {source : SourceId} {tokens : List Token} {interner : Interner}
    (names : ∀ token ∈ tokens, ∀ key, token.lexeme = .identifier key →
      ∃ word : Bytes, interner.resolve key = .ok word ∧ word.IsName) :
    ∀ mistake ∈ (ofTokens source tokens).mistakes, mistake.IsPlain interner := by
  intro mistake member
  have known := names_ofTokens source tokens mistake member
  have fresh := Parsed.symbols_eq_nil source tokens
  rw [ofTokens] at member
  split at member
  · rcases List.mem_map.mp member with ⟨error, _, rfl⟩
    exact error.isPlain interner
  split at member
  · rcases List.mem_map.mp member with ⟨error, errorMem, rfl⟩
    have words := Program.words_resolve fresh error errorMem
    refine ⟨fun message told => ResolutionError.isLine_message words ?_ told,
      ResolutionError.isLine_places words⟩
    intro key named
    rcases known.name key named with ⟨token, tokenMem, isName⟩
    rcases names token tokenMem key isName with ⟨word, resolved, wordIsName⟩
    exact ⟨word, resolved, wordIsName.isLine⟩
  · rename_i resolved
    rcases List.mem_map.mp member with ⟨error, errorMem, rfl⟩
    exact TypeError.isPlain (Program.words_check fresh (by simpa using resolved) error errorMem)
      interner

/-- All that the mistakes in a text say fits into lines. -/
theorem isPlain_ofText (id : SourceId) (text : Bytes) (interner : Interner) :
    ∀ mistake ∈ (ofText id text interner).mistakes,
      mistake.IsPlain ((Lexer.ofText id text interner).tokenize).2.interner := by
  intro mistake member
  rw [ofText] at member
  split at member
  · rcases List.mem_map.mp member with ⟨error, errorMem, rfl⟩
    have sorted := (Lexer.ofText id text interner).sortedInto_tokensOf rfl (Item.list text)
    rcases sorted.exists_of_mem_errors errorMem with ⟨item, itemMem, misspelling, result_eq, rfl⟩
    have plain := Item.failsPlainly_of_mem 0 0 text item itemMem misspelling result_eq
    exact LexicalError.isPlain plain.found plain.expected _
  · refine isPlain_ofTokens (fun token tokenMem key => ?_) mistake member
    exact Lexer.exists_name_of_mem_tokenize tokenMem

end Outcome

end TypedLang
