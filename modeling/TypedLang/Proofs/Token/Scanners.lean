import TypedLang.Proofs.Token.Calls
import TypedLang.Token.Scanner

/-!
# Scanners read what lexers have laid out

A scanner remembers nothing of what it has passed by. From a mark on, the cursor reads exactly the
item that the scanning rules find at the front of the bytes that are left, and stops behind it. So
the items that a scanner has not reached yet are those of the rest of its text, and it answers any
calls as the lexer does that has the items of the text laid out.
-/

namespace TypedLang

/-- The second byte of a mark of two bytes is an equals sign. -/
theorem Scan.eq_equals_of_mark? {first next : Byte} {mark : Punct}
    (found : mark? [first, next] = some mark) : next = Byte.equals := by
  rw [mark?_eq_some_iff] at found
  cases mark <;> simp [Bytes.ofText, Punct.spelling] at found <;> exact found.2.symm

namespace Cursor

variable {cursor : Cursor} {first : Byte} {others : Bytes}

theorem peek_eq_head? (cursor : Cursor) : cursor.peek = cursor.rest.head? := by
  rw [rest, List.head?_drop, peek]

theorem rest_advance (cursor : Cursor) (count : Nat) :
    (cursor.advance count).rest = cursor.rest.drop count := by
  rw [rest, rest, List.drop_drop]
  rfl

theorem advance_advance (cursor : Cursor) (count further : Nat) :
    (cursor.advance count).advance further = cursor.advance (count + further) := by
  simp only [advance, Nat.add_assoc]

theorem peek_eq_some (rest_eq : cursor.rest = first :: others) : cursor.peek = some first := by
  rw [peek_eq_head?, rest_eq, List.head?_cons]

theorem consume_eq (next : cursor.peek = some first) :
    cursor.consume = (some first, cursor.advance 1) := by
  rw [consume, next]

/-- The lexeme of a cursor that started at a mark are the bytes that it has passed by since. -/
theorem lexeme_advance (marked : cursor.mark = cursor.position) {taken back : Bytes}
    {count : Nat} (split : taken ++ back = cursor.rest) (count_eq : taken.length = count) :
    (cursor.advance count).lexeme = taken := by
  have passed : (cursor.advance count).lexeme = cursor.rest.take count := by
    simp only [lexeme, advance, rest, marked, Nat.add_sub_cancel_left]
  rw [passed, ← split, ← count_eq, List.take_left]

/-- The bytes that are left behind a lexeme. -/
theorem rest_advance_of_append {taken back : Bytes} {count : Nat}
    (split : taken ++ back = cursor.rest) (count_eq : taken.length = count) :
    (cursor.advance count).rest = back := by
  rw [rest_advance, ← split, ← count_eq, List.drop_left]

theorem settle_advance (marked : cursor.mark = cursor.position) (count : Nat)
    (result : Except Misspelling (Lexeme Bytes)) :
    (cursor.advance count).settle result =
      (result.mapError (.ofMisspelling cursor.source (.ofLength cursor.position count)),
        cursor.advance count) := by
  have span_eq : (cursor.advance count).span = .ofLength cursor.position count :=
    Span.eq_of_bounds marked rfl
  rw [settle, span_eq]
  rfl

/-- A cursor reads a scan if it stops where the scan ends, with the result of the scan. -/
def Scans (cursor : Cursor) (found : Found) (scan : Scan) : Prop :=
  found = (cursor.advance scan.length).settle scan.result

theorem word_scans (marked : cursor.mark = cursor.position) :
    cursor.Scans cursor.word (.word cursor.rest) := by
  rw [Scans, word, eatWhile, lexeme_advance marked List.takeWhile_append_dropWhile rfl]
  rfl

theorem number_scans (marked : cursor.mark = cursor.position) :
    cursor.Scans cursor.number (.number cursor.rest) := by
  have split := List.takeWhile_append_dropWhile (p := Byte.isDigit) (l := cursor.rest)
  rw [Scans, number, Scan.number, eatWhile]
  generalize cursor.rest.takeWhile Byte.isDigit = whole at split ⊢
  generalize cursor.rest.dropWhile Byte.isDigit = back at split ⊢
  have behind : (cursor.advance whole.length).rest = back := rest_advance_of_append split rfl
  rw [lexeme_advance marked split rfl, peek_eq_head?, behind]
  rcases back with _ | ⟨next, others⟩
  · rfl
  · by_cases isDot : next = Byte.dot
    · subst isDot
      have consumed : (cursor.advance whole.length).consume.2 =
          cursor.advance (whole.length + 1) := by
        rw [consume_eq (peek_eq_some behind), advance_advance]
      have rest_eq : (cursor.advance (whole.length + 1)).rest = others := by
        rw [← advance_advance, rest_advance, behind]
        rfl
      have pieces := List.takeWhile_append_dropWhile (p := Byte.isDigit) (l := others)
      simp only [List.head?_cons, ↓reduceIte, consumed, eatWhile, rest_eq, advance_advance]
      generalize others.takeWhile Byte.isDigit = fraction at pieces ⊢
      have taken : (whole ++ Byte.dot :: fraction) ++ others.dropWhile Byte.isDigit =
          cursor.rest := by
        rw [List.append_assoc, List.cons_append, pieces, split]
      have lexeme_eq : (cursor.advance (whole.length + 1 + fraction.length)).lexeme =
          whole ++ Byte.dot :: fraction := by
        apply lexeme_advance marked taken
        rw [List.length_append, List.length_cons]
        omega
      have fraction_eq : (whole ++ Byte.dot :: fraction).drop (whole.length + 1) = fraction := by
        rw [List.append_cons, List.drop_left' (by simp)]
      rw [lexeme_eq, fraction_eq]
    · simp [isDot]

theorem string_scans (marked : cursor.mark = cursor.position)
    (rest_eq : cursor.rest = Byte.quote :: others) :
    cursor.Scans cursor.string (.string others) := by
  have opened : cursor.consume.2 = cursor.advance 1 := by
    rw [consume_eq (peek_eq_some rest_eq)]
  have opened_rest : (cursor.advance 1).rest = others := by
    rw [rest_advance, rest_eq]
    rfl
  have opened_previous : (cursor.advance 1).previous = Byte.quote := by
    have next : cursor.text[cursor.position]? = some Byte.quote := peek_eq_some rest_eq
    simp [previous, advance, List.getD, next]
  have ends := Bytes.takeWindowed_spec Scan.staysInString Byte.quote others
  rw [Scans, string, opened, eatWindowedWhile, opened_rest, opened_previous, advance_advance,
    Scan.string]
  generalize Bytes.takeWindowed Scan.staysInString Byte.quote others = body at ends ⊢
  rcases ends with rfl | ⟨before, current, back, rfl, closes⟩
  · have exhausted : (cursor.advance (1 + body.length)).peek = none := by
      rw [peek_eq_head?, rest_advance, rest_eq, Nat.add_comm, List.drop_succ_cons,
        List.drop_length, List.head?_nil]
    have expected_eq : Bytes.quoted [Byte.quote] = Bytes.ofText "'\"'" := by decide
    rw [eat, eatIf, exhausted, if_neg (Nat.lt_irrefl _), Nat.add_comm, expected_eq]
    rfl
  · have isQuote : current = Byte.quote := by
      simp only [Scan.staysInString, Bool.or_eq_false_iff, bne_eq_false_iff_eq] at closes
      exact closes.1
    subst isQuote
    have closing : (cursor.advance (1 + body.length)).peek = some Byte.quote := by
      rw [peek_eq_head?, rest_advance, rest_eq, Nat.add_comm, List.drop_succ_cons,
        List.drop_left, List.head?_cons]
    have taken : (Byte.quote :: body ++ [Byte.quote]) ++ back = cursor.rest := by
      simp [rest_eq]
    have lexeme_eq : (cursor.advance (body.length + 2)).lexeme =
        Byte.quote :: body ++ [Byte.quote] := lexeme_advance marked taken (by simp)
    have shorter : body.length < (body ++ Byte.quote :: back).length := by simp
    have behind : 1 + body.length + 1 = body.length + 2 := by omega
    rw [eat, eatIf, closing, if_pos shorter]
    simp only [beq_self_eq_true, ↓reduceIte, advance_advance, behind, lexeme_eq]
    simp

theorem eatContinuations_eq (cursor : Cursor) (count : Nat) :
    cursor.eatContinuations count =
      cursor.advance ((cursor.rest.take count).takeWhile Byte.continuesCharacter).length := by
  induction count generalizing cursor with
  | zero => rfl
  | succ count ih =>
      rw [eatContinuations, peek_eq_head?]
      rcases rest_eq : cursor.rest with _ | ⟨next, others⟩
      · rfl
      · rw [List.take_succ_cons, List.takeWhile_cons]
        dsimp only [List.head?_cons]
        split
        · rw [consume_eq (peek_eq_some rest_eq), ih, rest_advance, rest_eq, List.drop_one,
            List.tail_cons, advance_advance, List.length_cons, Nat.add_comm 1]
        · rfl

theorem unexpected_scans (marked : cursor.mark = cursor.position)
    (rest_eq : cursor.rest = first :: others) :
    cursor.Scans ((cursor.advance 1).unexpected first) (.unexpected first others) := by
  have opened_rest : (cursor.advance 1).rest = others := by
    rw [rest_advance, rest_eq]
    rfl
  rw [Scans, unexpected, Scan.unexpected]
  split
  · rw [eatContinuations_eq, opened_rest, advance_advance]
    have pieces := List.takeWhile_append_dropWhile (p := Byte.continuesCharacter)
      (l := others.take 3)
    generalize (others.take 3).takeWhile Byte.continuesCharacter = taken at pieces ⊢
    have split : (first :: taken) ++ ((others.take 3).dropWhile Byte.continuesCharacter ++
        others.drop 3) = cursor.rest := by
      rw [List.cons_append, ← List.append_assoc, pieces, List.take_append_drop, rest_eq]
    rw [lexeme_advance marked split (Nat.add_comm _ 1)]
  · have lexeme_eq : (cursor.advance 1).lexeme = [first] :=
      lexeme_advance marked rest_eq.symm rfl
    rw [lexeme_eq]
    rfl

theorem punct_scans (marked : cursor.mark = cursor.position)
    (rest_eq : cursor.rest = first :: others) :
    cursor.Scans (cursor.punct first) (.punct first others) := by
  have opened : cursor.consume.2 = cursor.advance 1 := by
    rw [consume_eq (peek_eq_some rest_eq)]
  have opened_peek : (cursor.advance 1).peek = others.head? := by
    rw [peek_eq_head?, rest_advance, rest_eq]
    rfl
  have unexpected_eq := unexpected_scans marked rest_eq
  rw [Scans] at unexpected_eq
  rw [Scans, punct, opened, opened_peek, Scan.punct]
  rcases others with _ | ⟨next, others⟩
  · simp only [List.head?_nil, reduceCtorEq, ↓reduceIte, List.take_nil]
    cases Scan.mark? [first] with
    | none => exact unexpected_eq
    | some mark => rfl
  · simp only [List.head?_cons, Option.some.injEq, List.take_succ_cons, List.take_zero]
    by_cases isEquals : next = Byte.equals
    · subst isEquals
      have closing : (cursor.advance 1).consume.2 = cursor.advance 2 := by
        rw [consume_eq opened_peek, advance_advance]
      cases Scan.mark? [first, Byte.equals] with
      | none =>
          cases Scan.mark? [first] with
          | none => exact unexpected_eq
          | some mark => rfl
      | some mark =>
          simp only [↓reduceIte, closing]
          rfl
    · have none : Scan.mark? [first, next] = none := by
        rw [Option.eq_none_iff_forall_ne_some]
        exact fun mark found => isEquals (Scan.eq_equals_of_mark? found)
      rw [if_neg isEquals, none]
      cases Scan.mark? [first] with
      | none => exact unexpected_eq
      | some mark => rfl

/-- The item at a mark. -/
theorem item_scans (marked : cursor.mark = cursor.position)
    (rest_eq : cursor.rest = first :: others) :
    cursor.Scans (cursor.item first) (.item first others) := by
  rw [item, Scan.item]
  split
  · rw [← rest_eq]
    exact word_scans marked
  · split
    · rw [← rest_eq]
      exact number_scans marked
    · split
      · rename_i isQuote
        exact string_scans marked (isQuote ▸ rest_eq)
      · exact punct_scans marked rest_eq

end Cursor

namespace Item

/-- Blanks in front of a text take part in none of its items. -/
theorem listFrom_blanks (offset : Nat) (text : Bytes) :
    listFrom offset 0 text = listFrom (offset + (text.takeWhile Byte.isBlank).length) 0
      (text.dropWhile Byte.isBlank) := by
  induction text generalizing offset with
  | nil => rfl
  | cons byte rest ih =>
      rw [List.takeWhile_cons, List.dropWhile_cons]
      split
      · rename_i isBlank
        rw [listFrom_of_isBlank isBlank, ih, List.length_cons, Nat.add_assoc, Nat.add_comm 1]
      · rfl

/-- The first item of a text without blanks in front, and the items behind it. -/
theorem listFrom_solid {first : Byte} (solid : first.isBlank = false) (offset : Nat)
    (others : Bytes) :
    listFrom offset 0 (first :: others) =
      ⟨.ofLength offset (Scan.item first others).length, (Scan.item first others).result⟩ ::
        listFrom (offset + (Scan.item first others).length) 0
          ((first :: others).drop (Scan.item first others).length) := by
  obtain ⟨length, length_eq⟩ :=
    Nat.exists_eq_add_one_of_ne_zero (Scan.length_item_pos first others).ne'
  rw [listFrom, if_neg (by simp [solid])]
  simp only [length_eq, Nat.add_sub_cancel]
  rw [listFrom_skip, List.drop_succ_cons, Nat.add_assoc, Nat.add_comm 1]

end Item

/-- What a lexer finds among some items does not depend on those that it had left. -/
theorem Lexer.nextOf_pending (lexer : Lexer) (pending items : List Item) :
    { lexer with pending := pending }.nextOf items = lexer.nextOf items := by
  induction items generalizing lexer with
  | nil => rfl
  | cons item items ih =>
      rw [nextOf, nextOf]
      cases item.result with
      | error misspelling =>
          exact ih { lexer with errors :=
            lexer.errors ++ [.ofMisspelling lexer.source item.span misspelling] }
      | ok lexeme => rfl

/-- A lexer that reads all its tokens reads the next one, and then all others. -/
theorem Lexer.tokenize_eq_next (lexer : Lexer) :
    lexer.tokenize =
      match lexer.next with
      | (none, last) => ([], last)
      | (some token, later) => (token :: later.tokenize.1, later.tokenize.2) := by
  rw [tokenize, next]
  rcases lexer.nextOf_cases lexer.pending with
    ⟨ended, none⟩ | ⟨front, item, back, token, pending_eq, _, tokens_eq, found⟩
  · rw [ended, ← none]
  · rw [found, pending_eq, ← List.singleton_append, ← List.append_assoc, tokensOf_append, tokens_eq]
    exact congrArg (fun read : List Token × Lexer => (token :: read.1, read.2))
      (tokensOf_pending _ back back).symm

namespace Scanner

variable {scanner : Scanner} {lexer : Lexer}

/-- A scanner follows a lexer if the items that it would find are those that the lexer has left. -/
structure Follows (scanner : Scanner) (lexer : Lexer) : Prop where
  source_eq : scanner.cursor.source = lexer.source
  pending_eq : lexer.pending = Item.listFrom scanner.cursor.position 0 scanner.cursor.rest
  interner_eq : scanner.interner = lexer.interner
  errors_eq : scanner.errors = lexer.errors

namespace Follows

theorem start (source : SourceId) (text : Bytes) (interner : Interner) :
    (ofText source text interner).Follows (.ofText source text interner) :=
  ⟨rfl, rfl, rfl, rfl⟩

/-- The item that a scanner finds is the first one that the lexer has left. -/
theorem exists_pending (follows : scanner.Follows lexer) {first : Byte}
    (coming : (scanner.cursor.eatWhile Byte.isBlank).peek = some first) :
    ∃ item back behind, lexer.pending = item :: back ∧
      (scanner.cursor.eatWhile Byte.isBlank).setMark.item first =
        (item.result.mapError (.ofMisspelling lexer.source item.span), behind) ∧
      behind.source = lexer.source ∧ behind.span = item.span ∧
      back = Item.listFrom behind.position 0 behind.rest := by
  have blanks := List.takeWhile_append_dropWhile (p := Byte.isBlank) (l := scanner.cursor.rest)
  have cursor_rest : (scanner.cursor.eatWhile Byte.isBlank).rest =
      scanner.cursor.rest.dropWhile Byte.isBlank := Cursor.rest_advance_of_append blanks rfl
  have pending_eq := follows.pending_eq
  rw [Item.listFrom_blanks, ← cursor_rest] at pending_eq
  change _ = Item.listFrom (scanner.cursor.eatWhile Byte.isBlank).position 0 _ at pending_eq
  have source_eq : (scanner.cursor.eatWhile Byte.isBlank).source = lexer.source :=
    follows.source_eq
  have solid := Bytes.head_dropWhile Byte.isBlank scanner.cursor.rest first
  rw [← cursor_rest] at solid
  generalize scanner.cursor.eatWhile Byte.isBlank = cursor at *
  rw [Cursor.peek_eq_head?] at coming
  rcases rest_eq : cursor.rest with _ | ⟨byte, others⟩
  · simp [rest_eq] at coming
  · obtain rfl : byte = first := by simpa [rest_eq] using coming
    rw [rest_eq, Item.listFrom_solid (solid coming)] at pending_eq
    have found : cursor.setMark.Scans (cursor.setMark.item byte) (.item byte others) :=
      Cursor.item_scans rfl rest_eq
    rw [Cursor.Scans, Cursor.settle_advance rfl] at found
    refine ⟨_, _, cursor.setMark.advance _, pending_eq, source_eq ▸ found, source_eq, rfl, ?_⟩
    rw [Cursor.rest_advance, ← rest_eq]
    rfl

/-- Where a scanner finds nothing but blanks, the lexer has no items left. -/
theorem pending_eq_nil (follows : scanner.Follows lexer)
    (exhausted : (scanner.cursor.eatWhile Byte.isBlank).peek = none) :
    lexer.pending = [] ∧ (scanner.cursor.eatWhile Byte.isBlank).rest = [] := by
  have rest_eq : (scanner.cursor.eatWhile Byte.isBlank).rest = [] := by
    rwa [Cursor.peek_eq_head?, List.head?_eq_none_iff] at exhausted
  refine ⟨?_, rest_eq⟩
  rw [follows.pending_eq, Item.listFrom_blanks,
    ← Cursor.rest_advance_of_append List.takeWhile_append_dropWhile rfl]
  exact congrArg (Item.listFrom _ 0) rest_eq

/-- A scanner and the lexer that it follows find the same token, and the one goes on to follow. -/
theorem next (follows : scanner.Follows lexer) :
    scanner.next.1 = lexer.next.1 ∧ scanner.next.2.Follows lexer.next.2 := by
  fun_induction Scanner.next scanner generalizing lexer with
  | case1 scanner cursor =>
      rename_i exhausted
      rcases follows.pending_eq_nil exhausted with ⟨pending_eq, rest_eq⟩
      rw [Lexer.next, pending_eq]
      refine ⟨rfl, follows.source_eq, ?_, follows.interner_eq, follows.errors_eq⟩
      exact (congrArg (Item.listFrom _ 0) rest_eq).symm
  | case2 scanner cursor first coming lexeme behind found key interner =>
      rename_i interned
      rcases follows.exists_pending coming with
        ⟨⟨span, misspelling | lexeme⟩, back, _, pending_eq, found_eq, source_eq, span_eq, back_eq⟩
      · cases found.symm.trans found_eq
      · cases found.symm.trans found_eq
        rw [follows.interner_eq] at interned
        simp only [Lexer.next, pending_eq, Lexer.nextOf, interned]
        exact ⟨by rw [span_eq], source_eq, back_eq, rfl, follows.errors_eq⟩
  | case3 scanner cursor first coming error behind found =>
      rename_i ih
      rcases follows.exists_pending coming with
        ⟨⟨span, misspelling | lexeme⟩, back, _, pending_eq, found_eq, source_eq, span_eq, back_eq⟩
      · cases found.symm.trans found_eq
        let later : Lexer := { lexer with
          pending := back
          errors := lexer.errors ++ [.ofMisspelling lexer.source span misspelling] }
        have next_eq : lexer.next = later.next := by
          rw [Lexer.next, Lexer.next, pending_eq, Lexer.nextOf]
          exact (Lexer.nextOf_pending _ back back).symm
        rw [next_eq]
        exact ih ⟨source_eq, back_eq, follows.interner_eq, by rw [follows.errors_eq]⟩
      · cases found.symm.trans found_eq

theorem tokenize (follows : scanner.Follows lexer) :
    scanner.tokenize.1 = lexer.tokenize.1 ∧ scanner.tokenize.2.Follows lexer.tokenize.2 := by
  fun_induction Scanner.tokenize scanner generalizing lexer with
  | case1 scanner last found =>
      have next := follows.next
      rw [lexer.tokenize_eq_next]
      rw [found] at next
      rcases lexer_next : lexer.next with ⟨token, later⟩
      rw [lexer_next] at next
      cases next.1
      exact ⟨rfl, next.2⟩
  | case2 scanner token later found tokens last others ih =>
      have next := follows.next
      rw [lexer.tokenize_eq_next]
      rw [found] at next
      rcases lexer_next : lexer.next with ⟨_, lexer_later⟩
      rw [lexer_next] at next
      cases next.1
      have rest := ih next.2
      rw [others] at rest
      exact ⟨congrArg _ rest.1, rest.2⟩

end Follows

/-- The answer to a call, and the scanner behind it. -/
def answer (scanner : Scanner) : Lexer.Call → Lexer.Answer × Scanner
  | .next => (.next scanner.next.1, scanner.next.2)
  | .tokenize => (.tokenize scanner.tokenize.1, scanner.tokenize.2)
  | .errors => (.errors scanner.errors, scanner)
  | .takeErrors => (.takeErrors scanner.takeErrors.1, scanner.takeErrors.2)

/-- The answers to calls one after the other, and the scanner behind all of them. -/
def answers (scanner : Scanner) : List Lexer.Call → List Lexer.Answer × Scanner
  | [] => ([], scanner)
  | call :: calls =>
      let (first, scanner) := scanner.answer call
      let (others, scanner) := scanner.answers calls
      (first :: others, scanner)

theorem Follows.answer (follows : scanner.Follows lexer) (call : Lexer.Call) :
    (scanner.answer call).1 = (lexer.answer call).1 ∧
      (scanner.answer call).2.Follows (lexer.answer call).2 := by
  cases call with
  | next => exact ⟨congrArg _ follows.next.1, follows.next.2⟩
  | tokenize => exact ⟨congrArg _ follows.tokenize.1, follows.tokenize.2⟩
  | errors => exact ⟨congrArg _ follows.errors_eq, follows⟩
  | takeErrors =>
      exact ⟨congrArg _ follows.errors_eq, follows.source_eq, follows.pending_eq,
        follows.interner_eq, rfl⟩

theorem Follows.answers (follows : scanner.Follows lexer) (calls : List Lexer.Call) :
    (scanner.answers calls).1 = (lexer.answers calls).1 ∧
      (scanner.answers calls).2.Follows (lexer.answers calls).2 := by
  induction calls generalizing scanner lexer with
  | nil => exact ⟨rfl, follows⟩
  | cons call calls ih =>
      rcases follows.answer call with ⟨first_eq, behind⟩
      rcases ih behind with ⟨others_eq, last⟩
      exact ⟨congrArg₂ _ first_eq others_eq, last⟩

/--
Reading a text with a cursor gives what a lexer gives that has the items of the text laid out. To any
calls both answer alike, and at any time what the lexer has left are the items of those bytes of the
text that the cursor has not passed by, whatever it has read before them.
-/
theorem answers_eq (source : SourceId) (text : Bytes) (interner : Interner)
    (calls : List Lexer.Call) :
    let scanned := (ofText source text interner).answers calls
    let laid := (Lexer.ofText source text interner).answers calls
    scanned.1 = laid.1 ∧ scanned.2.interner = laid.2.interner ∧
      scanned.2.errors = laid.2.errors ∧
      laid.2.pending = Item.listFrom scanned.2.cursor.position 0 scanned.2.cursor.rest := by
  intro scanned laid
  rcases (Follows.start source text interner).answers calls with ⟨answers_eq, follows⟩
  exact ⟨answers_eq, follows.interner_eq, follows.errors_eq, follows.pending_eq⟩

end Scanner

end TypedLang
