import TypedLang.Proofs.Token.Reading
import TypedLang.Proofs.Token.Seams

/-!
# Calls on a lexer

A lexer is asked for its next token or for all that are left, and for the errors that it has
collected, which it shows or gives away. Whatever the order of the calls, at any time the lexer has
read some items at the front of the text, and what was got from it are the tokens and the errors of
these items. So all histories of calls are readings of one sequence of tokens and one of errors, and
differ only in how far they got.
-/

namespace TypedLang

namespace Item

/-- What is left behind an item are the items of the text behind it. -/
theorem listFrom_behind : (offset skip : Nat) → (text : Bytes) → {front back : List Item} →
    {item : Item} → listFrom offset skip text = front ++ item :: back →
      offset ≤ item.span.stop ∧
        back = listFrom item.span.stop 0 (text.drop (item.span.stop - offset))
  | _, _, [], front, back, item, split => by simp [listFrom] at split
  | offset, skip + 1, byte :: rest, front, back, item, split => by
      rcases listFrom_behind (offset + 1) skip rest split with ⟨le, back_eq⟩
      have further : item.span.stop - offset = item.span.stop - (offset + 1) + 1 := by omega
      exact ⟨Nat.le_of_succ_le le, by rw [further, List.drop_succ_cons]; exact back_eq⟩
  | offset, 0, byte :: rest, front, back, item, split => by
      have later : ∀ {skip : Nat} {before : List Item},
          listFrom (offset + 1) skip rest = before ++ item :: back → offset ≤ item.span.stop ∧
            back = listFrom item.span.stop 0 ((byte :: rest).drop (item.span.stop - offset)) := by
        intro skip before others
        rcases listFrom_behind (offset + 1) skip rest others with ⟨le, back_eq⟩
        have further : item.span.stop - offset = item.span.stop - (offset + 1) + 1 := by omega
        exact ⟨Nat.le_of_succ_le le, by rw [further, List.drop_succ_cons]; exact back_eq⟩
      rw [listFrom] at split
      split at split
      · exact later split
      · rcases front with _ | ⟨first, front⟩
        · have positive := Scan.length_item_pos byte rest
          rw [List.nil_append, List.cons.injEq] at split
          rcases split with ⟨rfl, rfl⟩
          refine ⟨Nat.le_add_right _ _, ?_⟩
          simp only [Span.ofLength, Nat.add_sub_cancel_left]
          obtain ⟨length, length_eq⟩ := Nat.exists_eq_add_one_of_ne_zero positive.ne'
          rw [length_eq, List.drop_succ_cons, Nat.add_sub_cancel, listFrom_skip,
            Nat.add_assoc, Nat.add_comm 1]
        · rw [List.cons_append, List.cons.injEq] at split
          exact later split.2

/--
An offset parts the items of a text: the first ones end at the offset or before it, and the others
are the items of the text from the offset on.
-/
structure Parts (text : Bytes) (offset : Nat) (front back : List Item) : Prop where
  list_eq : list text = front ++ back
  stop_le : ∀ item ∈ front, item.span.stop ≤ offset
  back_eq : back = listFrom offset 0 (text.drop offset)

namespace Parts

theorem start (text : Bytes) : Parts text 0 [] (list text) :=
  ⟨rfl, by simp, rfl⟩

theorem finish (text : Bytes) : Parts text text.length (list text) [] where
  list_eq := (List.append_nil _).symm
  stop_le _ member := (tiles_list text).stop_le member
  back_eq := by rw [List.drop_length, listFrom]

/-- Every item ends at an offset that parts the text. -/
theorem behind {text : Bytes} {front back : List Item} {item : Item}
    (split : list text = front ++ item :: back) :
    Parts text item.span.stop (front ++ [item]) back where
  list_eq := by rw [split, List.append_assoc, List.singleton_append]
  stop_le other member := by
    have ascending := ascending_listFrom 0 0 text
    change Span.Ascending ((list text).map Item.span) at ascending
    rw [split, List.map_append, List.map_cons] at ascending
    rcases List.mem_append.mp member with before | same
    · have ordered := (List.pairwise_append.mp ascending.ascending).2.2 other.span
        (List.mem_map_of_mem before) item.span List.mem_cons_self
      exact Nat.le_trans ordered item.span.start_le_stop
    · rw [List.mem_singleton.mp same]
  back_eq := (listFrom_behind 0 0 text split).2

/-- The errors of a text that end before an offset are those of the items in front of it. -/
theorem filter_errors {text : Bytes} {offset : Nat} {front back : List Item}
    (parts : Parts text offset front back) (source : SourceId) :
    ((list text).filterMap (error? source)).filter (fun error => error.span.stop ≤ offset) =
      front.filterMap (error? source) := by
  rw [parts.list_eq, List.filterMap_append, List.filter_append, List.filter_eq_self.mpr,
    List.filter_eq_nil_iff.mpr, List.append_nil]
  · intro error member ends
    rcases List.mem_filterMap.mp member with ⟨item, itemMem, found⟩
    rcases error?_eq_some_iff.mp found with ⟨misspelling, _, rfl⟩
    have stop_le : item.span.stop ≤ offset := of_decide_eq_true ends
    rw [parts.back_eq] at itemMem
    have starts := le_start_of_mem offset 0 (text.drop offset) item itemMem
    have nonempty := (ascending_listFrom offset 0 (text.drop offset)).nonempty item.span
      (List.mem_map_of_mem itemMem)
    omega
  · intro error member
    rcases List.mem_filterMap.mp member with ⟨item, itemMem, found⟩
    rcases error?_eq_some_iff.mp found with ⟨misspelling, _, rfl⟩
    exact decide_eq_true (parts.stop_le item itemMem)

end Parts

end Item

namespace Lexer

/-- What a lexer may be asked for. -/
inductive Call where
  | next | tokenize | errors | takeErrors
  deriving Repr, DecidableEq

/-- What a lexer gives to a call. -/
inductive Answer where
  | next (token : Option Token)
  | tokenize (tokens : List Token)
  | errors (errors : List LexicalError)
  | takeErrors (errors : List LexicalError)
  deriving Repr, DecidableEq

namespace Answer

/-- The tokens that an answer hands out. -/
def tokens : Answer → List Token
  | .next token => token.toList
  | .tokenize tokens => tokens
  | .errors _ => []
  | .takeErrors _ => []

/-- The errors that an answer takes away from the lexer. -/
def taken : Answer → List LexicalError
  | .next _ => []
  | .tokenize _ => []
  | .errors _ => []
  | .takeErrors taken => taken

/-- Whether an answer tells that the text is exhausted. -/
def isLast : Answer → Bool
  | .next token => token.isNone
  | .tokenize _ => true
  | .errors _ => false
  | .takeErrors _ => false

/--
The offset that the lexer of a text has reached with an answer: the end of the token that was handed
out last, or the end of the text once there are no more.
-/
def position (text : Bytes) (before : Nat) : Answer → Nat
  | .next (some token) => token.span.stop
  | .next none => text.length
  | .tokenize _ => text.length
  | .errors _ => before
  | .takeErrors _ => before

end Answer

/-- The answer to a call, and the lexer behind it. -/
def answer (lexer : Lexer) : Call → Answer × Lexer
  | .next => (.next lexer.next.1, lexer.next.2)
  | .tokenize => (.tokenize lexer.tokenize.1, lexer.tokenize.2)
  | .errors => (.errors lexer.errors, lexer)
  | .takeErrors => (.takeErrors lexer.takeErrors.1, lexer.takeErrors.2)

/-- The answers to calls one after the other, and the lexer behind all of them. -/
def answers (lexer : Lexer) : List Call → List Answer × Lexer
  | [] => ([], lexer)
  | call :: calls =>
      let (first, lexer) := lexer.answer call
      let (others, lexer) := lexer.answers calls
      (first :: others, lexer)

/-- All tokens that some answers hand out. -/
def handedOut (answers : List Answer) : List Token :=
  answers.flatMap Answer.tokens

/-- All errors that some answers take away. -/
def takenAway (answers : List Answer) : List LexicalError :=
  answers.flatMap Answer.taken

/-- The offset that the lexer of a text has reached after some answers. -/
def positionAfter (text : Bytes) (answers : List Answer) : Nat :=
  answers.foldl (Answer.position text) 0

/--
The next token is the first of some items, and the lexer behind it has read the items up to it. If
there is none, the lexer has read all items.
-/
theorem nextOf_cases (lexer : Lexer) (items : List Item) :
    (lexer.nextOf items = (none, (lexer.tokensOf items).2) ∧ (lexer.tokensOf items).1 = []) ∨
      ∃ front item back token, items = front ++ item :: back ∧ token.span = item.span ∧
        (lexer.tokensOf (front ++ [item])).1 = [token] ∧
        lexer.nextOf items =
          (some token, { (lexer.tokensOf (front ++ [item])).2 with pending := back }) := by
  induction items generalizing lexer with
  | nil => exact .inl ⟨rfl, rfl⟩
  | cons item items ih =>
      rcases result_eq : item.result with misspelling | lexeme
      · let next : Lexer := { lexer with errors := lexer.errors ++
          [LexicalError.ofMisspelling lexer.source item.span misspelling] }
        have skips : ∀ others, lexer.tokensOf (item :: others) = next.tokensOf others := by
          intro others
          rw [tokensOf, result_eq]
        have nextOf_eq : lexer.nextOf (item :: items) = next.nextOf items := by
          rw [nextOf, result_eq]
        rw [nextOf_eq, skips]
        rcases ih next with ended | ⟨front, found, back, token, rfl, span_eq, tokens_eq, next_eq⟩
        · exact .inl ended
        · exact .inr ⟨item :: front, found, back, token, rfl, span_eq,
            by rw [List.cons_append, skips, tokens_eq], by rw [List.cons_append, skips, next_eq]⟩
      · refine .inr ⟨[], item, items, ⟨(lexeme.intern lexer.interner).1, item.span⟩, rfl, rfl,
          ?_, ?_⟩
        · simp only [List.nil_append, tokensOf, result_eq]
        · simp only [List.nil_append, tokensOf, nextOf, result_eq]

/--
What is known of a lexer of a text after some calls: the items in front of the offset that it has
reached are read, and their tokens and errors are what was handed out and what was taken away or is
still collected.
-/
structure Progress (source : SourceId) (text : Bytes) (interner : Interner) (position : Nat)
    (tokens : List Token) (taken : List LexicalError) (lexer : Lexer) (front : List Item) :
    Prop where
  parts : Item.Parts text position front lexer.pending
  source_eq : lexer.source = source
  tokens_eq : tokens = ((ofText source text interner).tokensOf front).1
  interner_eq : lexer.interner = ((ofText source text interner).tokensOf front).2.interner
  errors_eq : taken ++ lexer.errors = front.filterMap (Item.error? source)

namespace Progress

variable {source : SourceId} {text : Bytes} {interner : Interner} {position : Nat}
  {tokens : List Token} {taken : List LexicalError} {lexer : Lexer} {front : List Item}

theorem start (source : SourceId) (text : Bytes) (interner : Interner) :
    Progress source text interner 0 [] [] (ofText source text interner) [] :=
  ⟨.start text, rfl, rfl, rfl, rfl⟩

/-- A lexer that reads more items gets on by their tokens and errors. -/
theorem read (progress : Progress source text interner position tokens taken lexer front)
    {more back : List Item} {reached : Nat}
    (parts : Item.Parts text reached (front ++ more) back) :
    Progress source text interner reached (tokens ++ (lexer.tokensOf more).1) taken
      { (lexer.tokensOf more).2 with pending := back } (front ++ more) := by
  have same := tokensOf_congr progress.interner_eq more
  refine ⟨parts, ?source, ?tokens, ?interner, ?errors⟩
  case source => rw [tokensOf_eq_mk, progress.source_eq]
  case tokens => rw [tokensOf_append, progress.tokens_eq, same.1]
  case interner => rw [tokensOf_append, same.2]
  case errors =>
    rw [errors_tokensOf, progress.source_eq, ← List.append_assoc, progress.errors_eq,
      List.filterMap_append]

/-- Every call goes on with the items where the calls before it stopped. -/
theorem answer (progress : Progress source text interner position tokens taken lexer front)
    (call : Call) : ∃ further,
      Progress source text interner ((lexer.answer call).1.position text position)
        (tokens ++ (lexer.answer call).1.tokens) (taken ++ (lexer.answer call).1.taken)
        (lexer.answer call).2 further := by
  have toEnd : Item.Parts text text.length (front ++ lexer.pending) [] := by
    rw [← progress.parts.list_eq]
    exact .finish text
  have pending_nil : (lexer.tokensOf lexer.pending).2.pending = [] := by
    rw [tokensOf_eq_mk]
  cases call with
  | next =>
      rw [Lexer.answer, next]
      rcases lexer.nextOf_cases lexer.pending with
        ⟨ended, none⟩ | ⟨items, item, back, token, pending_eq, span_eq, tokens_eq, found⟩
      · have whole := progress.read toEnd
        rw [none, ← pending_nil] at whole
        rw [ended]
        exact ⟨_, by simpa [Answer.tokens, Answer.taken, Answer.position] using whole⟩
      · have split := progress.parts.list_eq
        rw [pending_eq, ← List.append_assoc] at split
        have further := progress.read (by simpa using Item.Parts.behind split)
        rw [tokens_eq, ← span_eq] at further
        rw [found]
        exact ⟨_, by simpa [Answer.tokens, Answer.taken, Answer.position] using further⟩
  | tokenize =>
      have whole := progress.read toEnd
      rw [← pending_nil] at whole
      refine ⟨front ++ lexer.pending, ?_⟩
      simpa [Lexer.answer, tokenize, Answer.tokens, Answer.taken, Answer.position] using whole
  | errors =>
      exact ⟨front, by simpa [Lexer.answer, Answer.tokens, Answer.taken, Answer.position]
        using progress⟩
  | takeErrors =>
      refine ⟨front, progress.parts, progress.source_eq, ?_, progress.interner_eq, ?_⟩
      · simpa [Lexer.answer, Answer.tokens] using progress.tokens_eq
      · simpa [Lexer.answer, Answer.taken, Lexer.takeErrors] using progress.errors_eq

/-- Any number of calls go on with the items where the calls before them stopped. -/
theorem answers (progress : Progress source text interner position tokens taken lexer front)
    (calls : List Call) : ∃ further,
      Progress source text interner ((lexer.answers calls).1.foldl (Answer.position text) position)
        (tokens ++ handedOut (lexer.answers calls).1) (taken ++ takenAway (lexer.answers calls).1)
        (lexer.answers calls).2 further := by
  induction calls generalizing position tokens taken lexer front with
  | nil => exact ⟨front, by simpa [Lexer.answers, handedOut, takenAway] using progress⟩
  | cons call calls ih =>
      rcases progress.answer call with ⟨further, next⟩
      rcases ih next with ⟨last, others⟩
      exact ⟨last, by simpa [Lexer.answers, handedOut, takenAway] using others⟩

/-- What was handed out and taken away is a front of what a reading of the whole text gives. -/
theorem prefixes (progress : Progress source text interner position tokens taken lexer front) :
    tokens <+: (ofText source text interner).tokenize.1 ∧
      taken ++ lexer.errors <+: (ofText source text interner).tokenize.2.errors := by
  have whole : (ofText source text interner).tokenize =
      (ofText source text interner).tokensOf (front ++ lexer.pending) := by
    rw [← progress.parts.list_eq]
    rfl
  rw [whole, errors_tokensOf, List.filterMap_append, progress.errors_eq, progress.tokens_eq,
    tokensOf_append]
  exact ⟨List.prefix_append _ _, List.prefix_append _ _⟩

theorem of_exhausted (progress : Progress source text interner position tokens taken lexer front)
    (exhausted : lexer.pending = []) :
    tokens = (ofText source text interner).tokenize.1 ∧
      lexer.interner = (ofText source text interner).tokenize.2.interner := by
  have whole : Item.list text = front := by
    rw [progress.parts.list_eq, exhausted, List.append_nil]
  rw [progress.tokens_eq, progress.interner_eq, ← whole]
  exact ⟨rfl, rfl⟩

end Progress

theorem pending_answer_of_isLast {lexer : Lexer} {call : Call}
    (isLast : (lexer.answer call).1.isLast) : (lexer.answer call).2.pending = [] := by
  cases call with
  | next =>
      rw [answer, next] at isLast ⊢
      rcases lexer.nextOf_cases lexer.pending with
        ⟨ended, _⟩ | ⟨items, item, back, token, _, _, _, found⟩
      · rw [ended, tokensOf_eq_mk]
      · rw [found] at isLast
        cases isLast
  | tokenize => rw [answer, tokenize, tokensOf_eq_mk]
  | errors => cases isLast
  | takeErrors => cases isLast

theorem answer_of_exhausted {lexer : Lexer} (exhausted : lexer.pending = []) (call : Call) :
    (lexer.answer call).1.tokens = [] ∧ (lexer.answer call).2.pending = [] := by
  cases call with
  | next => simp [answer, next, exhausted, nextOf, Answer.tokens]
  | tokenize => simp [answer, tokenize, exhausted, tokensOf, Answer.tokens]
  | errors => exact ⟨rfl, exhausted⟩
  | takeErrors => exact ⟨rfl, exhausted⟩

/-- A lexer that has reached the end of its text hands out no more tokens. -/
theorem answers_of_exhausted {lexer : Lexer} (exhausted : lexer.pending = []) (calls : List Call) :
    handedOut (lexer.answers calls).1 = [] ∧ (lexer.answers calls).2.pending = [] := by
  induction calls generalizing lexer with
  | nil => exact ⟨rfl, exhausted⟩
  | cons call calls ih =>
      rcases answer_of_exhausted exhausted call with ⟨none, still⟩
      rcases ih still with ⟨others, last⟩
      exact ⟨by simpa [answers, handedOut, none] using others, last⟩

theorem pending_answers_of_isLast {lexer : Lexer} {calls : List Call}
    (isLast : ∃ given ∈ (lexer.answers calls).1, given.isLast) :
    (lexer.answers calls).2.pending = [] := by
  induction calls generalizing lexer with
  | nil => simp [answers] at isLast
  | cons call calls ih =>
      rcases isLast with ⟨given, member, given_isLast⟩
      rcases List.mem_cons.mp member with rfl | member
      · exact (answers_of_exhausted (pending_answer_of_isLast given_isLast) calls).2
      · exact ih ⟨given, member, given_isLast⟩

/--
Asking a lexer piece by piece and reading its text at once agree, whatever the order of the calls.
The tokens handed out so far are a front of all tokens; they are all of them, and no more ever come,
once the text turned out to be exhausted. The errors taken away and those still collected are
together the errors in front of the offset that the lexer has reached, each one once and in order.
-/
theorem answers_agree (source : SourceId) (text : Bytes) (interner : Interner)
    (calls : List Call) :
    let fresh := (ofText source text interner).tokenize
    let given := ((ofText source text interner).answers calls).1
    let lexer := ((ofText source text interner).answers calls).2
    let position := positionAfter text given
    handedOut given <+: fresh.1 ∧
      ((∃ answer ∈ given, answer.isLast) → handedOut given = fresh.1 ∧
        lexer.interner = fresh.2.interner ∧ ∀ more, handedOut (lexer.answers more).1 = []) ∧
      takenAway given ++ lexer.errors <+: fresh.2.errors ∧
      takenAway given ++ lexer.errors =
        fresh.2.errors.filter (fun error => error.span.stop ≤ position) ∧
      lexer.pending = Item.listFrom position 0 (text.drop position) := by
  intro fresh given lexer position
  rcases (Progress.start source text interner).answers calls with ⟨front, progress⟩
  rw [List.nil_append, List.nil_append] at progress
  refine ⟨progress.prefixes.1, ?last, progress.prefixes.2, ?errors, progress.parts.back_eq⟩
  case last =>
    intro isLast
    have exhausted := pending_answers_of_isLast isLast
    rcases progress.of_exhausted exhausted with ⟨tokens_eq, interner_eq⟩
    exact ⟨tokens_eq, interner_eq, fun more => (answers_of_exhausted exhausted more).1⟩
  case errors =>
    have errors_eq : fresh.2.errors = (Item.list text).filterMap (Item.error? source) :=
      errors_tokensOf (ofText source text interner) (Item.list text)
    rw [errors_eq]
    exact progress.errors_eq.trans (progress.parts.filter_errors source).symm

end Lexer

end TypedLang
