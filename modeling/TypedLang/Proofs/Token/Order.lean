import TypedLang.Token.Lexer

/-!
# Order of tokens

Every token holds at least one byte, and the tokens of a text stand one behind the other. So two
stretches of tokens with a token between them never touch. Every token takes at most one new key, so
there are no more keys than bytes.
-/

namespace TypedLang

/-- Spans that hold at least one byte each and stand one behind the other. -/
structure Span.Ascending (spans : List Span) : Prop where
  nonempty : ∀ span ∈ spans, span.start < span.stop
  ascending : spans.Pairwise fun span later => span.stop ≤ later.start

theorem Span.Ascending.sublist {spans others : List Span} (ascending : Ascending spans)
    (sublist : others.Sublist spans) : Ascending others where
  nonempty := fun span member => ascending.nonempty span (sublist.subset member)
  ascending := ascending.ascending.sublist sublist

namespace Scan

theorem length_word_pos {first : Byte} (isLetter : first.isLetter) (rest : Bytes) :
    0 < (word (first :: rest)).length := by
  simp [word, Byte.continuesName, isLetter]

theorem length_number_pos {first : Byte} (isDigit : first.isDigit) (rest : Bytes) :
    0 < (number (first :: rest)).length := by
  have whole : 0 < ((first :: rest).takeWhile Byte.isDigit).length := by
    simp [isDigit]
  simp only [number]
  split
  · exact whole
  · split
    · exact Nat.add_pos_left (Nat.succ_pos _) _
    · exact whole

theorem length_punct_pos (first : Byte) (rest : Bytes) : 0 < (punct first rest).length := by
  rw [punct]
  split
  · simp
  · split
    · simp
    · simp only [unexpected]
      omega

/-- An item takes at least the byte with which it starts. -/
theorem length_item_pos (first : Byte) (rest : Bytes) : 0 < (item first rest).length := by
  rw [item]
  split
  · exact length_word_pos ‹_› rest
  · split
    · exact length_number_pos ‹_› rest
    · split
      · rw [string]
        split
        · exact Nat.succ_pos _
        · exact Nat.succ_pos _
      · exact length_punct_pos first rest

end Scan

namespace Item

theorem le_start_of_mem : (offset skip : Nat) → (text : Bytes) →
    ∀ item ∈ listFrom offset skip text, offset + skip ≤ item.span.start
  | _, _, [] => by simp [listFrom]
  | offset, skip + 1, byte :: rest => by
      intro item member
      have later := le_start_of_mem (offset + 1) skip rest item member
      omega
  | offset, 0, byte :: rest => by
      intro item member
      rw [listFrom] at member
      split at member
      · have later := le_start_of_mem (offset + 1) 0 rest item member
        omega
      · rcases List.mem_cons.mp member with rfl | member
        · exact Nat.le_refl offset
        · have later := le_start_of_mem (offset + 1) _ rest item member
          omega

/-- The items of a text stand one behind the other. -/
theorem ascending_listFrom : (offset skip : Nat) → (text : Bytes) →
    Span.Ascending ((listFrom offset skip text).map Item.span)
  | _, _, [] => ⟨by simp [listFrom], .nil⟩
  | offset, skip + 1, byte :: rest => ascending_listFrom (offset + 1) skip rest
  | offset, 0, byte :: rest => by
      rw [listFrom]
      split
      · exact ascending_listFrom (offset + 1) 0 rest
      · have positive := Scan.length_item_pos byte rest
        have others := ascending_listFrom (offset + 1) ((Scan.item byte rest).length - 1) rest
        have later := le_start_of_mem (offset + 1) ((Scan.item byte rest).length - 1) rest
        constructor
        · rw [List.map_cons, List.forall_mem_cons]
          refine ⟨?_, others.nonempty⟩
          simp only [Span.ofLength]
          omega
        · rw [List.map_cons, List.pairwise_cons]
          refine ⟨?_, others.ascending⟩
          intro span member
          rcases List.mem_map.mp member with ⟨item, itemMem, rfl⟩
          have behind := later item itemMem
          simp only [Span.ofLength]
          omega

theorem length_listFrom_le : (offset skip : Nat) → (text : Bytes) →
    (listFrom offset skip text).length ≤ text.length
  | _, _, [] => by simp [listFrom]
  | offset, skip + 1, byte :: rest => by
      have others := length_listFrom_le (offset + 1) skip rest
      exact Nat.le_succ_of_le others
  | offset, 0, byte :: rest => by
      rw [listFrom]
      split
      · have others := length_listFrom_le (offset + 1) 0 rest
        exact Nat.le_succ_of_le others
      · have others := length_listFrom_le (offset + 1) ((Scan.item byte rest).length - 1) rest
        exact Nat.succ_le_succ others

end Item

theorem Interner.size_le_intern (interner : Interner) (text : Bytes) :
    interner.size ≤ (interner.intern text).2.size ∧
      (interner.intern text).2.size ≤ interner.size + 1 := by
  rw [intern]
  split
  · exact ⟨Nat.le_refl _, Nat.le_succ _⟩
  · simp [size]

theorem Interner.intern_lt_size (interner : Interner) (text : Bytes) :
    (interner.intern text).1 < (interner.intern text).2.size := by
  rw [intern]
  split
  · rename_i key found
    have isIdx := List.idxOf?_eq_some_iff.mp found
    exact isIdx.1
  · simp [size]

theorem Lexeme.size_le_intern (interner : Interner) (lexeme : Lexeme Bytes) :
    interner.size ≤ (lexeme.intern interner).2.size ∧
      (lexeme.intern interner).2.size ≤ interner.size + 1 := by
  cases lexeme with
  | identifier text => exact interner.size_le_intern text
  | string text => exact interner.size_le_intern text
  | _ => exact ⟨Nat.le_refl _, Nat.le_succ _⟩

/-- The key of a name is known as soon as its token is handed out. -/
theorem Lexeme.lt_size_of_intern {interner : Interner} {lexeme : Lexeme Bytes} {key : Key}
    (interned : (lexeme.intern interner).1 = .identifier key) :
    key < (lexeme.intern interner).2.size := by
  cases lexeme with
  | identifier text =>
      cases interned
      exact interner.intern_lt_size text
  | _ => cases interned

/-- What is known of the tokens among some items and of the lexer behind them. -/
structure Lexer.Yields (lexer : Lexer) (items : List Item) (tokens : List Token) (final : Lexer) :
    Prop where
  spans : (tokens.map Token.span).Sublist (items.map Item.span)
  size_le : lexer.interner.size ≤ final.interner.size
  le_size : final.interner.size ≤ lexer.interner.size + items.length
  keys : ∀ token ∈ tokens, ∀ key, token.lexeme = .identifier key → key < final.interner.size
  errors : (∀ error ∈ lexer.errors, error.source = lexer.source) →
    ∀ error ∈ final.errors, error.source = lexer.source

theorem Lexer.tokensOf_yields : (lexer : Lexer) → (items : List Item) →
    lexer.Yields items (lexer.tokensOf items).1 (lexer.tokensOf items).2
  | lexer, [] => ⟨.slnil, Nat.le_refl _, Nat.le_refl _, by simp [tokensOf], fun known => known⟩
  | lexer, item :: rest => by
      rw [tokensOf]
      split
      · rename_i lexeme _
        have grows := lexeme.size_le_intern lexer.interner
        have others := tokensOf_yields { lexer with interner := (lexeme.intern lexer.interner).2 } rest
        refine ⟨others.spans.cons_cons _, ?_, ?_, ?_, others.errors⟩
        · exact Nat.le_trans grows.1 others.size_le
        · have bound := others.le_size
          simp only [List.length_cons] at bound ⊢
          omega
        · intro token member key key_eq
          rcases List.mem_cons.mp member with rfl | member
          · exact Nat.lt_of_lt_of_le (Lexeme.lt_size_of_intern key_eq) others.size_le
          · exact others.keys token member key key_eq
      · rename_i misspelling _
        have others := tokensOf_yields { lexer with errors := lexer.errors ++
          [LexicalError.ofMisspelling lexer.source item.span misspelling] } rest
        refine ⟨others.spans.cons _, others.size_le, ?_, others.keys, ?_⟩
        · have bound := others.le_size
          simp only [List.length_cons] at bound ⊢
          omega
        · intro known
          apply others.errors
          intro error member
          rcases List.mem_append.mp member with member | member
          · exact known error member
          · cases List.mem_singleton.mp member
            rfl

/-- The tokens of a text stand one behind the other. -/
theorem Lexer.ascending_tokenize (source : SourceId) (text : Bytes) (interner : Interner) :
    Span.Ascending (((ofText source text interner).tokenize).1.map Token.span) :=
  (Item.ascending_listFrom 0 0 text).sublist
    ((ofText source text interner).tokensOf_yields (Item.list text)).spans

end TypedLang
