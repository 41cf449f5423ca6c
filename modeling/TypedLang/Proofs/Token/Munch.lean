import TypedLang.Proofs.Token.Partition
import TypedLang.Proofs.Token.Scanning

/-!
# Maximal munch

The bytes of a token spell its lexeme, and no more bytes at its place form one. A token holds a key
where its lexeme holds a text; keys are only ever added, so in the end each of them stands for the
text that was seen when the token was handed out.
-/

namespace TypedLang

namespace Item

/-- An item is what the scanner finds at its place in a text that starts at an offset. -/
def IsScanned (offset : Nat) (text : Bytes) (item : Item) : Prop :=
  ∃ before first rest, text = before ++ first :: rest ∧
    item.span = .ofLength (offset + before.length) (Scan.item first rest).length ∧
    item.result = (Scan.item first rest).result

theorem IsScanned.cons {offset : Nat} {text : Bytes} {item : Item} (byte : Byte)
    (scanned : item.IsScanned (offset + 1) text) : item.IsScanned offset (byte :: text) := by
  rcases scanned with ⟨before, first, rest, rfl, span_eq, result_eq⟩
  refine ⟨byte :: before, first, rest, rfl, ?_, result_eq⟩
  rw [span_eq, List.length_cons, Nat.add_assoc, Nat.add_comm 1]

theorem isScanned_of_mem : (offset skip : Nat) → (text : Bytes) →
    ∀ item ∈ listFrom offset skip text, item.IsScanned offset text
  | _, _, [] => by simp [listFrom]
  | offset, skip + 1, byte :: rest => by
      intro item member
      exact .cons byte (isScanned_of_mem (offset + 1) skip rest item member)
  | offset, 0, byte :: rest => by
      intro item member
      rw [listFrom] at member
      split at member
      · exact .cons byte (isScanned_of_mem (offset + 1) 0 rest item member)
      · rcases List.mem_cons.mp member with rfl | member
        · exact ⟨[], byte, rest, rfl, rfl, rfl⟩
        · exact .cons byte (isScanned_of_mem (offset + 1) _ rest item member)

end Item

namespace Interner

theorem resolve_eq_ok_iff {interner : Interner} {key : Key} {text : Bytes} :
    interner.resolve key = .ok text ↔ interner.texts[key]? = some text := by
  rw [resolve]
  cases interner.texts[key]? <;> simp

theorem resolve_intern (interner : Interner) (text : Bytes) :
    (interner.intern text).2.resolve (interner.intern text).1 = .ok text := by
  rw [intern]
  split
  · rename_i key found
    rcases List.idxOf?_eq_some_iff.mp found with ⟨lt, isText, _⟩
    exact resolve_eq_ok_iff.mpr (List.getElem?_eq_some_iff.mpr ⟨lt, isText⟩)
  · exact resolve_eq_ok_iff.mpr List.getElem?_concat_length

theorem texts_intern (interner : Interner) (text : Bytes) :
    interner.texts <+: (interner.intern text).2.texts := by
  rw [intern]
  split
  · exact List.prefix_refl _
  · exact List.prefix_append _ _

/-- A key keeps its text when others are added. -/
theorem resolve_of_extends {interner later : Interner} (grown : interner.texts <+: later.texts)
    {key : Key} {text : Bytes} (resolved : interner.resolve key = .ok text) :
    later.resolve key = .ok text := by
  rw [resolve_eq_ok_iff] at resolved ⊢
  rcases grown with ⟨more, texts_eq⟩
  rw [← texts_eq, List.getElem?_append_left (List.getElem?_eq_some_iff.mp resolved).1, resolved]

end Interner

namespace Lexeme

/-- A lexeme with the texts of its keys. -/
def resolve (interner : Interner) : Lexeme Key → Except Fault (Lexeme Bytes)
  | identifier key => (interner.resolve key).map identifier
  | string key => (interner.resolve key).map string
  | integer value => .ok (integer value)
  | decimal value => .ok (decimal value)
  | boolean value => .ok (boolean value)
  | keyword word => .ok (keyword word)
  | typeName word => .ok (typeName word)
  | punct mark => .ok (punct mark)

theorem resolve_intern (interner : Interner) (lexeme : Lexeme Bytes) :
    (lexeme.intern interner).1.resolve (lexeme.intern interner).2 = .ok lexeme := by
  cases lexeme with
  | identifier text => exact congrArg (Except.map identifier) (interner.resolve_intern text)
  | string text => exact congrArg (Except.map string) (interner.resolve_intern text)
  | _ => rfl

theorem texts_intern (interner : Interner) (lexeme : Lexeme Bytes) :
    interner.texts <+: (lexeme.intern interner).2.texts := by
  cases lexeme with
  | identifier text => exact interner.texts_intern text
  | string text => exact interner.texts_intern text
  | _ => exact List.prefix_refl _

theorem resolve_of_extends {interner later : Interner} (grown : interner.texts <+: later.texts)
    {lexeme : Lexeme Key} {resolved : Lexeme Bytes}
    (isResolved : lexeme.resolve interner = .ok resolved) :
    lexeme.resolve later = .ok resolved := by
  cases lexeme with
  | identifier key | string key =>
      simp only [resolve] at isResolved ⊢
      cases key_eq : interner.resolve key with
      | error fault =>
          rw [key_eq] at isResolved
          cases isResolved
      | ok text =>
          rw [Interner.resolve_of_extends grown key_eq, ← key_eq]
          exact isResolved
  | _ => exact isResolved

end Lexeme

namespace Lexer

theorem texts_tokensOf (lexer : Lexer) (items : List Item) :
    lexer.interner.texts <+: (lexer.tokensOf items).2.interner.texts := by
  induction items generalizing lexer with
  | nil => exact List.prefix_refl _
  | cons item items ih =>
      rw [tokensOf]
      split
      · rename_i lexeme _
        have others := ih { lexer with interner := (lexeme.intern lexer.interner).2 }
        exact (lexeme.texts_intern lexer.interner).trans others
      · rename_i misspelling _
        exact ih { lexer with errors := lexer.errors ++
          [LexicalError.ofMisspelling lexer.source item.span misspelling] }

/-- A token is the lexeme of an item at its place, as far as the final keys tell. -/
theorem exists_of_mem_tokensOf (lexer : Lexer) (items : List Item) :
    ∀ token ∈ (lexer.tokensOf items).1, ∃ item ∈ items, ∃ lexeme,
      item.result = .ok lexeme ∧ token.span = item.span ∧
      token.lexeme.resolve (lexer.tokensOf items).2.interner = .ok lexeme := by
  induction items generalizing lexer with
  | nil => simp [tokensOf]
  | cons item items ih =>
      rw [tokensOf]
      split
      · rename_i lexeme result_eq
        intro token member
        rcases List.mem_cons.mp member with rfl | member
        · refine ⟨item, List.mem_cons_self, lexeme, result_eq, rfl, ?_⟩
          exact Lexeme.resolve_of_extends (texts_tokensOf _ items)
            (lexeme.resolve_intern lexer.interner)
        · rcases ih _ token member with ⟨other, otherMem, found⟩
          exact ⟨other, List.mem_cons_of_mem item otherMem, found⟩
      · intro token member
        rcases ih _ token member with ⟨other, otherMem, found⟩
        exact ⟨other, List.mem_cons_of_mem item otherMem, found⟩

/--
The bytes of each token spell its lexeme and no other. Nothing behind them continues it, and no more
of the text from there forms a lexeme of any kind. Where an error stands no lexeme does.
-/
theorem tokenize_munches (source : SourceId) (text : Bytes) (interner : Interner) :
    let tokens := ((ofText source text interner).tokenize).1
    let final := ((ofText source text interner).tokenize).2
    (∀ token ∈ tokens, ∃ before taken others lexeme, text = before ++ taken ++ others ∧
      token.span = .ofLength before.length taken.length ∧
      token.lexeme.resolve final.interner = .ok lexeme ∧
      (∀ other, Lexeme.Spelled taken other ↔ other = lexeme) ∧ lexeme.Ends others ∧
      ∀ more start, more <+: others → more ≠ [] → ¬ Bytes.Forms start (taken ++ more)) ∧
    ∀ error ∈ final.errors, ∃ before rest, text = before ++ rest ∧
      error.span.start = before.length ∧
      ∀ taken others lexeme, rest = taken ++ others → Lexeme.Spelled taken lexeme →
        ¬ lexeme.Ends others := by
  intro tokens final
  constructor
  · intro token member
    rcases exists_of_mem_tokensOf _ _ token member with
      ⟨item, itemMem, lexeme, result_eq, span_eq, resolved⟩
    rcases Item.isScanned_of_mem 0 0 text item itemMem with
      ⟨before, first, rest, rfl, itemSpan, scanned⟩
    rcases Scan.item_finds first rest lexeme (scanned.symm.trans result_eq) with
      ⟨taken, others, split, length_eq, spelled, ends⟩
    refine ⟨before, taken, others, lexeme, ?_, ?_, resolved, ?_, ends, ?_⟩
    · rw [split, List.append_assoc]
    · rw [span_eq, itemSpan, length_eq, Nat.zero_add]
    · intro other
      constructor
      · exact spelled.unique
      · rintro rfl
        exact spelled
    · intro more start ahead nonempty longer
      exact nonempty (spelled.longest ends ahead longer)
  · intro error member
    have sorted := sortedInto_tokensOf (ofText source text interner) rfl (Item.list text)
    rcases sorted.exists_of_mem_errors member with
      ⟨item, itemMem, misspelling, result_eq, rfl⟩
    rcases Item.isScanned_of_mem 0 0 text item itemMem with
      ⟨before, first, rest, rfl, itemSpan, scanned⟩
    refine ⟨before, first :: rest, rfl, ?_, ?_⟩
    · simp [LexicalError.ofMisspelling, itemSpan, Span.ofLength]
    · intro taken others lexeme split spelled ends
      rw [scanned, Scan.item_of_munch split ⟨spelled, ends⟩] at result_eq
      cases result_eq

end Lexer

end TypedLang
