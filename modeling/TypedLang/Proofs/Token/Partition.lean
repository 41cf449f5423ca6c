import TypedLang.Proofs.Token.Tiling

/-!
# Partition of a text

The lexer sorts the items of a text: those with a lexeme become tokens, the others errors, in the
order in which they stand. So the tokens and the errors share the text out among themselves. No two
of them hold the same byte, and what they leave over is blank.
-/

namespace TypedLang

theorem Lexeme.kind_intern (interner : Interner) (lexeme : Lexeme Bytes) :
    (lexeme.intern interner).1.kind = lexeme.kind := by
  cases lexeme <;> rfl

namespace Item

/-- The kind of the token that an item becomes, and its place. -/
def mark? (item : Item) : Option (TokenKind × Span) :=
  match item.result with
  | .ok lexeme => some (lexeme.kind, item.span)
  | .error _ => none

/-- The error that an item of a source becomes. -/
def error? (source : SourceId) (item : Item) : Option LexicalError :=
  match item.result with
  | .ok _ => none
  | .error misspelling => some (.ofMisspelling source item.span misspelling)

theorem mark?_eq_some_iff {item : Item} {mark : TokenKind × Span} :
    item.mark? = some mark ↔
      ∃ lexeme, item.result = .ok lexeme ∧ (lexeme.kind, item.span) = mark := by
  rw [mark?]
  rcases item.result with misspelling | lexeme
  · simp
  · simp

theorem error?_eq_some_iff {source : SourceId} {item : Item} {error : LexicalError} :
    item.error? source = some error ↔ ∃ misspelling, item.result = .error misspelling ∧
      LexicalError.ofMisspelling source item.span misspelling = error := by
  rw [error?]
  rcases item.result with misspelling | lexeme
  · simp
  · simp

/-- Items without errors are lexemes. -/
theorem exists_lexeme {source : SourceId} {items : List Item}
    (clean : items.filterMap (error? source) = []) :
    ∀ item ∈ items, ∃ lexeme, item.result = .ok lexeme := by
  intro item member
  have none := List.filterMap_eq_nil_iff.mp clean item member
  rcases result_eq : item.result with misspelling | lexeme
  · rw [error?, result_eq] at none
    cases none
  · exact ⟨lexeme, rfl⟩

/-- What is picked from items in order stands in ascending order as they do. -/
theorem ascending_filterMap {Picked : Type} {pick : Item → Option Picked} {place : Picked → Span}
    (places : ∀ item picked, pick item = some picked → place picked = item.span)
    {items : List Item} (ascending : Span.Ascending (items.map Item.span)) :
    Span.Ascending ((items.filterMap pick).map place) := by
  apply ascending.sublist
  clear ascending
  induction items with
  | nil => exact .slnil
  | cons item items recurse =>
      rw [List.filterMap_cons]
      split
      · exact recurse.cons _
      · rename_i picked found
        rw [List.map_cons, List.map_cons, places item picked found]
        exact recurse.cons_cons _

/-- Tokens and errors that come from some items of a source, either in order. -/
structure SortedInto (source : SourceId) (items : List Item) (tokens : List Token)
    (errors : List LexicalError) : Prop where
  marks : tokens.map (fun token => (token.kind, token.span)) = items.filterMap mark?
  errors_eq : errors = items.filterMap (error? source)

namespace SortedInto

section

variable {source : SourceId} {items : List Item} {tokens : List Token} {errors : List LexicalError}
  (sorted : SortedInto source items tokens errors)

include sorted

theorem exists_of_mem_tokens {token : Token} (member : token ∈ tokens) :
    ∃ item ∈ items, ∃ lexeme, item.result = .ok lexeme ∧ lexeme.kind = token.kind ∧
      item.span = token.span := by
  have marked := List.mem_map_of_mem (f := fun token => (token.kind, token.span)) member
  rw [sorted.marks] at marked
  rcases List.mem_filterMap.mp marked with ⟨item, itemMem, mark_eq⟩
  rcases mark?_eq_some_iff.mp mark_eq with ⟨lexeme, result_eq, pair_eq⟩
  rw [Prod.mk.injEq] at pair_eq
  exact ⟨item, itemMem, lexeme, result_eq, pair_eq⟩

theorem exists_of_mem_errors {error : LexicalError} (member : error ∈ errors) :
    ∃ item ∈ items, ∃ misspelling, item.result = .error misspelling ∧
      LexicalError.ofMisspelling source item.span misspelling = error := by
  rw [sorted.errors_eq] at member
  rcases List.mem_filterMap.mp member with ⟨item, itemMem, error_eq⟩
  exact ⟨item, itemMem, error?_eq_some_iff.mp error_eq⟩

theorem tokens_ascending (ascending : Span.Ascending (items.map Item.span)) :
    Span.Ascending (tokens.map Token.span) := by
  have places : ∀ item mark, mark? item = some mark → mark.2 = item.span := by
    intro item mark found
    rcases mark?_eq_some_iff.mp found with ⟨_, _, rfl⟩
    rfl
  have picked := ascending_filterMap places ascending
  rw [← sorted.marks, List.map_map] at picked
  exact picked

theorem errors_ascending (ascending : Span.Ascending (items.map Item.span)) :
    Span.Ascending (errors.map LexicalError.span) := by
  rw [sorted.errors_eq]
  apply ascending_filterMap _ ascending
  intro item error found
  rcases error?_eq_some_iff.mp found with ⟨_, _, rfl⟩
  rfl

theorem span_mem {item : Item} (member : item ∈ items) :
    item.span ∈ tokens.map Token.span ++ errors.map LexicalError.span := by
  apply List.mem_append.mpr
  rcases result_eq : item.result with misspelling | lexeme
  · right
    have found : error? source item = some _ :=
      error?_eq_some_iff.mpr ⟨misspelling, result_eq, rfl⟩
    rw [sorted.errors_eq]
    exact List.mem_map.mpr ⟨_, List.mem_filterMap.mpr ⟨item, member, found⟩, rfl⟩
  · left
    have found := mark?_eq_some_iff.mpr ⟨lexeme, result_eq, rfl⟩
    have marked := List.mem_filterMap.mpr ⟨item, member, found⟩
    rw [← sorted.marks] at marked
    rcases List.mem_map.mp marked with ⟨token, tokenMem, mark_eq⟩
    rw [Prod.mk.injEq] at mark_eq
    exact List.mem_map.mpr ⟨token, tokenMem, mark_eq.2⟩

theorem exists_of_mem_spans {span : Span}
    (member : span ∈ tokens.map Token.span ++ errors.map LexicalError.span) :
    ∃ item ∈ items, item.span = span := by
  rcases List.mem_append.mp member with member | member
  · rcases List.mem_map.mp member with ⟨token, tokenMem, rfl⟩
    rcases sorted.exists_of_mem_tokens tokenMem with ⟨item, itemMem, _, _, _, span_eq⟩
    exact ⟨item, itemMem, span_eq⟩
  · rcases List.mem_map.mp member with ⟨error, errorMem, rfl⟩
    rcases sorted.exists_of_mem_errors errorMem with ⟨item, itemMem, _, _, rfl⟩
    exact ⟨item, itemMem, rfl⟩

variable {text : Bytes} (tiles : Tiles 0 text items)

include tiles

/-- A token and an error come from two items, so one of them stands behind the other. -/
theorem token_ordered_error {token : Token} (tokenMem : token ∈ tokens) {error : LexicalError}
    (errorMem : error ∈ errors) :
    token.span.stop ≤ error.span.start ∨
      (error.span.stop ≤ token.span.start ∧ error.kind ≠ .unterminatedLiteral) := by
  rcases sorted.exists_of_mem_tokens tokenMem with ⟨left, leftMem, lexeme, isToken, _, left_eq⟩
  rcases sorted.exists_of_mem_errors errorMem with ⟨right, rightMem, misspelling, isError, rfl⟩
  have differ : left ≠ right := by
    -- An item has a lexeme or a misspelling, never both.
    rintro rfl
    rw [isToken] at isError
    cases isError
  rw [← left_eq]
  rcases tiles.ordered leftMem rightMem differ with ⟨before, _⟩ | ⟨behind, closed⟩
  · exact .inl before
  · refine .inr ⟨behind, ?_⟩
    intro kind_eq
    exact closed ⟨misspelling, isError, kind_eq⟩

theorem token_of_isBlank {token : Token} (member : token ∈ tokens) {offset : Nat} {byte : Byte}
    (found : text[offset]? = some byte) (isBlank : byte.isBlank)
    (holds : token.span.Holds offset) :
    token.kind = .string ∧ token.span.start < offset ∧ offset + 1 < token.span.stop := by
  rcases sorted.exists_of_mem_tokens member with
    ⟨item, itemMem, lexeme, result_eq, kind_eq, span_eq⟩
  rw [← span_eq] at holds ⊢
  rcases tiles.of_isBlank itemMem found isBlank holds with
    ⟨⟨body, isString⟩, between⟩ | ⟨⟨misspelling, isError, _⟩, _⟩
  · rw [isString, Except.ok.injEq] at result_eq
    rw [← kind_eq, ← result_eq]
    exact ⟨rfl, between⟩
  · rw [isError] at result_eq
    cases result_eq

theorem error_of_isBlank {error : LexicalError} (member : error ∈ errors) {offset : Nat}
    {byte : Byte} (found : text[offset]? = some byte) (isBlank : byte.isBlank)
    (holds : error.span.Holds offset) :
    error.kind = .unterminatedLiteral ∧ error.span.start < offset := by
  rcases sorted.exists_of_mem_errors member with ⟨item, itemMem, misspelling, result_eq, rfl⟩
  rcases tiles.of_isBlank itemMem found isBlank holds with
    ⟨⟨body, isString⟩, _⟩ | ⟨⟨other, isError, kind_eq⟩, behind⟩
  · rw [isString] at result_eq
    cases result_eq
  · rw [isError, Except.error.injEq] at result_eq
    rw [← result_eq]
    exact ⟨kind_eq, behind⟩

theorem stop_eq_of_unterminated {error : LexicalError} (member : error ∈ errors)
    (kind_eq : error.kind = .unterminatedLiteral) : error.span.stop = text.length := by
  rcases sorted.exists_of_mem_errors member with ⟨item, itemMem, misspelling, result_eq, rfl⟩
  exact tiles.stop_eq itemMem ⟨misspelling, result_eq, kind_eq⟩

theorem errors_pairwise : errors.Pairwise fun error _ => error.kind ≠ .unterminatedLiteral := by
  rw [sorted.errors_eq, List.pairwise_filterMap]
  apply tiles.pairwise.imp
  intro item later before error found _ _ kind_eq
  rcases error?_eq_some_iff.mp found with ⟨misspelling, isError, rfl⟩
  exact before.2 ⟨misspelling, isError, kind_eq⟩

theorem unterminated_last {error : LexicalError} (member : error ∈ errors)
    (kind_eq : error.kind = .unterminatedLiteral) :
    ∃ others, errors = others ++ [error] ∧ ∀ other ∈ others, other.kind ≠ .unterminatedLiteral := by
  have pairwise := sorted.errors_pairwise tiles
  rcases List.append_of_mem member with ⟨front, back, rfl⟩
  rw [List.pairwise_append, List.pairwise_cons] at pairwise
  rcases pairwise with ⟨_, ⟨behind, _⟩, before⟩
  cases back with
  | nil =>
      refine ⟨front, rfl, ?_⟩
      intro other otherMem
      exact before other otherMem error List.mem_cons_self
  | cons next back => exact absurd kind_eq (behind next List.mem_cons_self)

end

end SortedInto

end Item

/--
Tokens and errors that share a text out among themselves, blanks left over. A blank that they do
take stands inside a string, between its quotes or behind the only one if it is never closed; such
a string reaches to the end of the text and is the last of all.
-/
structure Partition (text : Bytes) (tokens : List Token) (errors : List LexicalError) : Prop where
  tokens_ascending : Span.Ascending (tokens.map Token.span)
  errors_ascending : Span.Ascending (errors.map LexicalError.span)
  inside : ∀ span ∈ tokens.map Token.span ++ errors.map LexicalError.span, span.stop ≤ text.length
  apart : (tokens.map Token.span ++ errors.map LexicalError.span).Pairwise Span.Apart
  isBlank_of_outside : ∀ offset byte, text[offset]? = some byte →
    (∀ span ∈ tokens.map Token.span ++ errors.map LexicalError.span, ¬ span.Holds offset) →
      byte.isBlank
  token_of_isBlank : ∀ token ∈ tokens, ∀ offset byte, text[offset]? = some byte → byte.isBlank →
    token.span.Holds offset →
      token.kind = .string ∧ token.span.start < offset ∧ offset + 1 < token.span.stop
  error_of_isBlank : ∀ error ∈ errors, ∀ offset byte, text[offset]? = some byte → byte.isBlank →
    error.span.Holds offset → error.kind = .unterminatedLiteral ∧ error.span.start < offset
  unterminated_last : ∀ error ∈ errors, error.kind = .unterminatedLiteral →
    error.span.stop = text.length ∧ (∀ token ∈ tokens, token.span.stop ≤ error.span.start) ∧
      ∃ others, errors = others ++ [error] ∧ ∀ other ∈ others, other.kind ≠ .unterminatedLiteral

theorem Item.SortedInto.partition {source : SourceId} {text : Bytes} {tokens : List Token}
    {errors : List LexicalError}
    (sorted : SortedInto source (Item.list text) tokens errors) : Partition text tokens errors := by
  have tiles := Item.tiles_list text
  have ascending := Item.ascending_listFrom 0 0 text
  have tokens_ascending := sorted.tokens_ascending ascending
  have errors_ascending := sorted.errors_ascending ascending
  refine ⟨tokens_ascending, errors_ascending, ?inside, ?apart, ?outside, ?token, ?error, ?last⟩
  case inside =>
    intro span member
    rcases sorted.exists_of_mem_spans member with ⟨item, itemMem, rfl⟩
    exact tiles.stop_le itemMem
  case apart =>
    apply List.pairwise_append.mpr
    refine ⟨tokens_ascending.apart, errors_ascending.apart, ?_⟩
    intro tokenSpan inTokens errorSpan inErrors
    rcases List.mem_map.mp inTokens with ⟨token, tokenMem, rfl⟩
    rcases List.mem_map.mp inErrors with ⟨error, errorMem, rfl⟩
    rcases sorted.token_ordered_error tiles tokenMem errorMem with before | ⟨behind, _⟩
    · exact .of_le before
    · exact Span.Apart.symm (.of_le behind)
  case outside =>
    intro offset byte found outside
    apply tiles.isBlank_of_outside found
    intro item member
    rw [Nat.zero_add]
    exact outside item.span (sorted.span_mem member)
  case token =>
    intro token member offset byte found isBlank holds
    exact sorted.token_of_isBlank tiles member found isBlank holds
  case error =>
    intro error member offset byte found isBlank holds
    exact sorted.error_of_isBlank tiles member found isBlank holds
  case last =>
    intro error member kind_eq
    refine ⟨sorted.stop_eq_of_unterminated tiles member kind_eq, ?_,
      sorted.unterminated_last tiles member kind_eq⟩
    intro token tokenMem
    rcases sorted.token_ordered_error tiles tokenMem member with before | ⟨_, closed⟩
    · exact before
    · exact absurd kind_eq closed

namespace Lexer

theorem marks_tokensOf (lexer : Lexer) (items : List Item) :
    (lexer.tokensOf items).1.map (fun token => (token.kind, token.span)) =
      items.filterMap Item.mark? := by
  induction items generalizing lexer with
  | nil => rfl
  | cons item items recurse =>
      rw [tokensOf, List.filterMap_cons, Item.mark?]
      rcases item.result with misspelling | lexeme
      · exact recurse _
      · simp only [List.map_cons, Token.kind, Lexeme.kind_intern]
        exact congrArg _ (recurse _)

theorem errors_tokensOf (lexer : Lexer) (items : List Item) :
    (lexer.tokensOf items).2.errors =
      lexer.errors ++ items.filterMap (Item.error? lexer.source) := by
  induction items generalizing lexer with
  | nil => simp [tokensOf]
  | cons item items recurse =>
      rw [tokensOf, List.filterMap_cons, Item.error?]
      rcases item.result with misspelling | lexeme
      · simp [recurse]
      · simp [recurse]

theorem sortedInto_tokensOf (lexer : Lexer) (fresh : lexer.errors = []) (items : List Item) :
    Item.SortedInto lexer.source items (lexer.tokensOf items).1
      (lexer.tokensOf items).2.errors where
  marks := lexer.marks_tokensOf items
  errors_eq := by rw [errors_tokensOf, fresh, List.nil_append]

/-- Whatever bytes a text is made of, its tokens and its errors share it out among themselves. -/
theorem partition_tokenize (source : SourceId) (text : Bytes) (interner : Interner) :
    Partition text ((ofText source text interner).tokenize).1
      ((ofText source text interner).tokenize).2.errors := by
  apply Item.SortedInto.partition
  exact (ofText source text interner).sortedInto_tokensOf rfl (Item.list text)

end Lexer

end TypedLang
