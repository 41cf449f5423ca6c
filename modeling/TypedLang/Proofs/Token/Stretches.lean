import TypedLang.Proofs.Token.Keys

/-!
# Stretches of a text

What a lexer makes of a stretch of its text are the tokens and the errors with a byte in it. Items
stand one behind the other, so over the span of an item there is just what the item became: one
token or one error. An item that starts at a byte is what the scanner finds from that byte on.
-/

namespace TypedLang

namespace Span

/-- Whether two spans share a byte. -/
def overlaps (left right : Span) : Bool :=
  max left.start right.start < min left.stop right.stop

theorem overlaps_iff {left right : Span} : left.overlaps right ↔ ¬ left.Apart right := by
  simp only [overlaps, decide_eq_true_eq, Apart, not_forall, not_not, Holds]
  constructor
  · intro shared
    exact ⟨max left.start right.start, by omega⟩
  · rintro ⟨offset, inLeft, inRight⟩
    omega

theorem overlaps_self {span : Span} (nonempty : span.start < span.stop) : span.overlaps span := by
  simpa [overlaps] using nonempty

theorem overlaps_eq_false {left right : Span} (apart : left.Apart right) :
    left.overlaps right = false :=
  Bool.eq_false_iff.mpr fun shared => overlaps_iff.mp shared apart

/-- Of spans that stand one behind the other, each one overlaps itself only. -/
theorem Ascending.filter_overlaps {Placed : Type} {place : Placed → Span} {placed : List Placed}
    (ascending : Ascending (placed.map place)) {one : Placed} (member : one ∈ placed) :
    placed.filter (fun other => (place other).overlaps (place one)) = [one] := by
  have nonempty := ascending.nonempty (place one) (List.mem_map_of_mem member)
  have apart := List.pairwise_map.mp ascending.apart
  rcases List.append_of_mem member with ⟨front, back, rfl⟩
  rw [List.pairwise_append, List.pairwise_cons] at apart
  rcases apart with ⟨_, ⟨behind, _⟩, before⟩
  have none_before : front.filter (fun other => (place other).overlaps (place one)) = [] := by
    refine List.filter_eq_nil_iff.mpr fun other otherMem => ?_
    rw [overlaps_eq_false (before other otherMem one List.mem_cons_self)]
    exact Bool.false_ne_true
  have none_behind : back.filter (fun other => (place other).overlaps (place one)) = [] := by
    refine List.filter_eq_nil_iff.mpr fun other otherMem => ?_
    rw [overlaps_eq_false (behind other otherMem).symm]
    exact Bool.false_ne_true
  have itself : (place one).overlaps (place one) = true := overlaps_self nonempty
  rw [List.filter_append, none_before, List.filter_cons, if_pos itself, none_behind,
    List.nil_append]

/-- Of spans that stand one behind the other, only one starts at an offset. -/
theorem Ascending.eq_of_start {Placed : Type} {place : Placed → Span} {placed : List Placed}
    (ascending : Ascending (placed.map place)) {one other : Placed} (member : one ∈ placed)
    (otherMem : other ∈ placed) (start_eq : (place other).start = (place one).start) :
    other = one := by
  have nonempty := ascending.nonempty (place one) (List.mem_map_of_mem member)
  have otherNonempty := ascending.nonempty (place other) (List.mem_map_of_mem otherMem)
  have shared : (place other).overlaps (place one) = true := by
    simp only [overlaps, decide_eq_true_eq]
    omega
  have found : other ∈ placed.filter fun other => (place other).overlaps (place one) :=
    List.mem_filter.mpr ⟨otherMem, shared⟩
  rw [ascending.filter_overlaps member] at found
  exact List.mem_singleton.mp found

end Span

namespace Item

/-- The scanner starts an item at an offset of a text. -/
def StartsAt (text : Bytes) (offset : Nat) : Prop :=
  ∃ item ∈ list text, item.span.start = offset

instance (text : Bytes) (offset : Nat) : Decidable (StartsAt text offset) :=
  inferInstanceAs (Decidable (∃ item ∈ list text, item.span.start = offset))

/-- The item that starts at a byte is what the scanner finds there. -/
theorem StartsAt.mem_list {before rest : Bytes} {first : Byte}
    (starts : StartsAt (before ++ first :: rest) before.length) :
    ⟨.ofLength before.length (Scan.item first rest).length, (Scan.item first rest).result⟩ ∈
      list (before ++ first :: rest) := by
  rcases starts with ⟨⟨span, result⟩, member, start_eq⟩
  rcases isScanned_of_mem 0 0 _ _ member with ⟨front, other, others, split, span_eq, result_eq⟩
  rw [Nat.zero_add] at span_eq
  dsimp only at start_eq span_eq result_eq
  subst span_eq result_eq
  rcases List.append_inj split start_eq.symm with ⟨_, same⟩
  cases same
  rw [← start_eq]
  exact member

/-- What is picked from items that stand one behind the other overlaps its own item only. -/
theorem filter_picked {Picked : Type} {pick : Item → Option Picked} {place : Picked → Span}
    (places : ∀ item picked, pick item = some picked → place picked = item.span)
    {items : List Item} (ascending : Span.Ascending (items.map Item.span)) {item : Item}
    (member : item ∈ items) :
    (items.filterMap pick).filter (fun picked => (place picked).overlaps item.span) =
      (pick item).toList := by
  calc (items.filterMap pick).filter (fun picked => (place picked).overlaps item.span)
      = (items.filter fun other => other.span.overlaps item.span).filterMap pick := by
        rw [List.filter_filterMap, List.filterMap_filter]
        refine List.filterMap_congr fun other _ => ?_
        cases found : pick other with
        | none => simp
        | some picked => rw [Option.filter_some, places other picked found]
    _ = [item].filterMap pick := by rw [ascending.filter_overlaps member]
    _ = (pick item).toList := by
        rw [List.filterMap_cons]
        cases pick item <;> rfl

end Item

namespace Lexer

/-- The tokens and the errors with a byte in a stretch of the text. -/
structure Makes (scanned : List Token × Lexer) (stretch : Span) (tokens : List Token)
    (errors : List LexicalError) : Prop where
  tokens_eq : scanned.1.filter (fun token => token.span.overlaps stretch) = tokens
  errors_eq : scanned.2.errors.filter (fun error => error.span.overlaps stretch) = errors

section

variable {scanned : List Token × Lexer} {stretch : Span} {tokens : List Token}
  {errors : List LexicalError} (makes : Makes scanned stretch tokens errors)

include makes

theorem Makes.mem_tokens {token : Token} (member : token ∈ tokens) : token ∈ scanned.1 := by
  rw [← makes.tokens_eq] at member
  exact (List.mem_filter.mp member).1

theorem Makes.mem_errors {error : LexicalError} (member : error ∈ errors) :
    error ∈ scanned.2.errors := by
  rw [← makes.errors_eq] at member
  exact (List.mem_filter.mp member).1

end

section

variable (source : SourceId) (interner : Interner) {text : Bytes} {span : Span}

/-- Over the span of an item there is what the item became. -/
theorem makes_item {item : Item} (member : item ∈ Item.list text) :
    let scanned := (ofText source text interner).tokenize
    Makes scanned item.span (item.token? scanned.2.interner).toList
      (item.error? source).toList := by
  intro scanned
  have ascending := Item.ascending_listFrom 0 0 text
  constructor
  case tokens_eq =>
    have tokens_eq : scanned.1 = (Item.list text).filterMap (Item.token? scanned.2.interner) :=
      tokensOf_eq _ _
    rw [tokens_eq]
    refine Item.filter_picked (fun other token found => ?_) ascending member
    rcases Option.map_eq_some_iff.mp found with ⟨_, _, rfl⟩
    rfl
  case errors_eq =>
    have errors_eq : scanned.2.errors = (Item.list text).filterMap (Item.error? source) :=
      errors_tokensOf _ _
    rw [errors_eq]
    refine Item.filter_picked (fun other error found => ?_) ascending member
    rcases Item.error?_eq_some_iff.mp found with ⟨_, _, rfl⟩
    rfl

/-- A lexeme becomes one token, with the key that its text has in the end. -/
theorem makes_token {lexeme : Lexeme Bytes} (member : ⟨span, .ok lexeme⟩ ∈ Item.list text) :
    let scanned := (ofText source text interner).tokenize
    Makes scanned span [⟨lexeme.map scanned.2.interner.keyOf, span⟩] [] :=
  makes_item source interner member

/-- A misspelling becomes one error. -/
theorem makes_error {misspelling : Misspelling}
    (member : ⟨span, .error misspelling⟩ ∈ Item.list text) :
    Makes (ofText source text interner).tokenize span []
      [.ofMisspelling source span misspelling] :=
  makes_item source interner member

end

end Lexer

end TypedLang
