import TypedLang.Proofs.Token.Keys

/-!
# Texts joined at a blank

What is an item depends on the bytes from its start on. A blank ends every item but a string, so an
item that ends before a blank is the same whatever stands behind the blank, and the item behind the
blank is the same whatever stands before it. Two texts with a blank between them are therefore read
one after the other; only a string that is never closed would take the second text with it.
-/

namespace TypedLang

/-- A span a number of bytes further on. -/
def Span.shifted (distance : Nat) (span : Span) : Span :=
  ⟨span.start + distance, span.stop + distance, Nat.add_le_add_right span.start_le_stop distance⟩

/-- An item a number of bytes further on. -/
def Item.shifted (distance : Nat) (item : Item) : Item :=
  { item with span := item.span.shifted distance }

/-- A token a number of bytes further on. -/
def Token.shifted (distance : Nat) (token : Token) : Token :=
  { token with span := token.span.shifted distance }

/-- A lexical error a number of bytes further on. -/
def LexicalError.shifted (distance : Nat) (error : LexicalError) : LexicalError :=
  { error with span := error.span.shifted distance }

theorem Span.shifted_ofLength (distance start length : Nat) :
    (ofLength start length).shifted distance = ofLength (start + distance) length :=
  eq_of_bounds rfl (Nat.add_right_comm start length distance)

namespace Bytes

theorem takeWhile_append_refused {accepts : Byte → Bool} {stop : Byte}
    (refused : accepts stop = false) (front back : Bytes) :
    (front ++ stop :: back).takeWhile accepts = front.takeWhile accepts := by
  induction front with
  | nil => simp [refused]
  | cons byte front ih => rw [List.cons_append, List.takeWhile_cons, List.takeWhile_cons, ih]

theorem dropWhile_append_refused {accepts : Byte → Bool} {stop : Byte}
    (refused : accepts stop = false) (front back : Bytes) :
    (front ++ stop :: back).dropWhile accepts = front.dropWhile accepts ++ stop :: back := by
  induction front with
  | nil => simp [refused]
  | cons byte front ih =>
      rw [List.cons_append, List.dropWhile_cons, List.dropWhile_cons, ih]
      split <;> rfl

/-- A run that ends inside a text is the same with more bytes behind the text. -/
theorem takeWindowed_append_of_lt (continues : Byte → Byte → Bool) :
    (previous : Byte) → (text back : Bytes) →
      (takeWindowed continues previous text).length < text.length →
      takeWindowed continues previous (text ++ back) = takeWindowed continues previous text
  | _, [], _, shorter => absurd shorter (Nat.lt_irrefl 0)
  | previous, current :: rest, back, shorter => by
      rw [takeWindowed] at shorter
      rw [List.cons_append, takeWindowed, takeWindowed]
      split
      · rename_i goesOn
        rw [if_pos goesOn] at shorter
        rw [takeWindowed_append_of_lt continues current rest back (Nat.lt_of_succ_lt_succ shorter)]
      · rfl

end Bytes

namespace Scan

section

variable {blank : Byte} (isBlank : blank.isBlank) (first : Byte) (rest back : Bytes)

include isBlank

theorem word_append_blank : word (first :: (rest ++ blank :: back)) = word (first :: rest) := by
  have refused := Byte.continuesName_of_isBlank isBlank
  simp only [word, ← List.cons_append, Bytes.takeWhile_append_refused refused]

theorem number_append_blank :
    number (first :: (rest ++ blank :: back)) = number (first :: rest) := by
  have refused := Byte.isDigit_of_isBlank isBlank
  have notDot : blank ≠ Byte.dot := by
    rintro rfl
    cases isBlank
  simp only [number, ← List.cons_append, Bytes.takeWhile_append_refused refused,
    Bytes.dropWhile_append_refused refused]
  rcases (first :: rest).dropWhile Byte.isDigit with _ | ⟨next, others⟩
  · simp only [List.nil_append, if_neg notDot]
  · simp only [List.cons_append, Bytes.takeWhile_append_refused refused]

theorem unexpected_append_blank :
    unexpected first (rest ++ blank :: back) = unexpected first rest := by
  have refused : blank.continuesCharacter = false :=
    Bool.eq_false_iff.mpr fun continues => by
      rw [Byte.isBlank_of_continuesCharacter continues] at isBlank
      cases isBlank
  -- At most three bytes are looked at, and the blank ends the run if it is one of them.
  have others_eq : ((rest ++ blank :: back).take 3).takeWhile Byte.continuesCharacter =
      (rest.take 3).takeWhile Byte.continuesCharacter := by
    rw [List.take_append]
    rcases found : (blank :: back).take (3 - rest.length) with _ | ⟨next, others⟩
    · rw [List.append_nil]
    · have next_eq : next = blank := by
        rcases width : 3 - rest.length with _ | width
        · rw [width] at found
          cases found
        · rw [width] at found
          cases found
          rfl
      rw [next_eq, Bytes.takeWhile_append_refused refused]
  rw [unexpected, unexpected, others_eq]

theorem punct_append_blank : punct first (rest ++ blank :: back) = punct first rest := by
  have unknown : mark? [first, blank] = none := by
    rw [Option.eq_none_iff_forall_ne_some]
    intro mark found
    rw [isBlank_of_mark? found blank (by simp)] at isBlank
    cases isBlank
  have others := unexpected_append_blank isBlank first rest back
  rcases rest with _ | ⟨next, rest⟩
  · simp only [punct, List.nil_append, List.take_succ_cons, List.take_zero, unknown] at others ⊢
    rw [List.take_nil]
    cases mark? [first] with
    | some mark => rfl
    | none => exact others
  · rw [punct, others]
    rfl

/-- A blank behind an item does not change it, unless the item is a string that is never closed. -/
theorem item_append_blank (closed : ¬ IsUnterminated (item first rest).result) :
    item first (rest ++ blank :: back) = item first rest := by
  rw [item] at closed
  rw [item, item, word_append_blank isBlank, number_append_blank isBlank,
    punct_append_blank isBlank]
  split
  · rfl
  split
  · rfl
  split
  · rename_i notLetter notDigit isQuote
    rw [if_neg notLetter, if_neg notDigit, if_pos isQuote, string] at closed
    have shorter : (Bytes.takeWindowed staysInString Byte.quote rest).length < rest.length := by
      by_contra whole
      rw [if_neg whole] at closed
      exact closed ⟨_, rfl, rfl⟩
    have longer : (Bytes.takeWindowed staysInString Byte.quote rest).length <
        (rest ++ blank :: back).length :=
      Nat.lt_of_lt_of_le shorter (by simp)
    rw [string, string, Bytes.takeWindowed_append_of_lt _ _ _ _ shorter, if_pos shorter,
      if_pos longer]
  · rfl

end

/-- An item takes no more bytes than there are. -/
theorem length_item_le {first : Byte} (solid : first.isBlank = false) (rest : Bytes) :
    (item first rest).length ≤ rest.length + 1 := by
  rcases item_splits solid rest with ⟨taken, others, split, length_eq, _⟩
  rw [length_eq, ← List.length_cons (a := first), split, List.length_append]
  exact Nat.le_add_right _ _

end Scan

namespace Item

theorem listFrom_shifted (distance : Nat) : (offset skip : Nat) → (text : Bytes) →
    listFrom (offset + distance) skip text = (listFrom offset skip text).map (shifted distance)
  | _, _, [] => rfl
  | offset, skip + 1, byte :: rest => by
      rw [listFrom, listFrom, Nat.add_right_comm]
      exact listFrom_shifted distance (offset + 1) skip rest
  | offset, 0, byte :: rest => by
      simp only [listFrom, Nat.add_right_comm offset distance 1]
      split
      · exact listFrom_shifted distance (offset + 1) 0 rest
      · rw [List.map_cons, shifted, Span.shifted_ofLength,
          listFrom_shifted distance (offset + 1) _ rest]

/-- The items of two texts with a blank between them, when those of the first one all end. -/
theorem listFrom_append_blank {blank : Byte} (isBlank : blank.isBlank) (back : Bytes) :
    (offset skip : Nat) → (front : Bytes) → skip ≤ front.length →
    (∀ item ∈ listFrom offset skip front, ¬ Scan.IsUnterminated item.result) →
      listFrom offset skip (front ++ blank :: back) =
        listFrom offset skip front ++ listFrom (offset + front.length + 1) 0 back
  | offset, 0, [], _, _ => by
      simp only [List.nil_append, listFrom, isBlank, ↓reduceIte, List.length_nil, Nat.add_zero]
  | offset, skip + 1, byte :: rest, inside, closed => by
      rw [List.cons_append, listFrom, listFrom, List.length_cons,
        listFrom_append_blank isBlank back (offset + 1) skip rest (Nat.le_of_succ_le_succ inside)
          closed, Nat.add_right_comm offset 1, Nat.add_assoc offset]
  | offset, 0, byte :: rest, _, closed => by
      have behind : offset + (byte :: rest).length + 1 = offset + 1 + rest.length + 1 := by
        rw [List.length_cons]
        omega
      rw [listFrom] at closed
      rw [List.cons_append, listFrom, listFrom, behind]
      split
      · rename_i skipped
        rw [if_pos skipped] at closed
        exact listFrom_append_blank isBlank back (offset + 1) 0 rest (Nat.zero_le _) closed
      · rename_i solid
        rw [if_neg solid, List.forall_mem_cons] at closed
        have within := Scan.length_item_le (Bool.eq_false_iff.mpr solid) rest
        dsimp only at closed ⊢
        rw [Scan.item_append_blank isBlank byte rest back closed.1,
          listFrom_append_blank isBlank back (offset + 1) _ rest (by omega) closed.2,
          List.cons_append]

theorem list_append_blank {blank : Byte} (isBlank : blank.isBlank) {front : Bytes} (back : Bytes)
    (closed : ∀ item ∈ list front, ¬ Scan.IsUnterminated item.result) :
    list (front ++ blank :: back) =
      list front ++ (list back).map (shifted (front.length + 1)) := by
  rw [list, listFrom_append_blank isBlank back 0 0 front (Nat.zero_le _) closed, list, list,
    ← listFrom_shifted, Nat.add_assoc]

/-- The errors about items further on are further on. -/
theorem errors_shifted (distance : Nat) (source : SourceId) (items : List Item) :
    (items.map (shifted distance)).filterMap (error? source) =
      (items.filterMap (error? source)).map (LexicalError.shifted distance) := by
  rw [List.filterMap_map, List.map_filterMap]
  refine List.filterMap_congr fun item _ => ?_
  simp only [error?, Function.comp_apply, shifted]
  rcases item.result with misspelling | lexeme <;> rfl

end Item

namespace Lexer

/-- What a lexer gives for some items does not depend on those that it has not reached yet. -/
theorem tokensOf_pending (lexer : Lexer) (pending items : List Item) :
    { lexer with pending := pending }.tokensOf items = lexer.tokensOf items := by
  rw [tokensOf_eq_mk, tokensOf_eq_mk]

theorem tokensOf_append (lexer : Lexer) (front back : List Item) :
    lexer.tokensOf (front ++ back) =
      ((lexer.tokensOf front).1 ++ ((lexer.tokensOf front).2.tokensOf back).1,
        ((lexer.tokensOf front).2.tokensOf back).2) := by
  induction front generalizing lexer with
  | nil => exact Prod.ext_iff.mpr ⟨congrArg Prod.fst (lexer.tokensOf_pending [] back).symm,
      congrArg Prod.snd (lexer.tokensOf_pending [] back).symm⟩
  | cons item front ih =>
      rw [List.cons_append, tokensOf, tokensOf]
      rcases item.result with misspelling | lexeme
      · exact ih _
      · simp only [ih, List.cons_append]

variable (distance : Nat) (lexer : Lexer) (items : List Item)

theorem interner_tokensOf_shifted :
    (lexer.tokensOf (items.map (Item.shifted distance))).2.interner =
      (lexer.tokensOf items).2.interner := by
  rw [interner_tokensOf, interner_tokensOf, Item.texts, Item.texts, List.filterMap_map]
  rfl

/-- Items further on become tokens further on. -/
theorem tokensOf_shifted :
    (lexer.tokensOf (items.map (Item.shifted distance))).1 =
      (lexer.tokensOf items).1.map (Token.shifted distance) := by
  rw [tokensOf_eq, tokensOf_eq, interner_tokensOf_shifted, List.filterMap_map, List.map_filterMap]
  refine List.filterMap_congr fun item _ => ?_
  simp only [Item.token?, Function.comp_apply, Option.map_map]
  rfl

/-- Lexers with the same interner give the same tokens. -/
theorem tokensOf_congr {lexer other : Lexer} (same : lexer.interner = other.interner)
    (items : List Item) :
    (lexer.tokensOf items).1 = (other.tokensOf items).1 ∧
      (lexer.tokensOf items).2.interner = (other.tokensOf items).2.interner := by
  rw [tokensOf_eq_mk, tokensOf_eq_mk, same]
  exact ⟨rfl, rfl⟩

/-- Where no error is about a string that is never closed, no item is such a string. -/
theorem closed_of_errors {source : SourceId} {text : Bytes} {interner : Interner}
    (closed : ∀ error ∈ ((ofText source text interner).tokenize).2.errors,
      error.kind ≠ .unterminatedLiteral) :
    ∀ item ∈ Item.list text, ¬ Scan.IsUnterminated item.result := by
  rintro item member ⟨misspelling, isError, kind_eq⟩
  rw [tokenize, errors_tokensOf] at closed
  refine closed (.ofMisspelling source item.span misspelling)
    (List.mem_append_right _ (List.mem_filterMap.mpr ⟨item, member, ?_⟩)) kind_eq
  exact Item.error?_eq_some_iff.mpr ⟨misspelling, isError, rfl⟩

/--
Lexing is compositional at blanks. If no string of a text is left open, then the text, a blank and
another text are read as the tokens of the first and, further on, those of the second, read with the
interner that the first one leaves; and so are the errors. Nothing else is carried over the blank.
-/
theorem tokenize_append_blank (source : SourceId) (interner : Interner) {front : Bytes}
    (closed : ∀ error ∈ ((ofText source front interner).tokenize).2.errors,
      error.kind ≠ .unterminatedLiteral)
    {blank : Byte} (isBlank : blank.isBlank) (back : Bytes) :
    let first := (ofText source front interner).tokenize
    let second := (ofText source back first.2.interner).tokenize
    let whole := (ofText source (front ++ blank :: back) interner).tokenize
    whole.1 = first.1 ++ second.1.map (Token.shifted (front.length + 1)) ∧
      whole.2.errors =
        first.2.errors ++ second.2.errors.map (LexicalError.shifted (front.length + 1)) ∧
      whole.2.interner = second.2.interner := by
  intro first second whole
  have items_eq := Item.list_append_blank isBlank back (closed_of_errors closed)
  have whole_eq : whole = (ofText source front interner).tokensOf
      (Item.list front ++ (Item.list back).map (Item.shifted (front.length + 1))) := by
    rw [← items_eq]
    exact tokensOf_pending (ofText source front interner) _ _
  have same : first.2.interner = (ofText source back first.2.interner).interner := rfl
  have again := tokensOf_congr same (Item.list back)
  refine ⟨?tokens, ?errors, ?interner⟩
  case tokens =>
    calc whole.1
        = first.1 ++ (first.2.tokensOf
            ((Item.list back).map (Item.shifted (front.length + 1)))).1 := by
          rw [whole_eq, tokensOf_append]; rfl
      _ = first.1 ++ second.1.map (Token.shifted (front.length + 1)) := by
          rw [tokensOf_shifted, again.1]; rfl
  case errors =>
    calc whole.2.errors
        = (Item.list front).filterMap (Item.error? source) ++
            ((Item.list back).map (Item.shifted (front.length + 1))).filterMap
              (Item.error? source) := by
          rw [whole_eq, errors_tokensOf, List.filterMap_append]; rfl
      _ = first.2.errors ++ second.2.errors.map (LexicalError.shifted (front.length + 1)) := by
          rw [Item.errors_shifted]
          exact congrArg₂ _ (errors_tokensOf (ofText source front interner) _).symm
            (congrArg _ (errors_tokensOf (ofText source back first.2.interner) _).symm)
  case interner =>
    calc whole.2.interner
        = (first.2.tokensOf
            ((Item.list back).map (Item.shifted (front.length + 1)))).2.interner := by
          rw [whole_eq, tokensOf_append]; rfl
      _ = second.2.interner := by
          rw [interner_tokensOf_shifted]; exact again.2

/-- Behind an unexpected `#`, a closed string and a tabulator, a name is still read as a name. -/
theorem tokenize_append_tab :
    let front : Bytes := "x # \"s\""
    let back : Bytes := "s ? fun"
    let first := (ofText 0 front .empty).tokenize
    let second := (ofText 0 back first.2.interner).tokenize
    let whole := (ofText 0 (front ++ Byte.tab :: back) .empty).tokenize
    (∀ error ∈ first.2.errors, error.kind ≠ .unterminatedLiteral) ∧ Byte.tab.isBlank ∧
      whole.1 = first.1 ++ second.1.map (Token.shifted (front.length + 1)) ∧
      whole.2.errors =
        first.2.errors ++ second.2.errors.map (LexicalError.shifted (front.length + 1)) ∧
      whole.2.interner = second.2.interner := by
  have closed : ∀ error ∈ ((ofText 0 "x # \"s\"" .empty).tokenize).2.errors,
      error.kind ≠ .unterminatedLiteral := by decide +kernel
  have isBlank : Byte.tab.isBlank := by decide
  exact ⟨closed, isBlank, tokenize_append_blank 0 .empty closed isBlank "s ? fun"⟩

end Lexer

end TypedLang
