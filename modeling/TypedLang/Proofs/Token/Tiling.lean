import Mathlib.Data.List.TakeWhile
import TypedLang.Proofs.Token.Order

/-!
# Tiling of a text

A text is a sequence of items with blanks between them: each item takes the bytes at the front of
what is left, and the next one looks for its start right behind them. A blank is among the bytes of
an item only behind the opening quote of a string. A string without closing quote takes all that is
left, so nothing stands behind it.
-/

namespace TypedLang

namespace Span

/-- Whether the byte at an offset belongs to a span. -/
def Holds (span : Span) (offset : Nat) : Prop :=
  span.start ≤ offset ∧ offset < span.stop

instance (span : Span) (offset : Nat) : Decidable (span.Holds offset) :=
  inferInstanceAs (Decidable (_ ∧ _))

/-- Whether no byte belongs to both of two spans. -/
def Apart (left right : Span) : Prop :=
  ∀ offset, ¬ (left.Holds offset ∧ right.Holds offset)

theorem Apart.of_le {left right : Span} (ordered : left.stop ≤ right.start) : left.Apart right := by
  intro offset both
  rcases both with ⟨⟨_, inLeft⟩, inRight, _⟩
  omega

theorem Apart.symm {left right : Span} (apart : left.Apart right) : right.Apart left := by
  intro offset both
  exact apart offset ⟨both.2, both.1⟩

theorem Ascending.apart {spans : List Span} (ascending : Ascending spans) : spans.Pairwise Apart :=
  ascending.ascending.imp Apart.of_le

end Span

namespace Byte

/-- The blank bytes come before all others that a word, a number or a character goes on with. -/
theorem isBlank_eq_false_of_lt {byte : Byte} (behind : space < byte) : byte.isBlank = false := by
  simp only [isBlank, space, tab, carriageReturn, UInt8.lt_iff_toNat_lt, UInt8.le_iff_toNat_le,
    Bool.or_eq_false_iff, Bool.and_eq_false_iff, beq_eq_false_iff_ne, decide_eq_false_iff_not,
    ne_eq, ← UInt8.toNat_inj, UInt8.reduceToNat] at behind ⊢
  omega

theorem isBlank_of_continuesName {byte : Byte} (continues : byte.continuesName) :
    byte.isBlank = false := by
  apply isBlank_eq_false_of_lt
  simp only [continuesName, isLetter, isDigit, space, underscore, UInt8.lt_iff_toNat_lt,
    UInt8.le_iff_toNat_le, Bool.or_eq_true, Bool.and_eq_true, beq_iff_eq, decide_eq_true_eq,
    ← UInt8.toNat_inj, UInt8.reduceToNat] at continues ⊢
  omega

theorem isBlank_of_isDigit {byte : Byte} (digit : byte.isDigit) : byte.isBlank = false :=
  isBlank_of_continuesName (by simp [continuesName, digit])

theorem continuesName_of_isBlank {byte : Byte} (isBlank : byte.isBlank) :
    byte.continuesName = false :=
  Bool.eq_false_iff.mpr fun continues => by
    rw [isBlank_of_continuesName continues] at isBlank
    cases isBlank

theorem isDigit_of_isBlank {byte : Byte} (isBlank : byte.isBlank) : byte.isDigit = false :=
  Bool.eq_false_iff.mpr fun digit => by
    rw [isBlank_of_isDigit digit] at isBlank
    cases isBlank

theorem isBlank_of_continuesCharacter {byte : Byte} (continues : byte.continuesCharacter) :
    byte.isBlank = false := by
  apply isBlank_eq_false_of_lt
  simp only [continuesCharacter, space, UInt8.lt_iff_toNat_lt, UInt8.le_iff_toNat_le,
    Bool.and_eq_true, decide_eq_true_eq, UInt8.reduceToNat] at continues ⊢
  omega

end Byte

theorem Punct.isBlank_of_mem_spelling (mark : Punct) :
    ∀ byte ∈ Bytes.ofText mark.spelling, byte.isBlank = false := by
  have solid : (Bytes.ofText mark.spelling).all fun byte => !byte.isBlank := by
    cases mark <;> rfl
  intro byte member
  simpa using List.all_eq_true.mp solid byte member

/-- A run in which each byte fits the one before it ends with the text or before a misfit. -/
theorem Bytes.takeWindowed_spec (continues : Byte → Byte → Bool) :
    (previous : Byte) → (text : Bytes) →
    takeWindowed continues previous text = text ∨
      ∃ before current rest, text = takeWindowed continues previous text ++ current :: rest ∧
        continues before current = false
  | _, [] => .inl rfl
  | previous, current :: rest => by
      rw [takeWindowed]
      split
      · rcases takeWindowed_spec continues current rest with
          whole | ⟨before, next, others, split, misfit⟩
        · exact .inl (congrArg (current :: ·) whole)
        · exact .inr ⟨before, next, others, congrArg (current :: ·) split, misfit⟩
      · rename_i misfit
        exact .inr ⟨previous, current, rest, rfl, Bool.eq_false_iff.mpr misfit⟩

namespace Scan

/-- The outcome of a string that is never closed. -/
def IsUnterminated (result : Except Misspelling (Lexeme Bytes)) : Prop :=
  ∃ misspelling, result = .error misspelling ∧ misspelling.kind = .unterminatedLiteral

/--
How an item takes the bytes in front of others. Only a string has blanks among its bytes, and only
one that is never closed is bound to have no others behind it.
-/
inductive Takes : (taken others : Bytes) → Except Misspelling (Lexeme Bytes) → Prop where
  | plain {taken others : Bytes} {result : Except Misspelling (Lexeme Bytes)}
      (nonempty : taken ≠ []) (solid : ∀ byte ∈ taken, byte.isBlank = false)
      (terminated : ¬ IsUnterminated result) : Takes taken others result
  | string (body others : Bytes) :
      Takes (Byte.quote :: body ++ [Byte.quote]) others (.ok (.string body))
  | unterminated (body : Bytes) {misspelling : Misspelling}
      (kind_eq : misspelling.kind = .unterminatedLiteral) :
      Takes (Byte.quote :: body) [] (.error misspelling)

section

variable {taken others : Bytes} {result : Except Misspelling (Lexeme Bytes)}

theorem Takes.nonempty (takes : Takes taken others result) : taken ≠ [] := by
  cases takes with
  | plain nonempty _ _ => exact nonempty
  | string body => simp
  | unterminated body _ => simp

theorem Takes.others_eq_nil (takes : Takes taken others result)
    (isUnterminated : IsUnterminated result) : others = [] := by
  cases takes with
  | plain _ _ terminated => exact absurd isUnterminated terminated
  | string body => simp [IsUnterminated] at isUnterminated
  | unterminated body _ => rfl

/-- A quote is not blank, so a blank is not the first byte of a string. -/
theorem pos_of_isBlank {rest : Bytes} {index : Nat} {byte : Byte}
    (found : (Byte.quote :: rest)[index]? = some byte) (isBlank : byte.isBlank) : 0 < index := by
  cases index with
  | zero =>
      cases found
      cases isBlank
  | succ index => exact Nat.succ_pos index

/-- A blank stands behind the opening quote of a string and before the closing one, if any. -/
theorem Takes.of_isBlank (takes : Takes taken others result) {index : Nat} {byte : Byte}
    (found : taken[index]? = some byte) (isBlank : byte.isBlank) :
    ((∃ body, result = .ok (.string body)) ∧ 0 < index ∧ index + 1 < taken.length) ∨
      (IsUnterminated result ∧ 0 < index) := by
  cases takes with
  | plain _ solid _ =>
      have notBlank := solid byte (List.mem_of_getElem? found)
      rw [isBlank] at notBlank
      cases notBlank
  | string body =>
      refine .inl ⟨⟨body, rfl⟩, pos_of_isBlank found isBlank, ?_⟩
      have inside := (List.getElem?_eq_some_iff.mp found).1
      by_contra atEnd
      have isLast : index = (Byte.quote :: body).length := by
        simp only [List.length_append, List.length_cons, List.length_nil] at inside atEnd ⊢
        omega
      rw [isLast, List.getElem?_concat_length] at found
      cases found
      cases isBlank
  | unterminated body kind_eq =>
      exact .inr ⟨⟨_, rfl, kind_eq⟩, pos_of_isBlank found isBlank⟩

end

/-- A scan takes as many bytes at the front of a text as its length says. -/
def Splits (scan : Scan) (text : Bytes) : Prop :=
  ∃ taken others, text = taken ++ others ∧ scan.length = taken.length ∧
    Takes taken others scan.result

theorem word_splits {first : Byte} (isLetter : first.isLetter) (rest : Bytes) :
    (word (first :: rest)).Splits (first :: rest) := by
  refine ⟨_, _, List.takeWhile_append_dropWhile.symm, rfl, .plain ?_ ?_ ?_⟩
  · exact List.length_pos_iff.mp (length_word_pos isLetter rest)
  · intro byte member
    exact Byte.isBlank_of_continuesName (List.mem_takeWhile_imp member)
  · simp [word, IsUnterminated]

theorem integer_terminated (digits : Bytes) : ¬ IsUnterminated (integer digits) := by
  rw [integer]
  split <;> simp [IsUnterminated]

theorem decimal_terminated (whole fraction : Bytes) :
    ¬ IsUnterminated (decimal whole fraction) := by
  rw [decimal]
  cases Binary64.ofDecimal? (Bytes.toNumber (whole ++ fraction)) fraction.length with
  | none => simp [IsUnterminated]
  | some value => simp [IsUnterminated]

theorem number_splits {first : Byte} (isDigit : first.isDigit) (rest : Bytes) :
    (number (first :: rest)).Splits (first :: rest) := by
  have pieces := List.takeWhile_append_dropWhile (p := Byte.isDigit) (l := first :: rest)
  have nonempty : (first :: rest).takeWhile Byte.isDigit ≠ [] := by simp [isDigit]
  have solid : ∀ byte ∈ (first :: rest).takeWhile Byte.isDigit, byte.isBlank = false :=
    fun byte member => Byte.isBlank_of_isDigit (List.mem_takeWhile_imp member)
  have whole : Splits ⟨((first :: rest).takeWhile Byte.isDigit).length,
      integer ((first :: rest).takeWhile Byte.isDigit)⟩ (first :: rest) :=
    ⟨_, _, pieces.symm, rfl, .plain nonempty solid (integer_terminated _)⟩
  simp only [number]
  split
  · exact whole
  · rename_i next others behind
    split
    · rename_i isDot
      subst isDot
      refine ⟨(first :: rest).takeWhile Byte.isDigit ++ Byte.dot :: others.takeWhile Byte.isDigit,
        others.dropWhile Byte.isDigit, ?_, ?_, .plain ?_ ?_ ?_⟩
      · rw [List.append_assoc, List.cons_append, List.takeWhile_append_dropWhile, ← behind, pieces]
      · simp only [List.length_append, List.length_cons]
        omega
      · simp
      · intro byte member
        rcases List.mem_append.mp member with member | member
        · exact solid byte member
        · rcases List.mem_cons.mp member with rfl | member
          · decide
          · exact Byte.isBlank_of_isDigit (List.mem_takeWhile_imp member)
      · dsimp only
        exact decimal_terminated _ _
    · exact whole

theorem string_splits (rest : Bytes) : (string rest).Splits (Byte.quote :: rest) := by
  rcases Bytes.takeWindowed_spec staysInString Byte.quote rest with
    whole | ⟨before, current, others, split, closes⟩
  · rw [string, whole, if_neg (Nat.lt_irrefl _)]
    exact ⟨Byte.quote :: rest, [], (List.append_nil _).symm, rfl, .unterminated rest rfl⟩
  · have isQuote : current = Byte.quote := by
      simp only [staysInString, Bool.or_eq_false_iff, bne_eq_false_iff_eq] at closes
      exact closes.1
    subst isQuote
    have shorter : (Bytes.takeWindowed staysInString Byte.quote rest).length < rest.length := by
      have lengths := congrArg List.length split
      simp only [List.length_append, List.length_cons] at lengths
      omega
    rw [string, if_pos shorter]
    refine ⟨_, others, ?_, ?_, .string _ others⟩
    · simpa using split
    · simp

theorem unexpected_splits {first : Byte} (solid : first.isBlank = false) (rest : Bytes) :
    (unexpected first rest).Splits (first :: rest) := by
  rw [unexpected]
  split
  · refine ⟨first :: (rest.take 3).takeWhile Byte.continuesCharacter,
      (rest.take 3).dropWhile Byte.continuesCharacter ++ rest.drop 3, ?_, ?_, .plain ?_ ?_ ?_⟩
    · rw [List.cons_append, ← List.append_assoc, List.takeWhile_append_dropWhile,
        List.take_append_drop]
    · simp only [List.length_cons]
      omega
    · simp
    · intro byte member
      rcases List.mem_cons.mp member with rfl | member
      · exact solid
      · exact Byte.isBlank_of_continuesCharacter (List.mem_takeWhile_imp member)
    · simp [IsUnterminated]
  · refine ⟨[first], rest, rfl, rfl, .plain ?_ ?_ ?_⟩
    · simp
    · simpa using solid
    · simp [IsUnterminated]

theorem isBlank_of_mark? {spelling : Bytes} {mark : Punct} (found : mark? spelling = some mark) :
    ∀ byte ∈ spelling, byte.isBlank = false := by
  have spelled : Bytes.ofText mark.spelling = spelling := by
    simpa using List.find?_some found
  rw [← spelled]
  exact mark.isBlank_of_mem_spelling

theorem punct_splits {first : Byte} (solid : first.isBlank = false) (rest : Bytes) :
    (punct first rest).Splits (first :: rest) := by
  rw [punct]
  split
  · rename_i mark found
    refine ⟨first :: rest.take 1, rest.drop 1, ?_, rfl, .plain ?_ (isBlank_of_mark? found) ?_⟩
    · rw [List.cons_append, List.take_append_drop]
    · simp
    · simp [IsUnterminated]
  · split
    · rename_i mark found
      exact ⟨[first], rest, rfl, rfl, .plain (by simp) (isBlank_of_mark? found)
        (by simp [IsUnterminated])⟩
    · exact unexpected_splits solid rest

/-- Whatever an item is, it takes bytes at the front of its text. -/
theorem item_splits {first : Byte} (solid : first.isBlank = false) (rest : Bytes) :
    (item first rest).Splits (first :: rest) := by
  rw [item]
  split
  · exact word_splits ‹_› rest
  · split
    · exact number_splits ‹_› rest
    · split
      · rename_i isQuote
        rw [isQuote]
        exact string_splits rest
      · exact punct_splits solid rest

end Scan

namespace Item

/-- The items of a text that starts at an offset: they lie side by side but for blanks. -/
inductive Tiles : Nat → Bytes → List Item → Prop where
  | done {offset : Nat} : Tiles offset [] []
  | blank {offset : Nat} {byte : Byte} {rest : Bytes} {items : List Item}
      (isBlank : byte.isBlank) (others : Tiles (offset + 1) rest items) :
      Tiles offset (byte :: rest) items
  | item {offset : Nat} {taken rest : Bytes} {result : Except Misspelling (Lexeme Bytes)}
      {items : List Item} (takes : Scan.Takes taken rest result)
      (others : Tiles (offset + taken.length) rest items) :
      Tiles offset (taken ++ rest) (⟨.ofLength offset taken.length, result⟩ :: items)

/-- Behind the bytes to skip, the items that are found tile the text. -/
theorem tiles_listFrom : (offset skip : Nat) → (text : Bytes) →
    Tiles (offset + skip) (text.drop skip) (listFrom offset skip text)
  | _, _, [] => by
      rw [List.drop_nil]
      exact .done
  | offset, skip + 1, byte :: rest => by
      have others := tiles_listFrom (offset + 1) skip rest
      rw [Nat.add_assoc, Nat.add_comm 1] at others
      exact others
  | offset, 0, first :: rest => by
      simp only [listFrom]
      split
      · exact .blank ‹_› (tiles_listFrom (offset + 1) 0 rest)
      · rename_i notBlank
        rcases Scan.item_splits (Bool.eq_false_iff.mpr notBlank) rest with
          ⟨taken, others, split, length_eq, takes⟩
        have positive := List.length_pos_iff.mpr takes.nonempty
        -- The next item is looked for right behind the bytes that this one takes.
        have behind : offset + 1 + (taken.length - 1) = offset + taken.length := by omega
        have others_eq : rest.drop (taken.length - 1) = others := by
          rw [← List.drop_succ_cons (a := first), Nat.sub_add_cancel positive, split,
            List.drop_left]
        have next := tiles_listFrom (offset + 1) (taken.length - 1) rest
        rw [behind, others_eq] at next
        rw [Nat.add_zero, List.drop_zero, split, length_eq]
        exact .item takes next

theorem tiles_list (text : Bytes) : Tiles 0 text (list text) :=
  tiles_listFrom 0 0 text

variable {offset : Nat} {text : Bytes} {items : List Item}

/-- An item stands in the text at its place, with the bytes that it takes. -/
theorem Tiles.exists_of_mem (tiles : Tiles offset text items) {item : Item}
    (member : item ∈ items) : ∃ before taken others, text = before ++ taken ++ others ∧
      item.span = .ofLength (offset + before.length) taken.length ∧
      Scan.Takes taken others item.result := by
  induction tiles with
  | done => cases member
  | blank isBlank _ recurse =>
      rcases recurse member with ⟨before, taken, others, rfl, span_eq, takes⟩
      refine ⟨_ :: before, taken, others, rfl, ?_, takes⟩
      rw [span_eq, List.length_cons, Nat.add_assoc, Nat.add_comm 1]
  | @item offset front rest result items takes _ recurse =>
      rcases List.mem_cons.mp member with rfl | member
      · exact ⟨[], front, rest, rfl, rfl, takes⟩
      · rcases recurse member with ⟨before, taken, others, rfl, span_eq, takes⟩
        refine ⟨front ++ before, taken, others, ?_, ?_, takes⟩
        · simp only [List.append_assoc]
        · rw [span_eq, List.length_append, Nat.add_assoc]

/-- Items stand one behind the other, and none stands behind a string that is never closed. -/
theorem Tiles.pairwise (tiles : Tiles offset text items) :
    items.Pairwise fun item later =>
      item.span.stop ≤ later.span.start ∧ ¬ Scan.IsUnterminated item.result := by
  induction tiles with
  | done => exact .nil
  | blank _ _ recurse => exact recurse
  | @item offset front rest result items takes tiles recurse =>
      rw [List.pairwise_cons]
      refine ⟨?_, recurse⟩
      intro later member
      rcases tiles.exists_of_mem member with ⟨before, taken, others, split, span_eq, laterTakes⟩
      constructor
      · rw [span_eq]
        simp only [Span.ofLength]
        omega
      · intro isUnterminated
        rw [takes.others_eq_nil isUnterminated] at split
        have empty := List.append_eq_nil_iff.mp (List.append_eq_nil_iff.mp split.symm).1
        exact laterTakes.nonempty empty.2

/-- What no item takes is blank. -/
theorem Tiles.isBlank_of_outside (tiles : Tiles offset text items) {position : Nat} {byte : Byte}
    (found : text[position]? = some byte)
    (outside : ∀ item ∈ items, ¬ item.span.Holds (offset + position)) : byte.isBlank := by
  induction tiles generalizing position with
  | done => simp at found
  | blank isBlank _ recurse =>
      cases position with
      | zero =>
          simp only [List.getElem?_cons_zero, Option.some.injEq] at found
          rw [← found]
          exact isBlank
      | succ position =>
          apply recurse found
          intro item member
          rw [Nat.add_assoc, Nat.add_comm 1]
          exact outside item member
  | @item offset taken rest result items takes _ recurse =>
      have behind : taken.length ≤ position := by
        by_contra inside
        apply outside _ List.mem_cons_self
        simp only [Span.Holds, Span.ofLength]
        omega
      rw [List.getElem?_append_right behind] at found
      apply recurse found
      intro item member
      rw [Nat.add_assoc, Nat.add_sub_cancel' behind]
      exact outside item (List.mem_cons_of_mem _ member)

/-- Of two items one stands behind the other, and the one in front is not a string without end. -/
theorem Tiles.ordered (tiles : Tiles 0 text items) {left right : Item} (leftMem : left ∈ items)
    (rightMem : right ∈ items) (differ : left ≠ right) :
    (left.span.stop ≤ right.span.start ∧ ¬ Scan.IsUnterminated left.result) ∨
      (right.span.stop ≤ left.span.start ∧ ¬ Scan.IsUnterminated right.result) := by
  have pairwise := tiles.pairwise
  rcases List.append_of_mem leftMem with ⟨front, back, rfl⟩
  rw [List.pairwise_append, List.pairwise_cons] at pairwise
  rcases pairwise with ⟨_, ⟨behind, _⟩, before⟩
  rcases List.mem_append.mp rightMem with inFront | inBack
  · exact .inr (before right inFront left List.mem_cons_self)
  · rcases List.mem_cons.mp inBack with rfl | inBack
    · exact absurd rfl differ
    · exact .inl (behind right inBack)

theorem Tiles.stop_le (tiles : Tiles 0 text items) {item : Item} (member : item ∈ items) :
    item.span.stop ≤ text.length := by
  rcases tiles.exists_of_mem member with ⟨before, taken, others, rfl, span_eq, _⟩
  simp only [span_eq, Span.ofLength, List.length_append]
  omega

theorem Tiles.stop_eq (tiles : Tiles 0 text items) {item : Item} (member : item ∈ items)
    (isUnterminated : Scan.IsUnterminated item.result) : item.span.stop = text.length := by
  rcases tiles.exists_of_mem member with ⟨before, taken, others, rfl, span_eq, takes⟩
  rw [takes.others_eq_nil isUnterminated]
  simp [span_eq, Span.ofLength]

theorem Tiles.of_isBlank (tiles : Tiles 0 text items) {item : Item} (member : item ∈ items)
    {offset : Nat} {byte : Byte} (found : text[offset]? = some byte) (isBlank : byte.isBlank)
    (holds : item.span.Holds offset) :
    ((∃ body, item.result = .ok (.string body)) ∧ item.span.start < offset ∧
        offset + 1 < item.span.stop) ∨
      (Scan.IsUnterminated item.result ∧ item.span.start < offset) := by
  rcases tiles.exists_of_mem member with ⟨before, taken, others, rfl, span_eq, takes⟩
  simp only [span_eq, Span.Holds, Span.ofLength, Nat.zero_add] at holds ⊢
  have inTaken : taken[offset - before.length]? = some byte := by
    rw [List.append_assoc, List.getElem?_append_right holds.1, List.getElem?_append_left] at found
    · exact found
    · omega
  rcases takes.of_isBlank inTaken isBlank with
    ⟨isString, behind, ahead⟩ | ⟨isUnterminated, behind⟩
  · exact .inl ⟨isString, by omega, by omega⟩
  · exact .inr ⟨isUnterminated, by omega⟩

end Item

end TypedLang
