import TypedLang.Proofs.Token.Scanning
import TypedLang.Proofs.Token.Tiling

/-!
# Reading of clean texts

The items of a text are found from left to right, each one right behind the bytes that the one
before it took. A text without misspellings consists of lexemes with blanks between them, and such a
text is read as just these lexemes, whatever its bytes were taken from.
-/

namespace TypedLang

namespace Item

theorem listFrom_skip : (offset skip : Nat) → (text : Bytes) →
    listFrom offset skip text = listFrom (offset + skip) 0 (text.drop skip)
  | _, 0, _ => rfl
  | _, _ + 1, [] => rfl
  | offset, skip + 1, _ :: rest => by
      rw [listFrom, listFrom_skip (offset + 1) skip rest, List.drop_succ_cons, Nat.add_assoc,
        Nat.add_comm 1]

theorem listFrom_of_isBlank {byte : Byte} (isBlank : byte.isBlank) (offset : Nat) (rest : Bytes) :
    listFrom offset 0 (byte :: rest) = listFrom (offset + 1) 0 rest := by
  rw [listFrom, if_pos isBlank]

/-- What the scanner takes at the front of a text is the first item of the text. -/
theorem listFrom_of_item {first : Byte} {rest others : Bytes}
    {result : Except Misspelling (Lexeme Bytes)} (solid : first.isBlank = false)
    (found : Scan.item first (rest ++ others) = ⟨rest.length + 1, result⟩) (offset : Nat) :
    listFrom offset 0 (first :: rest ++ others) =
      ⟨.ofLength offset (rest.length + 1), result⟩ ::
        listFrom (offset + (rest.length + 1)) 0 others := by
  rw [List.cons_append, listFrom, if_neg (by simp [solid])]
  simp only [found, Nat.add_sub_cancel]
  rw [listFrom_skip, List.drop_left, Nat.add_assoc, Nat.add_comm 1]

end Item

theorem Bytes.IsWord.head_isBlank {word : Bytes} (isWord : word.IsWord) :
    ∀ byte ∈ word.head?, byte.isBlank = false :=
  fun byte member => Byte.isBlank_of_continuesName (isWord.2 byte (List.mem_of_mem_head? member))

theorem Bytes.IsDigits.head_isBlank {digits : Bytes} (isDigits : digits.IsDigits) (others : Bytes) :
    ∀ byte ∈ (digits ++ others).head?, byte.isBlank = false := by
  rcases isDigits with ⟨nonempty, all⟩
  rcases List.exists_cons_of_ne_nil nonempty with ⟨first, rest, rfl⟩
  rintro byte ⟨⟩
  exact Byte.isBlank_of_isDigit (all first List.mem_cons_self)

/-- No lexeme starts with a blank. -/
theorem Lexeme.Spelled.head_isBlank {taken : Bytes} {lexeme : Lexeme Bytes}
    (spelled : Spelled taken lexeme) : ∀ byte ∈ taken.head?, byte.isBlank = false := by
  cases spelled with
  | keyword word => exact (Bytes.isWord_of_mem_reserved word.mem_reserved).head_isBlank
  | typeName word => exact (Bytes.isWord_of_mem_reserved word.mem_reserved).head_isBlank
  | boolean value =>
      exact (Bytes.isWord_of_mem_reserved (Bytes.boolean_mem_reserved value)).head_isBlank
  | identifier isWord _ => exact isWord.head_isBlank
  | integer isDigits _ =>
      have solid := isDigits.head_isBlank []
      rw [List.append_nil] at solid
      exact solid
  | decimal isDigits _ _ => exact isDigits.head_isBlank _
  | string _ =>
      rintro byte ⟨⟩
      rfl
  | punct mark =>
      exact fun byte member => mark.isBlank_of_mem_spelling byte (List.mem_of_mem_head? member)

/-- Where a lexeme ends before other bytes, the scanner finds it. -/
theorem Lexeme.Munch.exists_item {taken others : Bytes} {lexeme : Lexeme Bytes}
    (munch : lexeme.Munch taken others) : ∃ first rest, taken = first :: rest ∧
      first.isBlank = false ∧ Scan.item first (rest ++ others) = ⟨rest.length + 1, .ok lexeme⟩ := by
  rcases munch.spelled.forms with ⟨start, forms⟩
  rcases List.exists_cons_of_ne_nil forms.ne_nil with ⟨first, rest, rfl⟩
  exact ⟨first, rest, rfl, munch.spelled.head_isBlank first rfl, Scan.item_of_munch rfl munch⟩

namespace Item

/-- A lexeme at the front of a text is the first item of the text. -/
theorem listFrom_of_munch {taken others : Bytes} {lexeme : Lexeme Bytes}
    (munch : lexeme.Munch taken others) (offset : Nat) :
    listFrom offset 0 (taken ++ others) =
      ⟨.ofLength offset taken.length, .ok lexeme⟩ :: listFrom (offset + taken.length) 0 others := by
  rcases munch.exists_item with ⟨first, rest, rfl, solid, found⟩
  exact listFrom_of_item solid found offset

/-- The items of a text without misspellings: lexemes with blanks between them. -/
inductive Reads : Nat → Bytes → List Item → Prop where
  | done {offset : Nat} : Reads offset [] []
  | blank {offset : Nat} {byte : Byte} {rest : Bytes} {items : List Item}
      (isBlank : byte.isBlank) (others : Reads (offset + 1) rest items) :
      Reads offset (byte :: rest) items
  | lexeme {offset : Nat} {taken rest : Bytes} {lexeme : Lexeme Bytes} {items : List Item}
      (munch : lexeme.Munch taken rest) (others : Reads (offset + taken.length) rest items) :
      Reads offset (taken ++ rest) (⟨.ofLength offset taken.length, .ok lexeme⟩ :: items)

/-- A text whose items are all lexemes consists of them and of blanks. -/
theorem reads_listFrom (offset : Nat) (text : Bytes)
    (clean : ∀ item ∈ listFrom offset 0 text, ∃ lexeme, item.result = .ok lexeme) :
    Reads offset text (listFrom offset 0 text) := by
  match text with
  | [] => exact .done
  | first :: rest =>
      by_cases isBlank : first.isBlank
      · rw [listFrom_of_isBlank isBlank] at clean ⊢
        exact .blank isBlank (reads_listFrom (offset + 1) rest clean)
      · have found := clean ⟨_, (Scan.item first rest).result⟩ (by
          rw [listFrom, if_neg isBlank]
          exact List.mem_cons_self)
        rcases found with ⟨lexeme, result_eq⟩
        rcases Scan.item_finds first rest lexeme result_eq with
          ⟨taken, others, split, _, munch⟩
        -- A lexeme takes at least one byte.
        have shorter : others.length < rest.length + 1 := by
          rcases munch.exists_item with ⟨_, _, rfl, _, _⟩
          rw [← List.length_cons (a := first), split, List.length_append, List.length_cons]
          omega
        rw [split, listFrom_of_munch munch] at clean ⊢
        exact .lexeme munch (reads_listFrom _ others fun item member =>
          clean item (List.mem_cons_of_mem _ member))
termination_by text.length
decreasing_by
  · exact Nat.lt_succ_self rest.length
  · exact shorter

variable {offset : Nat} {text : Bytes} {items : List Item}

/-- Lexemes that lie side by side but for blanks are what is found in a text. -/
theorem Reads.listFrom_eq (reads : Reads offset text items) : listFrom offset 0 text = items := by
  induction reads with
  | done => rfl
  | blank isBlank _ ih => rw [listFrom_of_isBlank isBlank, ih]
  | lexeme munch _ ih => rw [listFrom_of_munch munch, ih]

end Item

end TypedLang
