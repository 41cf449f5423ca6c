import Mathlib.Data.List.Basic
import TypedLang.Bytes

/-!
# Texts in UTF-8

A text in UTF-8 encodes characters one after the other. A character of ASCII is a byte of its own;
any other starts with a byte that occurs nowhere else and goes on with at most three bytes that
start no character. So a byte of ASCII is always a whole character, and a text can be cut in front
of it and behind it.
-/

namespace TypedLang

namespace Bytes

/-- The encoding of some characters in UTF-8. -/
def utf8 (characters : List Char) : Bytes :=
  characters.flatMap String.utf8EncodeChar

/-- Whether a text encodes characters. -/
def IsUtf8 (text : Bytes) : Prop :=
  ∃ characters, text = utf8 characters

/-- Whether an offset of a text lies between two characters, or at an end. -/
def IsBoundary (text : Bytes) (offset : Nat) : Prop :=
  ∃ front back, text = utf8 (front ++ back) ∧ (utf8 front).length = offset

@[simp]
theorem utf8_nil : utf8 [] = [] :=
  rfl

@[simp]
theorem utf8_append (front back : List Char) : utf8 (front ++ back) = utf8 front ++ utf8 back :=
  List.flatMap_append

theorem utf8_cons (character : Char) (others : List Char) :
    utf8 (character :: others) = utf8 [character] ++ utf8 others :=
  utf8_append [character] others

/-- How a character is encoded: by one byte of ASCII, or by a lead byte and up to three others. -/
inductive Encodes : Bytes → Prop where
  | ascii {byte : Byte} (ascii : byte.isBeyondAscii = false) : Encodes [byte]
  | multiple {first : Byte} {others : Bytes} (lead : 192 ≤ first) (few : others.length ≤ 3)
      (continues : ∀ byte ∈ others, byte.continuesCharacter) : Encodes (first :: others)

/-- A lead byte in front of bytes with six bits each. -/
theorem encodes_lead {lead : Nat} (low : 192 ≤ lead) (high : lead < 256) (parts : List Nat)
    (few : parts.length ≤ 3) :
    Encodes (UInt8.ofNat lead :: parts.map fun part => UInt8.ofNat (part % 64 + 128)) := by
  refine .multiple ?_ (by rwa [List.length_map]) fun byte member => ?_
  · simp only [UInt8.le_iff_toNat_le, UInt8.toNat_ofNat', UInt8.reduceToNat]
    omega
  · rcases List.mem_map.mp member with ⟨part, _, rfl⟩
    simp only [Byte.continuesCharacter, UInt8.le_iff_toNat_le, UInt8.lt_iff_toNat_lt,
      UInt8.toNat_ofNat', UInt8.reduceToNat, Bool.and_eq_true, decide_eq_true_eq]
    omega

theorem encodes_utf8 (character : Char) : Encodes (utf8 [character]) := by
  rw [utf8, List.flatMap_singleton, String.utf8EncodeChar]
  generalize character.val.toNat = code
  split
  · refine .ascii ?_
    simp only [Byte.isBeyondAscii, UInt8.le_iff_toNat_le, UInt8.toNat_ofNat', UInt8.reduceToNat,
      decide_eq_false_iff_not]
    omega
  split
  · exact encodes_lead (by omega) (by omega) [code] (by simp)
  split
  · exact encodes_lead (by omega) (by omega) [code / 64, code] (by simp)
  · exact encodes_lead (by omega) (by omega) [code / 4096, code / 64, code] (by simp)

/-- The bytes of a character that is not in ASCII are not in ASCII either. -/
theorem Encodes.eq_singleton {code : Bytes} (encodes : Encodes code) {byte : Byte}
    (member : byte ∈ code) (ascii : byte.isBeyondAscii = false) : code = [byte] := by
  cases encodes with
  | ascii _ => rw [List.mem_singleton.mp member]
  | multiple lead _ continues =>
      simp only [Byte.isBeyondAscii, decide_eq_false_iff_not, UInt8.not_le] at ascii
      rcases List.mem_cons.mp member with rfl | member
      · exact absurd (UInt8.lt_of_lt_of_le ascii (by decide)) (UInt8.not_lt.mpr lead)
      · have continued := continues byte member
        simp only [Byte.continuesCharacter, Bool.and_eq_true, decide_eq_true_eq] at continued
        exact absurd ascii (UInt8.not_lt.mpr continued.1)

/-- A character with a byte of ASCII is in ASCII. -/
theorem lt_of_mem_utf8 {character : Char} {byte : Byte} (member : byte ∈ utf8 [character])
    (ascii : byte.isBeyondAscii = false) : character.toNat < 128 := by
  have single := (encodes_utf8 character).eq_singleton member ascii
  rw [utf8, List.flatMap_singleton, String.utf8EncodeChar] at single
  split at single
  · rename_i small
    exact Nat.lt_succ_of_le small
  · split at single
    · cases single
    · split at single <;> cases single

/-- What a character starts with does not continue one. -/
theorem Encodes.head_continuesCharacter {code : Bytes} (encodes : Encodes code) :
    ∀ first ∈ code.head?, first.continuesCharacter = false := by
  rintro first member
  cases encodes with
  | ascii ascii =>
      cases member
      simp only [Byte.isBeyondAscii, decide_eq_false_iff_not] at ascii
      simp [Byte.continuesCharacter, ascii]
  | multiple lead _ _ =>
      cases member
      simp [Byte.continuesCharacter, UInt8.not_lt.mpr lead]

theorem Encodes.ne_nil {code : Bytes} (encodes : Encodes code) : code ≠ [] := by
  cases encodes <;> exact List.cons_ne_nil _ _

/-- An element of two lists in a row is in the second one, or in the first. -/
theorem append_eq_append_cons {Element : Type} {left right before after : List Element}
    {element : Element} (split : left ++ right = before ++ element :: after) :
    (∃ middle, before = left ++ middle ∧ right = middle ++ element :: after) ∨
      ∃ middle, left = before ++ element :: middle ∧ after = middle ++ right := by
  rcases List.append_eq_append_iff.mp split with ⟨middle, found⟩ | ⟨inside, left_eq, right_eq⟩
  · exact .inl ⟨middle, found⟩
  · rcases inside with _ | ⟨next, middle⟩
    · rw [List.append_nil] at left_eq
      exact .inl ⟨[], by rw [left_eq, List.append_nil], right_eq.symm⟩
    · cases right_eq
      exact .inr ⟨middle, left_eq, rfl⟩

theorem head_utf8 (characters : List Char) :
    ∀ next ∈ (utf8 characters).head?, next.continuesCharacter = false := by
  cases characters with
  | nil => simp
  | cons character others =>
      rw [utf8_cons, List.head?_append_of_ne_nil _ (encodes_utf8 character).ne_nil]
      exact (encodes_utf8 character).head_continuesCharacter

/-- A byte of ASCII in a text in UTF-8 is a character of the text. -/
theorem exists_of_ascii {characters : List Char} {before others : Bytes} {byte : Byte}
    (ascii : byte.isBeyondAscii = false) (split : utf8 characters = before ++ byte :: others) :
    ∃ front character back, characters = front ++ character :: back ∧ utf8 front = before ∧
      utf8 [character] = [byte] ∧ utf8 back = others := by
  induction characters generalizing before with
  | nil => simp at split
  | cons first rest ih =>
      rw [utf8_cons] at split
      rcases append_eq_append_cons split with ⟨middle, rfl, rest_eq⟩ | ⟨middle, code_eq, rfl⟩
      · rcases ih rest_eq with ⟨front, character, back, rfl, rfl, single, rfl⟩
        exact ⟨first :: front, character, back, rfl, utf8_cons _ _, single, rfl⟩
      · -- The byte is one of the first character, and so it is all of it.
        have single := (encodes_utf8 first).eq_singleton (by simp [code_eq]) ascii
        rw [single] at code_eq
        rcases List.append_eq_cons_iff.mp code_eq.symm with ⟨rfl, same⟩ | ⟨_, _, same⟩
        · cases same
          exact ⟨[], first, rest, rfl, rfl, single, rfl⟩
        · simp at same

/-- A text in UTF-8 can be cut behind a byte of ASCII. -/
theorem exists_of_concat {characters : List Char} {front others : Bytes} {last : Byte}
    (ascii : last.isBeyondAscii = false) (split : utf8 characters = front ++ [last] ++ others) :
    ∃ first rest, characters = first ++ rest ∧ utf8 first = front ++ [last] ∧
      utf8 rest = others := by
  rw [List.append_assoc, List.singleton_append] at split
  rcases exists_of_ascii ascii split with ⟨before, character, rest, rfl, rfl, single, rfl⟩
  exact ⟨before ++ [character], rest, by simp, by rw [utf8_append, single], rfl⟩

/-- Bytes of ASCII at the front of a text in UTF-8 are characters of the text. -/
theorem exists_of_ascii_front {characters : List Char} {front others : Bytes}
    (nonempty : front ≠ []) (ascii : ∀ byte ∈ front, byte.isBeyondAscii = false)
    (split : utf8 characters = front ++ others) :
    ∃ first rest, characters = first ++ rest ∧ utf8 first = front ∧ utf8 rest = others := by
  rcases List.eq_nil_or_concat front with rfl | ⟨before, last, rfl⟩
  · exact absurd rfl nonempty
  · rw [List.concat_eq_append] at ascii split ⊢
    exact exists_of_concat (ascii last (by simp)) split

theorem utf8_ofUInt8 {byte : Byte} (ascii : byte.isBeyondAscii = false) :
    utf8 [Char.ofUInt8 byte] = [byte] := by
  have code_eq : (Char.ofUInt8 byte).val.toNat = byte.toNat := UInt8.toNat_toUInt32 byte
  have small : byte.toNat ≤ 127 := by
    simp only [Byte.isBeyondAscii, decide_eq_false_iff_not, UInt8.le_iff_toNat_le,
      UInt8.reduceToNat] at ascii
    omega
  rw [utf8, List.flatMap_singleton, String.utf8EncodeChar, code_eq, if_pos small,
    UInt8.ofNat_toNat]

theorem isUtf8_of_ascii {text : Bytes} (ascii : ∀ byte ∈ text, byte.isBeyondAscii = false) :
    text.IsUtf8 := by
  induction text with
  | nil => exact ⟨[], rfl⟩
  | cons byte rest ih =>
      rw [List.forall_mem_cons] at ascii
      rcases ih ascii.2 with ⟨characters, rfl⟩
      exact ⟨.ofUInt8 byte :: characters, by rw [utf8_cons, utf8_ofUInt8 ascii.1]; rfl⟩

end Bytes

end TypedLang
