import Mathlib.Logic.Equiv.Basic
import TypedLang.Proofs.Relabelling.Rewording
import TypedLang.Proofs.Token.Reading

/-!
# Renamed texts

A renaming gives each name another one of the same length. In a renamed text each identifier is
replaced and all else stays where it is, so the text is read as the same items: what ends before an
identifier still does, since a name starts with a letter before and after, and an identifier ends
where it did before.
-/

namespace TypedLang

namespace Bytes

/-- Each name gets a name of its own, which is as long as the old one. -/
structure IsRenaming (rename : Bytes → Bytes) : Prop where
  isName : ∀ word : Bytes, word.IsName → (rename word).IsName
  length_eq : ∀ word : Bytes, word.IsName → (rename word).length = word.length
  injective : ∀ word other : Bytes, word.IsName → other.IsName → rename word = rename other →
    word = other

end Bytes

section

variable (rename : Bytes → Bytes)

/-- The bytes that a scan took, or the new name if they are an identifier. -/
def Scan.renamed (scan : Scan) (taken : Bytes) : Bytes :=
  match scan.result with
  | .ok (.identifier word) => rename word
  | _ => taken

/-- A text with new names for its identifiers, when `skip` bytes belong to an item already taken. -/
def Bytes.renamedFrom (skip : Nat) : Bytes → Bytes
  | [] => []
  | byte :: rest =>
      match skip with
      | skip + 1 => renamedFrom skip rest
      | 0 =>
          if byte.isBlank then byte :: renamedFrom 0 rest
          else
            let scan := Scan.item byte rest
            scan.renamed rename ((byte :: rest).take scan.length) ++
              renamedFrom (scan.length - 1) rest

/-- A text with new names for its identifiers. -/
def Bytes.renamed (text : Bytes) : Bytes :=
  text.renamedFrom rename 0

/-- An item with a new name if it is an identifier. -/
def Item.renamed (item : Item) : Item :=
  { item with result := item.result.map (Lexeme.mapEach rename id) }

end

/-- A name has no newline in it. -/
theorem Bytes.IsName.map_newline {word : Bytes} (isName : word.IsName) :
    word.map (· == Byte.newline) = List.replicate word.length false := by
  refine List.eq_replicate_iff.mpr ⟨List.length_map _, ?_⟩
  intro isNewline member
  rcases List.mem_map.mp member with ⟨byte, byteMem, rfl⟩
  have continues := isName.isWord.2 byte byteMem
  refine beq_eq_false_iff_ne.mpr ?_
  rintro rfl
  cases continues

/-- Exchanging two names of the same length is a renaming. -/
theorem Bytes.isRenaming_swap {first second : Bytes} (isName : first.IsName)
    (otherIsName : second.IsName) (length_eq : first.length = second.length) :
    IsRenaming (Equiv.swap first second) where
  isName := by
    intro word wordIsName
    rw [Equiv.swap_apply_def]
    split
    · exact otherIsName
    · split
      · exact isName
      · exact wordIsName
  length_eq := by
    intro word _
    rw [Equiv.swap_apply_def]
    split
    · simp [*]
    · split
      · simp [*]
      · rfl
  injective := fun _ _ _ _ same => (Equiv.swap first second).injective same

theorem Bytes.renamedFrom_skip (rename : Bytes → Bytes) : (skip : Nat) → (text : Bytes) →
    renamedFrom rename skip text = renamedFrom rename 0 (text.drop skip)
  | 0, _ => rfl
  | _ + 1, [] => rfl
  | skip + 1, _ :: rest => by
      rw [renamedFrom, renamedFrom_skip rename skip rest, List.drop_succ_cons]

/-- What becomes of a text does not depend on the lexeme in front of it. -/
theorem Bytes.renamedFrom_of_munch {taken others : Bytes} {lexeme : Lexeme Bytes}
    (munch : lexeme.Munch taken others) (rename : Bytes → Bytes) :
    renamedFrom rename 0 (taken ++ others) =
      Scan.renamed rename ⟨taken.length, .ok lexeme⟩ taken ++ renamedFrom rename 0 others := by
  rcases munch.exists_item with ⟨first, rest, rfl, solid, found⟩
  rw [List.cons_append, renamedFrom, if_neg (by simp [solid])]
  simp only [found, Nat.add_sub_cancel, List.take_succ_cons, List.take_left]
  rw [renamedFrom_skip, List.drop_left]
  rfl

/-- Two bytes are the same, or each of them could start a name. -/
def Byte.Alike (byte other : Byte) : Prop :=
  byte = other ∨ byte.isLetter ∧ other.isLetter

/-- What ends a lexeme still does when one name behind it is replaced by another one. -/
theorem Lexeme.Ends.of_alike {lexeme : Lexeme Bytes} {others replaced : Bytes}
    (ends : lexeme.Ends others)
    (alike : ∀ next ∈ replaced.head?, ∃ old ∈ others.head?, old.Alike next) :
    lexeme.Ends replaced := by
  have notDigit {next : Byte} (isLetter : next.isLetter) : next.isDigit = false :=
    Bool.eq_false_iff.mpr fun digit => by
      rw [Byte.isLetter_eq_false_of_isDigit digit] at isLetter
      cases isLetter
  have word (ends : ∀ next ∈ others.head?, next.continuesName = false) :
      ∀ next ∈ replaced.head?, next.continuesName = false := by
    intro next member
    rcases alike next member with ⟨old, oldMem, rfl | ⟨isLetter, _⟩⟩
    · exact ends old oldMem
    · have refused := ends old oldMem
      simp [Byte.continuesName, isLetter] at refused
  cases lexeme with
  | identifier | boolean | keyword | typeName => exact word ends
  | integer value =>
      intro next member
      rcases alike next member with ⟨old, oldMem, rfl | ⟨_, isLetter⟩⟩
      · exact ends old oldMem
      · refine ⟨notDigit isLetter, ?_⟩
        rintro rfl
        cases isLetter
  | decimal value =>
      intro next member
      rcases alike next member with ⟨old, oldMem, rfl | ⟨_, isLetter⟩⟩
      · exact ends old oldMem
      · exact notDigit isLetter
  | string => trivial
  | punct mark =>
      intro next member fused
      rcases alike next member with ⟨old, oldMem, rfl | ⟨_, isLetter⟩⟩
      · exact ends old oldMem fused
      · rintro rfl
        cases isLetter

/-- The bytes of a lexeme stay, or they are a name and become the new one. -/
theorem Scan.renamed_cases (rename : Bytes → Bytes) {taken others : Bytes} {lexeme : Lexeme Bytes}
    (munch : lexeme.Munch taken others) :
    renamed rename ⟨taken.length, .ok lexeme⟩ taken = taken ∨
      taken.IsName ∧ renamed rename ⟨taken.length, .ok lexeme⟩ taken = rename taken := by
  cases lexeme with
  | identifier word =>
      rcases munch.spelled.isName with ⟨rfl, isName⟩
      exact .inr ⟨isName, rfl⟩
  | _ => exact .inl rfl

section

variable {rename : Bytes → Bytes} (isRenaming : Bytes.IsRenaming rename)

include isRenaming

/-- What becomes of a lexeme: bytes as many as before, which form the lexeme with its new name. -/
theorem Lexeme.Munch.renamed {taken others replaced : Bytes} {lexeme : Lexeme Bytes}
    (munch : lexeme.Munch taken others)
    (alike : ∀ next ∈ replaced.head?, ∃ old ∈ others.head?, old.Alike next) :
    (lexeme.mapEach rename id).Munch (Scan.renamed rename ⟨taken.length, .ok lexeme⟩ taken)
      replaced := by
  have ends := munch.ends.of_alike alike
  cases lexeme with
  | identifier word =>
      rcases munch.spelled.isName with ⟨rfl, isName⟩
      exact (isRenaming.isName _ isName).munch ends
  | _ => exact ⟨munch.spelled, ends⟩

theorem Scan.length_renamed {taken others : Bytes} {lexeme : Lexeme Bytes}
    (munch : lexeme.Munch taken others) :
    (renamed rename ⟨taken.length, .ok lexeme⟩ taken).length = taken.length := by
  rcases renamed_cases rename munch with same | ⟨isName, renamed_eq⟩
  · rw [same]
  · rw [renamed_eq]
    exact isRenaming.length_eq taken isName

namespace Item.Reads

variable {offset : Nat} {text : Bytes} {items : List Item} (reads : Reads offset text items)

include reads

/-- A text and what becomes of it start with the same byte or with two letters. -/
theorem alike : ∀ next ∈ (text.renamedFrom rename 0).head?, ∃ old ∈ text.head?, old.Alike next := by
  cases reads with
  | done => simp [Bytes.renamedFrom]
  | blank isBlank =>
      rw [Bytes.renamedFrom, if_pos isBlank]
      rintro next ⟨⟩
      exact ⟨_, rfl, .inl rfl⟩
  | @lexeme _ taken rest lexeme items munch others =>
      intro next member
      rw [Bytes.renamedFrom_of_munch munch] at member
      rcases munch.exists_item with ⟨first, more, taken_eq, _, _⟩
      rcases Scan.renamed_cases rename munch with same | ⟨isName, renamed_eq⟩
      · rw [same] at member
        subst taken_eq
        exact ⟨first, rfl, .inl (Option.some.inj member)⟩
      · rcases isName.isWord.1 with ⟨old, oldMem, isLetter⟩
        rcases (isRenaming.isName taken isName).isWord.1 with ⟨new, newMem, newIsLetter⟩
        rw [renamed_eq, List.head?_append, Option.mem_def.mp newMem] at member
        cases member
        refine ⟨old, ?_, .inr ⟨isLetter, newIsLetter⟩⟩
        rw [List.head?_append, Option.mem_def.mp oldMem]
        rfl

/-- A renamed text is read as the same items, with new names. -/
theorem renamed :
    Reads offset (text.renamedFrom rename 0) (items.map (Item.renamed rename)) := by
  induction reads with
  | done => exact .done
  | blank isBlank _ ih =>
      rw [Bytes.renamedFrom, if_pos isBlank]
      exact .blank isBlank ih
  | @lexeme offset taken rest lexeme items munch others ih =>
      rw [Bytes.renamedFrom_of_munch munch]
      have length_eq := Scan.length_renamed isRenaming munch
      have munched := munch.renamed isRenaming (others.alike isRenaming)
      rw [← length_eq] at ih
      have first : Reads offset _ _ := .lexeme munched ih
      rw [length_eq] at first
      exact first

/-- A renamed text has its newlines where the text has them. -/
theorem newlines_eq :
    (text.renamedFrom rename 0).map (· == Byte.newline) = text.map (· == Byte.newline) := by
  induction reads with
  | done => rfl
  | blank isBlank _ ih => rw [Bytes.renamedFrom, if_pos isBlank, List.map_cons, ih, List.map_cons]
  | @lexeme offset taken rest lexeme items munch _ ih =>
      rw [Bytes.renamedFrom_of_munch munch, List.map_append, List.map_append, ih]
      refine congrArg (· ++ _) ?_
      rcases Scan.renamed_cases rename munch with same | ⟨isName, renamed_eq⟩
      · rw [same]
      · rw [renamed_eq, (isRenaming.isName taken isName).map_newline, isName.map_newline,
          isRenaming.length_eq taken isName]

end Item.Reads

/-- The items of a renamed text are those of the text, with new names. -/
theorem Item.list_renamed {text : Bytes}
    (clean : ∀ item ∈ list text, ∃ lexeme, item.result = .ok lexeme) :
    list (text.renamed rename) = (list text).map (renamed rename) :=
  ((reads_listFrom 0 text clean).renamed isRenaming).listFrom_eq

theorem Bytes.newlines_renamed {text : Bytes}
    (clean : ∀ item ∈ Item.list text, ∃ lexeme, item.result = .ok lexeme) :
    (text.renamed rename).map (· == Byte.newline) = text.map (· == Byte.newline) :=
  (Item.reads_listFrom 0 text clean).newlines_eq isRenaming

end

end TypedLang
