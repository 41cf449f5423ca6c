import Mathlib.Data.List.Basic
import Mathlib.Data.List.Infix
import TypedLang.Bytes

/-!
# Printed lines

What is printed is a sequence of lines, each with a newline behind it. As long as no line has a
newline in it, the lines can be read back, so that nothing that is printed inside of a line can pass
for a line of its own.
-/

namespace TypedLang

namespace Bytes

/-- The characters of a number are digits, so each of them is one byte. -/
theorem toNat_of_mem_toDigits {number : Nat} {character : Char}
    (member : character ∈ Nat.toDigits 10 number) :
    character.toNat.toUInt8.toNat = character.toNat ∧
      Byte.isDigit character.toNat.toUInt8 := by
  have isDigit := Nat.isDigit_of_mem_toDigits (by omega) (Nat.le_refl 10) member
  simp only [Char.isDigit, Bool.and_eq_true, decide_eq_true_eq] at isDigit
  have lower : 48 ≤ character.toNat := UInt32.le_iff_toNat_le.mp isDigit.1
  have upper : character.toNat ≤ 57 := UInt32.le_iff_toNat_le.mp isDigit.2
  simp only [Byte.isDigit, Bool.and_eq_true, decide_eq_true_eq, UInt8.le_iff_toNat_le,
    Nat.toUInt8_eq, UInt8.toNat_ofNat', UInt8.reduceToNat]
  omega

theorem isDigit_of_mem_ofNat {number : Nat} : ∀ byte ∈ ofNat number, Byte.isDigit byte := by
  intro byte member
  rcases List.mem_map.mp member with ⟨character, characterMem, rfl⟩
  exact (toNat_of_mem_toDigits characterMem).2

/-- A number that was printed can be read. -/
theorem toNumber_ofNat (number : Nat) : (ofNat number).toNumber = number := by
  rw [toNumber, ofNat, List.foldl_map]
  refine Eq.trans (List.foldl_ext _ _ 0 ?_) Nat.ofDigitChars_ten_toDigits
  intro value character member
  exact congrArg (fun code => 10 * value + (code - 48)) (toNat_of_mem_toDigits member).1

/-- Different numbers are printed differently. -/
theorem ofNat_injective : Function.Injective ofNat :=
  Function.LeftInverse.injective toNumber_ofNat

/-- Whether a text fits into one line: it has no newline. -/
def IsLine (text : Bytes) : Prop :=
  Byte.newline ∉ text

instance : DecidablePred IsLine :=
  fun text => inferInstanceAs (Decidable (Byte.newline ∉ text))

@[simp] theorem isLine_nil : IsLine [] :=
  List.not_mem_nil

@[simp] theorem isLine_cons_iff {byte : Byte} {text : Bytes} :
    IsLine (byte :: text) ↔ byte ≠ Byte.newline ∧ text.IsLine := by
  simp [IsLine, eq_comm]

@[simp] theorem isLine_append_iff {text other : Bytes} :
    IsLine (text ++ other) ↔ text.IsLine ∧ other.IsLine := by
  simp [IsLine]

@[simp] theorem isLine_concat_iff {pieces : List Bytes} :
    (concat pieces).IsLine ↔ ∀ piece ∈ pieces, piece.IsLine := by
  simp [IsLine, concat]

@[simp] theorem isLine_quoted_iff {text : Bytes} : text.quoted.IsLine ↔ text.IsLine := by
  have quote : IsLine "'" := by decide
  simp [quoted, quote]

theorem isLine_of_isDigit {digits : Bytes} (isDigits : ∀ digit ∈ digits, Byte.isDigit digit) :
    digits.IsLine := by
  intro member
  cases isDigits _ member

theorem isLine_ofNat (number : Nat) : (ofNat number).IsLine :=
  isLine_of_isDigit isDigit_of_mem_ofNat

theorem IsLine.of_within {text piece : Bytes} (isLine : text.IsLine) (within : piece <:+: text) :
    piece.IsLine :=
  fun member => isLine (within.subset member)

/-- What stands in front of the first separator, and what stands behind it. -/
theorem separated_inj {separator : Byte} {front other rest otherRest : Bytes}
    (absent : separator ∉ front) (otherAbsent : separator ∉ other)
    (same : front ++ separator :: rest = other ++ separator :: otherRest) :
    front = other ∧ rest = otherRest := by
  rcases List.append_eq_append_iff.mp same with ⟨more, rfl, tail_eq⟩ | ⟨more, rfl, tail_eq⟩
  all_goals rcases more with _ | ⟨next, more⟩
  · exact ⟨(List.append_nil _).symm, (List.cons.inj tail_eq).2⟩
  · cases tail_eq
    simp at otherAbsent
  · exact ⟨List.append_nil _, (List.cons.inj tail_eq).2.symm⟩
  · cases tail_eq
    simp at absent

/-- What stands behind the last separator, and what stands in front of it. -/
theorem separated_last_inj {separator : Byte} {front other back otherBack : Bytes}
    (absent : separator ∉ back) (otherAbsent : separator ∉ otherBack)
    (same : front ++ separator :: back = other ++ separator :: otherBack) :
    front = other ∧ back = otherBack := by
  have reversed := congrArg List.reverse same
  simp only [List.reverse_append, List.reverse_cons, List.append_assoc, List.singleton_append]
    at reversed
  rcases separated_inj (by simpa using absent) (by simpa using otherAbsent) reversed with
    ⟨back_eq, front_eq⟩
  exact ⟨List.reverse_injective front_eq, List.reverse_injective back_eq⟩

/-- Lines, each with a newline behind it. -/
def unlines (lines : List Bytes) : Bytes :=
  lines.flatMap fun line => line ++ [Byte.newline]

@[simp] theorem unlines_nil : unlines [] = [] :=
  rfl

@[simp] theorem unlines_cons (line : Bytes) (lines : List Bytes) :
    unlines (line :: lines) = line ++ Byte.newline :: unlines lines := by
  simp [unlines]

theorem unlines_flatMap {Part : Type} (parts : List Part) (lines : Part → List Bytes) :
    unlines (parts.flatMap lines) = parts.flatMap fun part => unlines (lines part) :=
  List.flatMap_assoc

/-- A text is made of lines in one way only. -/
theorem unlines_injective {lines others : List Bytes} (areLines : ∀ line ∈ lines, line.IsLine)
    (otherLines : ∀ line ∈ others, line.IsLine) (same : unlines lines = unlines others) :
    lines = others := by
  induction lines generalizing others with
  | nil =>
      rcases others with _ | ⟨other, others⟩
      · rfl
      · simp at same
  | cons line lines ih =>
      rcases others with _ | ⟨other, others⟩
      · simp at same
      rw [List.forall_mem_cons] at areLines otherLines
      rw [unlines_cons, unlines_cons] at same
      rcases separated_inj areLines.1 otherLines.1 same with ⟨rfl, rest⟩
      rw [ih areLines.2 otherLines.2 rest]

end Bytes

end TypedLang
