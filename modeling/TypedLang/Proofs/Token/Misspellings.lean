import TypedLang.Proofs.Token.Scanning

/-!
# Misspellings

Where there is no lexeme the scanner takes bytes all the same: all of a number that is out of range,
all that is left behind a quote that nothing closes, and otherwise one character. What it reports as
found is what it took, save for a string without end.
-/

namespace TypedLang

namespace Scan

/-- How bytes in front of others form a misspelling. -/
inductive Misspells : (taken others : Bytes) → Misspelling → Prop where
  | outOfRange {number others expected : Bytes} (nonempty : number ≠ [])
      (digits : ∀ byte ∈ number, byte.isDigit ∨ byte = Byte.dot) :
      Misspells number others ⟨.outOfRange, number, expected⟩
  | unterminated (body : Bytes) :
      Misspells (Byte.quote :: body) [] ⟨.unterminatedLiteral, "end of input", "'\"'"⟩
  | unexpected {first : Byte} {more others : Bytes}
      (more_eq : more =
        if first.isBeyondAscii then ((more ++ others).take 3).takeWhile Byte.continuesCharacter
        else []) :
      Misspells (first :: more) others
        ⟨.unexpectedCharacter, first :: more, "the start of a token"⟩

/-- What a scan takes at the front of a text, unless it is a lexeme, is a misspelling. -/
def Fails (scan : Scan) (text : Bytes) : Prop :=
  ∀ misspelling, scan.result = .error misspelling → ∃ taken others, text = taken ++ others ∧
    scan.length = taken.length ∧ Misspells taken others misspelling

theorem number_fails {first : Byte} (isDigit : first.isDigit) (rest : Bytes) :
    (number (first :: rest)).Fails (first :: rest) := by
  intro misspelling failed
  rcases number_cases isDigit rest with
    ⟨digits, others, split, isDigits, _, number_eq⟩ |
      ⟨whole, fraction, others, split, isDigits, fractionDigits, _, number_eq⟩
  · rw [number_eq] at failed ⊢
    dsimp only [integer] at failed
    split_ifs at failed
    cases failed
    exact ⟨digits, others, split, rfl,
      .outOfRange isDigits.1 fun byte member => .inl (isDigits.2 byte member)⟩
  · rw [number_eq] at failed ⊢
    dsimp only [decimal] at failed
    cases value_eq : Binary64.ofDecimal? (Bytes.toNumber (whole ++ fraction)) fraction.length with
    | some value =>
        rw [value_eq] at failed
        cases failed
    | none =>
        rw [value_eq] at failed
        cases failed
        refine ⟨_, others, split, rfl, .outOfRange (by simp) fun byte member => ?_⟩
        rcases List.mem_append.mp member with inWhole | behind
        · exact .inl (isDigits.2 byte inWhole)
        rcases List.mem_cons.mp behind with isDot | inFraction
        · exact .inr isDot
        · exact .inl (fractionDigits byte inFraction)

theorem string_fails (rest : Bytes) : (string rest).Fails (Byte.quote :: rest) := by
  intro misspelling failed
  rw [string] at failed ⊢
  split_ifs at failed with closed
  cases failed
  rw [if_neg closed]
  rcases (takeWindowed_quotable Byte.quote rest).2 with whole | ⟨_, others, split⟩
  · rw [whole]
    exact ⟨Byte.quote :: rest, [], (List.append_nil _).symm, rfl, .unterminated rest⟩
  · have lengths := congrArg List.length split
    rw [List.length_append, List.length_cons] at lengths
    omega

theorem unexpected_fails (first : Byte) (rest : Bytes) :
    (unexpected first rest).Fails (first :: rest) := by
  intro misspelling failed
  -- The bytes behind the first one are some of the next three.
  have ahead : (if first.isBeyondAscii then (rest.take 3).takeWhile Byte.continuesCharacter
      else []) <+: rest := by
    split
    · exact (List.takeWhile_prefix _).trans (List.take_prefix 3 rest)
    · exact List.nil_prefix
  rw [unexpected] at failed ⊢
  generalize more_eq : (if first.isBeyondAscii then
    (rest.take 3).takeWhile Byte.continuesCharacter else []) = more at *
  rcases ahead with ⟨others, split⟩
  cases failed
  subst split
  exact ⟨first :: more, others, rfl, Nat.add_comm 1 _, .unexpected more_eq.symm⟩

theorem punct_fails (first : Byte) (rest : Bytes) : (punct first rest).Fails (first :: rest) := by
  rw [punct]
  split
  · rintro misspelling ⟨⟩
  · split
    · rintro misspelling ⟨⟩
    · exact unexpected_fails first rest

/-- What the scanner takes is a lexeme or a misspelling. -/
theorem item_fails (first : Byte) (rest : Bytes) : (item first rest).Fails (first :: rest) := by
  rw [item]
  split
  · rintro misspelling ⟨⟩
  · split
    · exact number_fails ‹_› rest
    · split
      · rename_i isQuote
        rw [isQuote]
        exact string_fails rest
      · exact punct_fails first rest

end Scan

end TypedLang
