import TypedLang.Parsing.Recovery

/-!
# Recoveries token by token

A recovery looks at one token after the other and counts braces as it goes. In front of a token it
may find that a construct goes on or starts there, behind it that a statement or a body ends there.
Inside a block and among declarations this is done in different manners, by one and the same loop.

Here the braces are counted with integers, which could fall below zero. They never do: a block gives
up in front of the closing brace that would do it, and a program does not count such a brace.
-/

namespace TypedLang

namespace Recovery

/--
A manner to recover: how the depth in braces changes with a token, in front of which tokens the
recovery stops, told whether there was progress before, and behind which ones.
-/
structure Manner where
  count : (depth : Int) → TokenKind → Int
  resumes : (progressed : Bool) → (depth : Int) → TokenKind → Prop
  ends : (depth : Int) → TokenKind → Prop
  count_nonneg : ∀ {progressed : Bool} {depth : Int} {kind : TokenKind},
    0 ≤ depth → ¬ resumes progressed depth kind → 0 ≤ count depth kind

namespace Manner

/-- The recovery inside a block. -/
def block : Manner where
  count depth kind :=
    if kind = .punct .leftBrace then depth + 1
    else if kind = .punct .rightBrace then depth - 1
    else depth
  resumes progressed depth kind :=
    depth = 0 ∧ (kind = .punct .rightBrace ∨
      progressed = true ∧ (kind = .keyword .letWord ∨ kind = .keyword .returnWord))
  ends depth kind := depth = 0 ∧ kind = .punct .semicolon
  count_nonneg := by
    intro progressed depth kind nonneg goesOn
    split
    · omega
    · split
      · have inside : depth ≠ 0 := fun outside => goesOn ⟨outside, .inl ‹_›⟩
        omega
      · exact nonneg

/-- The recovery among declarations. -/
def program : Manner where
  count depth kind :=
    if kind = .punct .leftBrace then depth + 1
    else if kind = .punct .rightBrace ∧ 0 < depth then depth - 1
    else depth
  resumes progressed depth kind :=
    progressed = true ∧ depth = 0 ∧
      (kind = .keyword .funWord ∨ kind = .keyword .structWord ∨ kind = .keyword .letWord)
  ends depth kind :=
    depth = 0 ∧ kind = .punct .semicolon ∨
      kind = .punct .rightBrace ∧ 0 < depth ∧ depth - 1 = 0
  count_nonneg := by
    intro progressed depth kind nonneg _
    split
    · omega
    · split <;> omega

/-- What a recovery leaves of some tokens. -/
inductive Runs (manner : Manner) : Bool → Int → List Token → List Token → Prop where
  | exhausted {progressed : Bool} {depth : Int} : Runs manner progressed depth [] []
  | resume {progressed : Bool} {depth : Int} {token : Token} {rest : List Token} :
      manner.resumes progressed depth token.kind →
      Runs manner progressed depth (token :: rest) (token :: rest)
  | finish {progressed : Bool} {depth : Int} {token : Token} {rest : List Token} :
      ¬ manner.resumes progressed depth token.kind → manner.ends depth token.kind →
      Runs manner progressed depth (token :: rest) rest
  | drop {progressed : Bool} {depth : Int} {token : Token} {rest left : List Token} :
      ¬ manner.resumes progressed depth token.kind → ¬ manner.ends depth token.kind →
      Runs manner true (manner.count depth token.kind) rest left →
      Runs manner progressed depth (token :: rest) left

end Manner

/-- What is done with one token inside a block, in front of it and behind it. -/
theorem inBlock_cons (progressed : Bool) (depth : Nat) (token : Token) (rest : List Token) :
    inBlock progressed depth (token :: rest) =
      if depth = 0 ∧ (token.kind = .punct .rightBrace ∨
          progressed = true ∧ (token.kind = .keyword .letWord ∨ token.kind = .keyword .returnWord))
      then token :: rest
      else if depth = 0 ∧ token.kind = .punct .semicolon then rest
      else if token.kind = .punct .leftBrace then inBlock true (depth + 1) rest
      else if token.kind = .punct .rightBrace then inBlock true (depth - 1) rest
      else inBlock true depth rest := by
  rw [inBlock]
  split <;> grind

/-- What is done with one token among declarations, in front of it and behind it. -/
theorem inProgram_cons (progressed : Bool) (depth : Nat) (token : Token) (rest : List Token) :
    inProgram progressed depth (token :: rest) =
      if progressed = true ∧ depth = 0 ∧ (token.kind = .keyword .funWord ∨
          token.kind = .keyword .structWord ∨ token.kind = .keyword .letWord)
      then token :: rest
      else if depth = 0 ∧ token.kind = .punct .semicolon ∨
          token.kind = .punct .rightBrace ∧ depth = 1 then rest
      else if token.kind = .punct .leftBrace then inProgram true (depth + 1) rest
      else if token.kind = .punct .rightBrace ∧ 0 < depth then inProgram true (depth - 1) rest
      else inProgram true depth rest := by
  rw [inProgram]
  split <;> grind

theorem inBlock_runs (progressed : Bool) (depth : Nat) (tokens : List Token) :
    Manner.block.Runs progressed depth tokens (inBlock progressed depth tokens) := by
  induction tokens generalizing progressed depth with
  | nil => exact .exhausted
  | cons token rest ih =>
      rw [inBlock_cons]
      split
      · rename_i stops
        exact .resume ⟨by omega, stops.2⟩
      · rename_i goesOn
        have notResumes : ¬ Manner.block.resumes progressed depth token.kind :=
          fun ⟨outside, stops⟩ => goesOn ⟨by omega, stops⟩
        split
        · rename_i finishes
          exact .finish notResumes ⟨by omega, finishes.2⟩
        · rename_i notFinishes
          apply Manner.Runs.drop notResumes
          · exact fun ⟨outside, semicolon⟩ => notFinishes ⟨by omega, semicolon⟩
          · simp only [Manner.block]
            split
            · exact ih true (depth + 1)
            · split
              · have inside : depth ≠ 0 := fun outside => goesOn ⟨outside, .inl ‹_›⟩
                have less : ((depth - 1 : Nat) : Int) = depth - 1 := by omega
                rw [← less]
                exact ih true (depth - 1)
              · exact ih true depth

theorem inProgram_runs (progressed : Bool) (depth : Nat) (tokens : List Token) :
    Manner.program.Runs progressed depth tokens (inProgram progressed depth tokens) := by
  induction tokens generalizing progressed depth with
  | nil => exact .exhausted
  | cons token rest ih =>
      rw [inProgram_cons]
      split
      · rename_i stops
        exact .resume ⟨stops.1, by omega, stops.2.2⟩
      · rename_i goesOn
        have notResumes : ¬ Manner.program.resumes progressed depth token.kind :=
          fun ⟨progressed, outside, stops⟩ => goesOn ⟨progressed, by omega, stops⟩
        split
        · rename_i finishes
          apply Manner.Runs.finish notResumes
          rcases finishes with ⟨outside, semicolon⟩ | ⟨close, last⟩
          · exact .inl ⟨by omega, semicolon⟩
          · exact .inr ⟨close, by omega, by omega⟩
        · rename_i notFinishes
          apply Manner.Runs.drop notResumes
          · rintro (⟨outside, semicolon⟩ | ⟨close, inside, last⟩)
            · exact notFinishes (.inl ⟨by omega, semicolon⟩)
            · exact notFinishes (.inr ⟨close, by omega⟩)
          · simp only [Manner.program, Int.natCast_pos]
            split
            · exact ih true (depth + 1)
            · split
              · rename_i closes
                have less : ((depth - 1 : Nat) : Int) = depth - 1 := by omega
                rw [← less]
                exact ih true (depth - 1)
              · exact ih true depth

namespace Manner

variable {manner : Manner} {progressed : Bool} {depth : Int} {token : Token}
  {rest tokens left : List Token}

/-- A recovery only drops tokens in front. -/
theorem Runs.suffix (runs : manner.Runs progressed depth tokens left) : left <:+ tokens := by
  induction runs with
  | exhausted => exact List.suffix_refl _
  | resume _ => exact List.suffix_refl _
  | finish _ _ => exact List.suffix_cons _ _
  | drop _ _ _ ih => exact ih.trans (List.suffix_cons _ _)

/-- A recovery drops the next token or is stopped by it. -/
theorem Runs.drops_or_stops (runs : manner.Runs progressed depth (token :: rest) left) :
    left <:+ rest ∨ left = token :: rest ∧ manner.resumes progressed depth token.kind := by
  cases runs with
  | resume resumes => exact .inr ⟨rfl, resumes⟩
  | finish _ _ => exact .inl (List.suffix_refl _)
  | drop _ _ further => exact .inl further.suffix

end Manner

end Recovery

end TypedLang
