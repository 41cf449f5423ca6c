import TypedLang.Proofs.Compilation
import TypedLang.Proofs.Exchange.Binding
import TypedLang.Proofs.Exchange.Typing

/-!
# Neighbouring functions in either order

A program may use a function before it declares it, so that the order of the functions should not
matter. The main result says that it does not: when two functions that stand next to each other
change places, the same stage fails with errors that say the same, and if all names are resolved,
the trees are the same up to the numbers of the symbols.
-/

namespace TypedLang

namespace Checked.TypesSymbols

variable {checked : Checked Program} {program : Program} {arena : Arena}

/-- Each symbol that the checker leaves belongs to a declaration. -/
theorem exists_declaration (types : checked.TypesSymbols program arena) {id : SymbolId}
    {symbol : Symbol} (found : checked.arena.get? id = some symbol) :
    ∃ declaration ∈ program.declarations.flatMap Decl.typings, declaration.symbol = some id := by
  have size_eq := congrArg List.length types.symbols
  rw [List.length_map] at size_eq
  have known : id < arena.size := Nat.lt_of_lt_of_eq (Arena.lt_size_of_get? found) size_eq
  have numbered : some id ∈ (List.range arena.size).map some :=
    List.mem_map_of_mem (List.mem_range.mpr known)
  exact List.mem_map.mp (types.numbered.mem_iff.mpr numbered)

/-- A symbol is the same in a program that is renumbered and ordered in another way. -/
theorem get?_renumber {numbering : Equiv.Perm SymbolId} {other : Checked Program}
    {otherProgram : Program} {otherArena : Arena} (types : checked.TypesSymbols program arena)
    (otherTypes : other.TypesSymbols otherProgram otherArena)
    (typings : (otherProgram.declarations.flatMap Decl.typings).Perm
      ((program.declarations.flatMap Decl.typings).map (Declaration.renumber numbering)))
    (id : SymbolId) : other.arena.get? (numbering id) = checked.arena.get? id := by
  cases found : checked.arena.get? id with
  | some symbol =>
      rcases types.exists_declaration found with ⟨declaration, member, own⟩
      have otherMember := typings.mem_iff.mpr (List.mem_map_of_mem member)
      have otherOwn : (declaration.renumber numbering).symbol = some (numbering id) :=
        congrArg (Option.map numbering) own
      rw [← found, (types.typed declaration member id own).2,
        (otherTypes.typed _ otherMember _ otherOwn).2]
      rfl
  | none =>
      rw [Option.eq_none_iff_forall_ne_some]
      intro symbol otherFound
      rcases otherTypes.exists_declaration otherFound with ⟨other, otherMember, otherOwn⟩
      rcases List.mem_map.mp (typings.mem_iff.mp otherMember) with ⟨declaration, member, rfl⟩
      rcases Option.map_eq_some_iff.mp otherOwn with ⟨number, own, same⟩
      rw [numbering.injective same] at own
      cases found.symm.trans (types.typed declaration member id own).2

end Checked.TypesSymbols

/-- Every identifier has a symbol, and this is the symbol of exactly one declaration. -/
structure Program.BindsAll (program : Program) : Prop where
  distinct : ((program.declarations.flatMap Decl.typings).map Declaration.symbol).Nodup
  bound : ∀ occurrence ∈ program.occurrences, occurrence.symbol ≠ none ∧
    occurrence.symbol ∈ (program.declarations.flatMap Decl.typings).map Declaration.symbol

/--
What the analysis of a program and that of the program with two functions exchanged have in common.
Unless names could not be resolved, all identifiers are bound and the trees are the same up to a
renumbering, under which the symbols are the same as well: each identifier is bound to the same
declaration, and each expression has the same type.
-/
structure Analysis.AgreesWith (analysis : Analysis) (position : Nat) (other : Analysis) : Prop where
  failedStage : other.failedStage = analysis.failedStage
  resolutionErrors : (other.resolutionErrors.map ResolutionError.gist).Perm
    (analysis.resolutionErrors.map ResolutionError.gist)
  typeErrors : other.typeErrors.Perm analysis.typeErrors
  bindsAll : analysis.failedStage ≠ some .nameResolution → analysis.program.BindsAll
  renumbered : analysis.failedStage ≠ some .nameResolution → ∃ numbering : Equiv.Perm SymbolId,
    other.program = (analysis.program.exchange position).renumber numbering ∧
      ∀ id, other.arena.get? (numbering id) = analysis.arena.get? id

namespace Program

variable {position : Nat} {program : Program}

theorem resolve_errors_exchange_perm (fresh : program.symbols = [])
    (neighbours : Decl.Neighbours position program.declarations) (arena : Arena) :
    (((program.exchange position).resolve arena).errors.map ResolutionError.gist).Perm
      ((program.resolve arena).errors.map ResolutionError.gist) := by
  have otherErrors := resolve_errors_perm arena (symbols_exchange position fresh)
  have errors := resolve_errors_perm arena fresh
  exact (otherErrors.map _).trans ((scopeErrors_exchange_perm neighbours).trans
    (errors.map _).symm)

/-- Behind a resolution without errors, the checked tree still has all its symbols. -/
theorem check_bindsAll (fresh : program.symbols = [])
    (clean : (program.resolve .empty).errors = []) {checked : Checked Program}
    (checks : (program.resolve .empty).program.check (program.resolve .empty).arena = .ok checked) :
    checked.piece.BindsAll := by
  rcases check_typesSymbols fresh clean with ⟨_, checksAgain, types⟩
  cases checks.symm.trans checksAgain
  rcases program.resolve_conforms .empty fresh with ⟨_, bound, _⟩
  have wellScoped := (resolve_accepts fresh clean).1
  constructor
  · rw [← typings_withoutTypes, types.tree, typings_withoutTypes, types.numbered.nodup_iff]
    exact List.nodup_range.map (Option.some_injective _)
  · rw [← occurrences_withoutTypes, ← typings_withoutTypes, types.tree, occurrences_withoutTypes,
      typings_withoutTypes]
    intro occurrence member
    rcases wellScoped.bound occurrence member with ⟨declaration, means, _⟩
    have isBound := Occurrence.isBound_of_mem bound member
    rw [Occurrence.IsBound, means] at isBound
    generalize occurrence.symbol = symbol at isBound ⊢
    cases isBound with
    | @some id _ known =>
        have numbered : some id ∈ (List.range (program.resolve .empty).arena.size).map some :=
          List.mem_map_of_mem (List.mem_range.mpr (Arena.lt_size_of_get? known.2))
        exact ⟨Option.some_ne_none id, types.numbered.mem_iff.mpr numbered⟩

/-- Behind a resolution without errors, the checker finds the same in either order. -/
theorem check_exchange (fresh : program.symbols = [])
    (neighbours : Decl.Neighbours position program.declarations)
    (clean : (program.resolve .empty).errors = [])
    (otherClean : ((program.exchange position).resolve .empty).errors = [])
    {checked other : Checked Program}
    (checks : (program.resolve .empty).program.check (program.resolve .empty).arena = .ok checked)
    (otherChecks : ((program.exchange position).resolve .empty).program.check
      ((program.exchange position).resolve .empty).arena = .ok other) :
    other.errors.Perm checked.errors ∧ ∃ numbering : Equiv.Perm SymbolId,
      other.piece = (checked.piece.exchange position).renumber numbering ∧
        ∀ id, other.arena.get? (numbering id) = checked.arena.get? id := by
  rcases check_judged fresh clean with ⟨_, checksAgain, types, judged⟩
  cases checks.symm.trans checksAgain
  rcases check_judged (symbols_exchange position fresh) otherClean with
    ⟨_, otherChecksAgain, otherTypes, otherJudged⟩
  cases otherChecks.symm.trans otherChecksAgain
  rcases resolve_exchange fresh neighbours clean otherClean with ⟨numbering, resolved_eq⟩
  rw [resolved_eq] at otherTypes otherJudged
  have typings := ((Decl.exchange_perm position
    (program.resolve .empty).program.declarations).flatMap_right Decl.typings).map
      (Declaration.renumber numbering)
  have same := types.get?_renumber otherTypes
    ((List.Perm.of_eq (typings_renumber _ _)).trans typings)
  rcases judge_exchange position checked.arena (program.resolve .empty).program with
    ⟨piece_eq, errors_perm⟩
  rw [judge_renumber same] at otherJudged
  rw [judged] at piece_eq errors_perm
  rcases Prod.mk.inj otherJudged with ⟨otherPiece_eq, otherErrors_eq⟩
  rw [← otherPiece_eq, ← otherErrors_eq, piece_eq]
  exact ⟨errors_perm, numbering, rfl, same⟩

theorem analyze_exchange (fresh : program.symbols = [])
    (neighbours : Decl.Neighbours position program.declarations) {analysis other : Analysis}
    (analyzed : program.analyze .empty = .ok analysis)
    (otherAnalyzed : (program.exchange position).analyze .empty = .ok other) :
    analysis.AgreesWith position other := by
  have errors := resolve_errors_exchange_perm fresh neighbours .empty
  rcases analyze_cases fresh analyzed with ⟨unclean, rfl⟩ | ⟨checked, clean, checks, rfl⟩
  · rcases analyze_cases (symbols_exchange position fresh) otherAnalyzed with
      ⟨_, rfl⟩ | ⟨_, otherClean, _⟩
    · exact ⟨rfl, errors, .nil, fun resolved => absurd rfl resolved,
        fun resolved => absurd rfl resolved⟩
    · rw [otherClean, List.map_nil, List.nil_perm, List.map_eq_nil_iff] at errors
      exact absurd errors unclean
  · rcases analyze_cases (symbols_exchange position fresh) otherAnalyzed with
      ⟨otherUnclean, _⟩ | ⟨other, otherClean, otherChecks, rfl⟩
    · rw [clean, List.map_nil, List.perm_nil, List.map_eq_nil_iff] at errors
      exact absurd errors otherUnclean
    · rcases check_exchange fresh neighbours clean otherClean checks otherChecks with
        ⟨typeErrors, renumbered⟩
      refine ⟨?_, .nil, typeErrors, fun _ => check_bindsAll fresh clean checks, fun _ => renumbered⟩
      simp only [typeErrors.isEmpty_eq]

end Program

/--
The order of neighbouring functions is irrelevant to the analysis of a parsed program: both orders
are analyzed without a fault, fail at the same stage, with errors that say the same, and bind and
type the same.
-/
theorem Program.analyze_exchanged_functions (source : SourceId) (tokens : List Token)
    (position : Nat) :
    let program := (Parsed.ofTokens source tokens).program
    Decl.Neighbours position program.declarations →
      ∃ analysis other, program.analyze .empty = .ok analysis ∧
        (program.exchange position).analyze .empty = .ok other ∧
        analysis.AgreesWith position other := by
  intro program neighbours
  have fresh : program.symbols = [] := Parsed.symbols_eq_nil source tokens
  rcases exists_analyze_eq_ok fresh with ⟨analysis, analyzed⟩
  rcases exists_analyze_eq_ok (symbols_exchange position fresh) with ⟨other, otherAnalyzed⟩
  exact ⟨analysis, other, analyzed, otherAnalyzed,
    analyze_exchange fresh neighbours analyzed otherAnalyzed⟩

/-- Two functions that call each other. -/
theorem Program.analyze_exchanged_functions_recursion :
    let tokens : List Token :=
      [⟨.keyword .funWord, .single 0⟩, ⟨.identifier 0, .single 1⟩, ⟨.punct .leftParen, .single 2⟩,
        ⟨.punct .rightParen, .single 3⟩, ⟨.punct .atSign, .single 4⟩, ⟨.typeName .u8, .single 5⟩,
        ⟨.punct .leftBrace, .single 6⟩, ⟨.keyword .returnWord, .single 7⟩,
        ⟨.identifier 1, .single 8⟩, ⟨.punct .leftParen, .single 9⟩,
        ⟨.punct .rightParen, .single 10⟩, ⟨.punct .semicolon, .single 11⟩,
        ⟨.punct .rightBrace, .single 12⟩,
        ⟨.keyword .funWord, .single 13⟩, ⟨.identifier 1, .single 14⟩,
        ⟨.punct .leftParen, .single 15⟩, ⟨.punct .rightParen, .single 16⟩,
        ⟨.punct .atSign, .single 17⟩, ⟨.typeName .u8, .single 18⟩,
        ⟨.punct .leftBrace, .single 19⟩, ⟨.keyword .returnWord, .single 20⟩,
        ⟨.identifier 0, .single 21⟩, ⟨.punct .leftParen, .single 22⟩,
        ⟨.punct .rightParen, .single 23⟩, ⟨.punct .semicolon, .single 24⟩,
        ⟨.punct .rightBrace, .single 25⟩]
    let program := (Parsed.ofTokens 0 tokens).program
    Decl.Neighbours 0 program.declarations ∧
      ∃ analysis other, program.analyze .empty = .ok analysis ∧
        (program.exchange 0).analyze .empty = .ok other ∧ analysis.AgreesWith 0 other :=
  have neighbours := Decl.Neighbours.of_isFunction (by decide) (by decide)
  ⟨neighbours, Program.analyze_exchanged_functions 0 _ 0 neighbours⟩

end TypedLang
