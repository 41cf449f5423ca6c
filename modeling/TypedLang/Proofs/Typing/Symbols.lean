import TypedLang.Proofs.Scope.Numbering
import TypedLang.Proofs.Typing.Programs

/-!
# The types of symbols

Checking writes to two places only: the types of expressions in the tree and the types of symbols in
the arena. A symbol gets its type where its declaration is met, also if a statement in front of it
was wrong, and no symbol is met twice. All else in the tree and in the arena stays as it was.
-/

namespace TypedLang

/-- A cause that is no mistake of the user. -/
inductive TypeErrorCause.IsDefect : TypeErrorCause → Prop where
  | typeAlreadyAssigned : IsDefect .typeAlreadyAssigned
  | missingType : IsDefect .missingType
  | missingSymbol : IsDefect .missingSymbol

theorem WrittenType.FirstMismatch.noDefect {source : SourceId} {parameters : List WrittenType}
    {arguments : List Expr} {types : List Ty} {error : TypeError}
    (mismatch : FirstMismatch source parameters arguments types error) :
    ¬ error.cause.IsDefect := by
  induction mismatch with
  | head => exact nofun
  | tail _ _ ih => exact ih

mutual

/-- A violation of the typing rules is no defect. -/
theorem Expr.FirstViolation.noDefect {source : SourceId} {context : Context} {value : Expr}
    {error : TypeError} : value.FirstViolation source context error → ¬ error.cause.IsDefect
  | .left violation => violation.noDefect
  | .right _ violation => violation.noDefect
  | .binary _ _ _ => nofun
  | .operand violation => violation.noDefect
  | .unary _ _ => nofun
  | .argument _ violations => violations.noDefect
  | .arity _ _ _ => nofun
  | .mismatch _ _ _ mismatch => mismatch.noDefect
  | .inner violation => violation.noDefect
  | .literal _ => nofun

theorem Expr.FirstViolations.noDefect {source : SourceId} {context : Context}
    {values : List Expr} {error : TypeError} :
    Expr.FirstViolations source context values error → ¬ error.cause.IsDefect
  | .head violation => violation.noDefect
  | .tail _ violations => violations.noDefect

end

theorem Leaf.FirstViolation.noDefect {source : SourceId} {leaf : Leaf} {error : TypeError}
    (violation : leaf.FirstViolation source error) : ¬ error.cause.IsDefect := by
  cases violation with
  | value _ violation => exact violation.noDefect
  | initializer _ _ _ => exact nofun
  | returning _ _ => exact nofun

/-- Behind a resolution without errors, the checker meets no defect. -/
theorem Program.check_noDefect {program : Program} (fresh : program.symbols = [])
    (clean : (program.resolve .empty).errors = []) :
    ∃ checked, (program.resolve .empty).program.check (program.resolve .empty).arena = .ok checked ∧
      ∀ error ∈ checked.errors, ¬ error.cause.IsDefect := by
  rcases program.check_follows fresh clean with ⟨checked, follows⟩
  refine ⟨_, checked, ?_⟩
  intro error member
  rcases follows.errors with ⟨verdicts, judged, errors_eq⟩
  rw [errors_eq] at member
  rcases Leaf.exists_of_mem_reduceOption judged member with ⟨leaf, _, violation⟩
  exact violation.noDefect

/-- A symbol as it is before it has a type. -/
def Symbol.withoutType (symbol : Symbol) : Symbol :=
  { symbol with type := none }

/-- The symbol of a declaration, with the type that the declaration states. -/
def Declaration.typedEntry (declaration : Declaration) : Symbol :=
  { declaration.entry with type := some declaration.type.type }

/--
What checking owes to a program whose declarations all have symbols. Each symbol is that of one
declaration, had no type before and has the stated one afterwards; none was written twice, which
would be an error. Apart from that the symbols are the same, and so is the tree up to the types of
its expressions.
-/
structure Checked.TypesSymbols (checked : Checked Program) (program : Program) (arena : Arena) :
    Prop where
  tree : checked.piece.withoutTypes = program.withoutTypes
  numbered : ((program.declarations.flatMap Decl.typings).map Declaration.symbol).Perm
    ((List.range arena.size).map some)
  typed : ∀ declaration ∈ program.declarations.flatMap Decl.typings, ∀ id,
    declaration.symbol = some id → arena.get? id = some declaration.entry ∧
      checked.arena.get? id = some declaration.typedEntry
  once : ∀ error ∈ checked.errors, error.cause ≠ .typeAlreadyAssigned ∧
    error.cause ≠ .missingSymbol
  symbols : checked.arena.symbols.map Symbol.withoutType = arena.symbols

/-- If no declaration is refused, the declarations have the new numbers in order. -/
theorem Arena.Records.map_symbol_eq {arena final : Arena} {declarations : List Declaration}
    (records : arena.Records declarations final)
    (accepted : ∀ declaration ∈ declarations, declaration.symbol ≠ none) :
    declarations.map Declaration.symbol =
        (List.range' arena.size declarations.length).map some ∧
      final.size = arena.size + declarations.length := by
  induction records with
  | nil => exact ⟨rfl, rfl⟩
  | refused unbound _ _ => exact absurd unbound (accepted _ List.mem_cons_self)
  | accepted own _ ih =>
      rcases ih fun declaration member => accepted declaration (List.mem_cons_of_mem _ member) with
        ⟨symbols_eq, size_eq⟩
      rw [size_add] at symbols_eq size_eq
      rw [List.map_cons, own, symbols_eq, List.length_cons, List.range'_succ, List.map_cons]
      exact ⟨rfl, by omega⟩

namespace Checked

variable {checked : Checked Program} {program : Program} {arena : Arena}

/-- Symbols that are typed one by one are otherwise the same. -/
theorem map_withoutType_eq
    (size_eq : checked.arena.size = arena.size)
    (numbered : ((program.declarations.flatMap Decl.typings).map Declaration.symbol).Perm
      ((List.range arena.size).map some))
    (typed : ∀ declaration ∈ program.declarations.flatMap Decl.typings, ∀ id,
      declaration.symbol = some id → arena.get? id = some declaration.entry ∧
        checked.arena.get? id = some declaration.typedEntry) :
    checked.arena.symbols.map Symbol.withoutType = arena.symbols := by
  refine List.ext_getElem? fun id => ?_
  rw [List.getElem?_map]
  by_cases known : id < arena.size
  · have numberMem : some id ∈ (List.range arena.size).map some :=
      List.mem_map_of_mem (List.mem_range.mpr known)
    rcases List.mem_map.mp (numbered.mem_iff.mpr numberMem) with ⟨declaration, member, own⟩
    rcases typed declaration member id own with ⟨before, after⟩
    rw [Arena.get?] at before after
    rw [before, after]
    rfl
  · have unknown : checked.arena.size ≤ id := by omega
    rw [List.getElem?_eq_none (Nat.le_of_not_lt known), List.getElem?_eq_none unknown]
    rfl

end Checked

/-- Behind a resolution without errors, the checker types every symbol and changes nothing else. -/
theorem Program.check_typesSymbols {program : Program} (fresh : program.symbols = [])
    (clean : (program.resolve .empty).errors = []) :
    ∃ checked, (program.resolve .empty).program.check (program.resolve .empty).arena = .ok checked ∧
      checked.TypesSymbols (program.resolve .empty).program (program.resolve .empty).arena := by
  rcases program.check_noDefect fresh clean with ⟨_, checks, noDefect⟩
  rcases program.check_follows fresh clean with ⟨checksKnown, follows⟩
  cases checksKnown.symm.trans checks
  rcases program.resolve_conforms .empty fresh with ⟨records, _⟩
  have accepted := (resolve_accepts fresh clean).2
  generalize program.resolve .empty = resolution at *
  have typings := resolution.program.allDeclarations_perm
  have holds := follows.holds
  have unused : Arena.empty.size = 0 := rfl
  rcases records.map_symbol_eq accepted with ⟨symbols_eq, size_eq⟩
  rw [unused] at symbols_eq
  rw [unused, Nat.zero_add] at size_eq
  have numbered : ((resolution.program.declarations.flatMap Decl.typings).map
      Declaration.symbol).Perm ((List.range resolution.arena.size).map some) := by
    refine (typings.map _).symm.trans (.of_eq ?_)
    rw [symbols_eq, size_eq, List.range_eq_range']
  have typed : ∀ declaration ∈ resolution.program.declarations.flatMap Decl.typings, ∀ id,
      declaration.symbol = some id → resolution.arena.get? id = some declaration.entry ∧
        (resolution.program.checkKnown resolution.arena).arena.get? id =
          some declaration.typedEntry := by
    intro declaration member id own
    refine ⟨records.get?_of_symbol (typings.mem_iff.mpr member) own, ?_⟩
    rcases holds.typed declaration member with ⟨other, other_eq, found⟩
    cases own.symm.trans other_eq
    exact found
  refine ⟨_, checks, Program.withoutTypes_checkKnown _ _, numbered, typed, ?_, ?_⟩
  · intro error member
    have sound := noDefect error member
    exact ⟨fun cause_eq => sound (cause_eq ▸ .typeAlreadyAssigned),
      fun cause_eq => sound (cause_eq ▸ .missingSymbol)⟩
  · refine Checked.map_withoutType_eq ?_ numbered typed
    rw [holds.size_eq, List.append_nil, ← typings.length_eq, size_eq]

/--
After a resolution without errors, checking gives every symbol the type that its declaration states,
whether or not it reports errors, and changes nothing else but the types of expressions.
-/
theorem Program.check_types_symbols (source : SourceId) (tokens : List Token) :
    let program := (Parsed.ofTokens source tokens).program
    let resolution := program.resolve .empty
    program.tryResolve .empty = .ok resolution ∧ (resolution.errors = [] → ∃ checked,
      resolution.program.check resolution.arena = .ok checked ∧
        checked.TypesSymbols resolution.program resolution.arena) := by
  intro program resolution
  have fresh := Parsed.symbols_eq_nil source tokens
  exact ⟨program.tryResolve_eq .empty fresh, Program.check_typesSymbols fresh⟩

/-- A number for a truth value: the variable has its type all the same. -/
theorem Program.check_types_symbols_mismatch :
    let tokens : List Token :=
      [⟨.keyword .letWord, .single 0⟩, ⟨.identifier 0, .single 1⟩, ⟨.punct .atSign, .single 2⟩,
        ⟨.typeName .bool, .single 3⟩, ⟨.punct .equal, .single 4⟩, ⟨.integer 1, .single 5⟩,
        ⟨.punct .semicolon, .single 6⟩]
    let resolution := (Parsed.ofTokens 0 tokens).program.resolve .empty
    resolution.errors = [] ∧ ∃ checked,
      resolution.program.check resolution.arena = .ok checked ∧
        checked.TypesSymbols resolution.program resolution.arena :=
  ⟨by decide, (Program.check_types_symbols 0 _).2 (by decide)⟩

end TypedLang
