import TypedLang.Proofs.Exchange.Typing

/-!
# Checking a tree that was checked already

The checker looks at what is written in a tree, at the symbols that the tree is bound to and at what
the arena holds under their numbers. It does not look at types that stand in the tree already, nor at
the numbers, and it writes to no symbol but those of the declarations in the tree. So it finds the
same errors when the tree is bound anew.
-/

namespace TypedLang

theorem Expr.span_withoutTypes (value : Expr) : value.withoutTypes.span = value.span := by
  cases value <;> rfl

theorem Expr.spans_withoutTypesOfAll (values : List Expr) :
    (Expr.withoutTypesOfAll values).map Expr.span = values.map Expr.span := by
  induction values with
  | nil => rfl
  | cons first rest ih =>
      simp only [Expr.withoutTypesOfAll, List.map_cons, first.span_withoutTypes, ih]

theorem Expr.signature?_withoutTypes (arena : Arena) (callee : Expr) :
    callee.withoutTypes.signature? arena = callee.signature? arena := by
  cases callee with
  | identifier name symbol type => cases symbol <;> rfl
  | _ => rfl

section Checking

variable (source : SourceId)

mutual

/-- The types in an expression are found anew, whatever types stand there. -/
theorem Expr.check_withoutTypes (arena : Arena) : (value : Expr) →
    (value.withoutTypes.check source arena).2 = (value.check source arena).2
  | .binary op left right span type => by
      have leftSame := left.check_withoutTypes arena
      have rightSame := right.check_withoutTypes arena
      rw [Expr.withoutTypes, Expr.check, Expr.check]
      generalize left.withoutTypes.check source arena = leftAgain at leftSame ⊢
      generalize left.check source arena = leftChecked at leftSame ⊢
      rcases leftAgain with ⟨_, _⟩
      rcases leftChecked with ⟨_, _ | leftType⟩
      · cases leftSame
        rfl
      · cases leftSame
        generalize right.withoutTypes.check source arena = rightAgain at rightSame ⊢
        generalize right.check source arena = rightChecked at rightSame ⊢
        rcases rightAgain with ⟨_, _⟩
        rcases rightChecked with ⟨_, _ | rightType⟩
        · cases rightSame
          rfl
        · cases rightSame
          dsimp only
          cases op.result? leftType rightType <;> rfl
  | .unary op operand span type => by
      have operandSame := operand.check_withoutTypes arena
      rw [Expr.withoutTypes, Expr.check, Expr.check]
      generalize operand.withoutTypes.check source arena = again at operandSame ⊢
      generalize operand.check source arena = checked at operandSame ⊢
      rcases again with ⟨_, _⟩
      rcases checked with ⟨_, _ | operandType⟩
      · cases operandSame
        rfl
      · cases operandSame
        dsimp only
        cases op.result? operandType <;> rfl
  | .call callee arguments span type => by
      have argumentsSame := Expr.checkAll_withoutTypes arena arguments
      have spans := (Expr.spans_checkAll source arena (Expr.withoutTypesOfAll arguments)).trans
        ((Expr.spans_withoutTypesOfAll arguments).trans
          (Expr.spans_checkAll source arena arguments).symm)
      rw [Expr.withoutTypes, Expr.check, Expr.check, callee.signature?_withoutTypes]
      cases callee.signature? arena with
      | none =>
          dsimp only
          rw [callee.span_withoutTypes]
      | some signature =>
          generalize Expr.checkAll source arena (Expr.withoutTypesOfAll arguments) = again
            at argumentsSame spans ⊢
          generalize Expr.checkAll source arena arguments = checked at argumentsSame spans ⊢
          rcases again with ⟨_, _⟩
          rcases checked with ⟨newArguments, _ | types⟩
          · cases argumentsSame
            rfl
          · cases argumentsSame
            dsimp only at spans ⊢
            rw [signature.callError?_congr source span types spans]
            cases signature.callError? source span newArguments types <;> rfl
  | .grouping inner span type => by
      have innerSame := inner.check_withoutTypes arena
      rw [Expr.withoutTypes, Expr.check, Expr.check]
      generalize inner.withoutTypes.check source arena = again at innerSame ⊢
      generalize inner.check source arena = checked at innerSame ⊢
      rcases again with ⟨_, _⟩
      rcases checked with ⟨_, _ | innerType⟩ <;> cases innerSame <;> rfl
  | .literal value span type => by
      rw [Expr.withoutTypes, Expr.check, Expr.check]
      cases value.type? <;> rfl
  | .identifier name symbol type => by
      rw [Expr.withoutTypes, Expr.check, Expr.check]
      cases name.variableType source arena symbol <;> rfl

theorem Expr.checkAll_withoutTypes (arena : Arena) : (values : List Expr) →
    (Expr.checkAll source arena (Expr.withoutTypesOfAll values)).2 =
      (Expr.checkAll source arena values).2
  | [] => rfl
  | first :: rest => by
      have firstSame := first.check_withoutTypes arena
      have restSame := Expr.checkAll_withoutTypes arena rest
      rw [Expr.withoutTypesOfAll, Expr.checkAll, Expr.checkAll]
      generalize first.withoutTypes.check source arena = firstAgain at firstSame ⊢
      generalize first.check source arena = firstChecked at firstSame ⊢
      rcases firstAgain with ⟨_, _⟩
      rcases firstChecked with ⟨_, _ | type⟩
      · cases firstSame
        rfl
      · cases firstSame
        generalize Expr.checkAll source arena (Expr.withoutTypesOfAll rest) = restAgain
          at restSame ⊢
        generalize Expr.checkAll source arena rest = restChecked at restSame ⊢
        rcases restAgain with ⟨_, _⟩
        rcases restChecked with ⟨_, _ | types⟩ <;> cases restSame <;> rfl

end

/-- What the check of a piece leaves behind apart from the piece. -/
def Checked.outcome {Piece : Type} (checked : Checked Piece) : Arena × List TypeError :=
  (checked.arena, checked.errors)

theorem LetDecl.check_withoutTypes (arena : Arena) (decl : LetDecl) :
    (decl.withoutTypes.check source arena).outcome = (decl.check source arena).outcome := by
  rcases decl with ⟨name, type, initializer, symbol, span⟩
  rw [LetDecl.withoutTypes, LetDecl.check, LetDecl.check]
  dsimp only
  cases arena.declareType source symbol name.span type.type with
  | error error => rfl
  | ok arena =>
      cases initializer with
      | none => rfl
      | some value =>
          have valueSame := value.check_withoutTypes source arena
          have spans := (value.withoutTypes.span_check source arena).trans
            (value.span_withoutTypes.trans (value.span_check source arena).symm)
          dsimp only [Option.map_some]
          generalize value.withoutTypes.check source arena = again at valueSame spans ⊢
          generalize value.check source arena = checked at valueSame spans ⊢
          rcases again with ⟨_, _⟩
          rcases checked with ⟨_, _ | valueType⟩
          · cases valueSame
            rfl
          · cases valueSame
            dsimp only [Checked.outcome] at spans ⊢
            rw [spans]

mutual

theorem Stmt.check_withoutTypes (returnType : WrittenType) : (arena : Arena) →
    (statement : Stmt) → (statement.withoutTypes.check source returnType arena).outcome =
      (statement.check source returnType arena).outcome
  | arena, .expression value span => by
      have valueSame := value.check_withoutTypes source arena
      simp only [Stmt.withoutTypes, Stmt.check, Checked.outcome, valueSame]
  | arena, .letDecl decl => decl.check_withoutTypes source arena
  | arena, .block statements span => by
      have inside := Stmt.checkAll_withoutTypes returnType arena statements
      simp only [Stmt.withoutTypes, Stmt.check]
      exact inside
  | arena, .returning none span => rfl
  | arena, .returning (some value) span => by
      have valueSame := value.check_withoutTypes source arena
      have spans := (value.withoutTypes.span_check source arena).trans
        (value.span_withoutTypes.trans (value.span_check source arena).symm)
      simp only [Stmt.withoutTypes, Option.map_some, Stmt.check, Checked.outcome, valueSame, spans]

theorem Stmt.checkAll_withoutTypes (returnType : WrittenType) : (arena : Arena) →
    (statements : List Stmt) →
      (Stmt.checkAll source returnType arena (Stmt.withoutTypesOfAll statements)).outcome =
        (Stmt.checkAll source returnType arena statements).outcome
  | _, [] => rfl
  | arena, first :: rest => by
      have firstSame := first.check_withoutTypes returnType arena
      have restSame := Stmt.checkAll_withoutTypes returnType
        (first.check source returnType arena).arena rest
      simp only [Checked.outcome, Prod.mk.injEq] at firstSame restSame
      simp only [Stmt.withoutTypesOfAll, Stmt.checkAll, Checked.outcome, Checked.after, Checked.map,
        firstSame, restSame]

end

theorem FunDecl.check_withoutTypes (arena : Arena) (decl : FunDecl) :
    (decl.withoutTypes.check source arena).outcome = (decl.check source arena).outcome := by
  simp only [FunDecl.withoutTypes, FunDecl.check]
  cases arena.declareType source decl.symbol decl.name.span decl.returnType.type with
  | error error => rfl
  | ok arena =>
      dsimp only
      rcases Parameter.declareTypes source arena decl.parameters with ⟨arena, _ | error⟩
      · exact Stmt.checkAll_withoutTypes source decl.returnType arena decl.body.statements
      · rfl

theorem Decl.check_withoutTypes (arena : Arena) (decl : Decl) :
    (decl.withoutTypes.check source arena).outcome = (decl.check source arena).outcome := by
  cases decl with
  | funDecl decl => exact decl.check_withoutTypes source arena
  | letDecl decl => exact decl.check_withoutTypes source arena

end Checking

/-- The check of a program does not depend on types that stand in it. -/
theorem Program.checkKnown_withoutTypes (program : Program) (arena : Arena) :
    (program.withoutTypes.checkKnown arena).outcome = (program.checkKnown arena).outcome := by
  rcases program with ⟨declarations, source, span⟩
  simp only [checkKnown, withoutTypes]
  change (Checked.all (Decl.check source) arena (declarations.map Decl.withoutTypes)).outcome =
    (Checked.all (Decl.check source) arena declarations).outcome
  induction declarations generalizing arena with
  | nil => rfl
  | cons first rest ih =>
      have firstSame := first.check_withoutTypes source arena
      have restSame := ih (first.check source arena).arena
      simp only [Checked.outcome, Prod.mk.injEq] at firstSame restSame
      simp only [List.map_cons, Checked.all, Checked.outcome, Checked.after, Checked.map, firstSame,
        restSame]

/-- Of the symbols in an arena, only some were written, and none was added. -/
structure Arena.WritesOnly (written : List (Option SymbolId)) (arena final : Arena) : Prop where
  size_eq : final.size = arena.size
  kept : ∀ id, some id ∉ written → final.get? id = arena.get? id

namespace Arena.WritesOnly

variable {written others : List (Option SymbolId)} {arena middle final : Arena}

theorem refl (written : List (Option SymbolId)) (arena : Arena) : arena.WritesOnly written arena :=
  ⟨rfl, fun _ _ => rfl⟩

theorem append (first : arena.WritesOnly written middle) (second : middle.WritesOnly others final) :
    arena.WritesOnly (written ++ others) final := by
  refine ⟨second.size_eq.trans first.size_eq, ?_⟩
  intro id unwritten
  rw [List.mem_append, not_or] at unwritten
  rw [second.kept id unwritten.2, first.kept id unwritten.1]

theorem of_declareType {source : SourceId} {symbol : Option SymbolId} {span : Span} {type : Ty}
    (declared : arena.declareType source symbol span type = .ok final) :
    arena.WritesOnly [symbol] final := by
  cases symbol with
  | none => cases declared
  | some id =>
      simp only [declareType, assignType] at declared
      split at declared
      · rename_i assigned
        split at assigned
        · cases assigned
        · rename_i symbol found
          split at assigned
          · cases assigned
          · cases assigned
            cases declared
            refine ⟨List.length_set, ?_⟩
            intro other unwritten
            rw [List.mem_singleton, Option.some.injEq] at unwritten
            rw [get?_set _ _ _ _ (lt_size_of_get? found), if_neg (Ne.symm unwritten)]
      · cases declared

end Arena.WritesOnly

section Writing

variable (source : SourceId)

theorem LetDecl.check_writesOnly (arena : Arena) (decl : LetDecl) :
    arena.WritesOnly [decl.symbol] (decl.check source arena).arena := by
  rw [LetDecl.check]
  cases declared : arena.declareType source decl.symbol decl.name.span decl.type.type with
  | error error => exact .refl _ arena
  | ok final =>
      have writes := Arena.WritesOnly.of_declareType declared
      dsimp only
      cases decl.initializer with
      | none => exact writes
      | some value =>
          dsimp only
          rcases value.check source final with ⟨_, _ | _⟩ <;> exact writes

mutual

theorem Stmt.check_writesOnly (returnType : WrittenType) : (arena : Arena) → (statement : Stmt) →
    arena.WritesOnly (statement.declarations.map Declaration.symbol)
      (statement.check source returnType arena).arena
  | arena, .expression _ _ => .refl _ arena
  | arena, .letDecl decl => decl.check_writesOnly source arena
  | arena, .block statements _ => Stmt.checkAll_writesOnly returnType arena statements
  | arena, .returning none _ => .refl _ arena
  | arena, .returning (some _) _ => .refl _ arena

theorem Stmt.checkAll_writesOnly (returnType : WrittenType) : (arena : Arena) →
    (statements : List Stmt) →
      arena.WritesOnly ((Stmt.declarationsOfAll statements).map Declaration.symbol)
        (Stmt.checkAll source returnType arena statements).arena
  | arena, [] => .refl _ arena
  | arena, first :: rest => by
      have firstWrites := first.check_writesOnly returnType arena
      have restWrites := Stmt.checkAll_writesOnly returnType
        (first.check source returnType arena).arena rest
      rw [Stmt.declarationsOfAll, List.map_append]
      exact firstWrites.append restWrites

end

theorem Parameter.declareTypes_writesOnly : (arena : Arena) → (parameters : List Parameter) →
    arena.WritesOnly (parameters.map Parameter.symbol)
      (Parameter.declareTypes source arena parameters).1
  | arena, [] => .refl _ arena
  | arena, first :: rest => by
      rw [Parameter.declareTypes]
      cases declared : arena.declareType source first.symbol first.name.span first.type.type with
      | error error => exact .refl _ arena
      | ok middle =>
          exact (Arena.WritesOnly.of_declareType declared).append
            (Parameter.declareTypes_writesOnly middle rest)

theorem FunDecl.check_writesOnly (arena : Arena) (decl : FunDecl) :
    arena.WritesOnly ((decl.declaration :: decl.declarations).map Declaration.symbol)
      (decl.check source arena).arena := by
  have symbols_eq : (decl.declaration :: decl.declarations).map Declaration.symbol =
      [decl.symbol] ++ (decl.parameters.map Parameter.symbol ++
        (Stmt.declarationsOfAll decl.body.statements).map Declaration.symbol) := by
    simp only [FunDecl.declarations, List.map_cons, List.map_append, List.map_map]
    rfl
  rw [symbols_eq, FunDecl.check]
  cases declared : arena.declareType source decl.symbol decl.name.span decl.returnType.type with
  | error error => exact .refl _ arena
  | ok middle =>
      have own := Arena.WritesOnly.of_declareType declared
      have parameters := Parameter.declareTypes_writesOnly source middle decl.parameters
      dsimp only
      generalize Parameter.declareTypes source middle decl.parameters = result at parameters ⊢
      rcases result with ⟨final, _ | error⟩
      · exact own.append (parameters.append
          (Stmt.checkAll_writesOnly source decl.returnType final decl.body.statements))
      · exact own.append (parameters.append (.refl _ final))

theorem Decl.check_writesOnly (arena : Arena) (decl : Decl) :
    arena.WritesOnly (decl.typings.map Declaration.symbol) (decl.check source arena).arena := by
  cases decl with
  | funDecl decl => exact decl.check_writesOnly source arena
  | letDecl decl => exact decl.check_writesOnly source arena

end Writing

/-- The check of a program writes to no symbols but those of its declarations. -/
theorem Program.checkKnown_writesOnly (program : Program) (arena : Arena) :
    arena.WritesOnly ((program.declarations.flatMap Decl.typings).map Declaration.symbol)
      (program.checkKnown arena).arena := by
  change arena.WritesOnly _
    (Checked.all (Decl.check program.source) arena program.declarations).arena
  induction program.declarations generalizing arena with
  | nil => exact .refl _ arena
  | cons first rest ih =>
      rw [List.flatMap_cons, List.map_append]
      exact (first.check_writesOnly program.source arena).append (ih _)

/-- The symbols of one arena stand in another one at other numbers. -/
def Arena.MirroredIn (numbering : SymbolId → SymbolId) (arena other : Arena) : Prop :=
  ∀ id, other.get? (numbering id) = arena.get? id

section Renumbering

variable {numbering : SymbolId → SymbolId} (injective : numbering.Injective) (source : SourceId)
  {arena other : Arena}

theorem Arena.MirroredIn.set (injective : numbering.Injective)
    (mirrored : arena.MirroredIn numbering other) {id : SymbolId} {known : Symbol}
    (found : arena.get? id = some known) (symbol : Symbol) :
    Arena.MirroredIn numbering ⟨arena.symbols.set id symbol⟩
      ⟨other.symbols.set (numbering id) symbol⟩ := by
  intro number
  have otherFound := (mirrored id).trans found
  rw [get?_set _ _ _ _ (lt_size_of_get? found), get?_set _ _ _ _ (lt_size_of_get? otherFound),
    mirrored number]
  simp only [injective.eq_iff]

include injective in
/-- A symbol is given its type in both arenas, or the same defect is met. -/
theorem Arena.MirroredIn.declareType_cases (mirrored : arena.MirroredIn numbering other)
    (symbol : Option SymbolId) (span : Span) (type : Ty) :
    (∃ error, arena.declareType source symbol span type = .error error ∧
        other.declareType source (symbol.map numbering) span type = .error error) ∨
      ∃ final later, arena.declareType source symbol span type = .ok final ∧
        other.declareType source (symbol.map numbering) span type = .ok later ∧
          final.MirroredIn numbering later := by
  cases symbol with
  | none => exact .inl ⟨_, rfl, rfl⟩
  | some id =>
      simp only [declareType, assignType, Option.map_some, mirrored id]
      cases found : arena.get? id with
      | none => exact .inl ⟨_, rfl, rfl⟩
      | some symbol =>
          dsimp only
          cases symbol.type with
          | some _ => exact .inl ⟨_, rfl, rfl⟩
          | none => exact .inr ⟨_, _, rfl, rfl, mirrored.set injective found _⟩

/-- A piece is checked in both arenas with the same errors, and stays the same up to numbers. -/
structure Checked.MirroredIn {Piece : Type} (numbering : SymbolId → SymbolId)
    (renumbered : Piece → Piece) (checked other : Checked Piece) : Prop where
  piece : other.piece = renumbered checked.piece
  arena : checked.arena.MirroredIn numbering other.arena
  errors : other.errors = checked.errors

include injective in
theorem LetDecl.check_mirroredIn (mirrored : arena.MirroredIn numbering other) (decl : LetDecl) :
    (decl.check source arena).MirroredIn numbering (LetDecl.renumber numbering)
      ((decl.renumber numbering).check source other) := by
  rcases decl with ⟨name, type, initializer, symbol, span⟩
  simp only [LetDecl.check, LetDecl.renumber]
  rcases mirrored.declareType_cases injective source symbol name.span type.type with
    ⟨error, declared, otherDeclared⟩ | ⟨final, later, declared, otherDeclared, finalMirrored⟩
  · rw [declared, otherDeclared]
    exact ⟨rfl, mirrored, rfl⟩
  · rw [declared, otherDeclared]
    cases initializer with
    | none => exact ⟨rfl, finalMirrored, rfl⟩
    | some value =>
        simp only [Option.map_some, value.check_renumber source finalMirrored]
        rcases value.check source final with ⟨newValue, _ | valueType⟩
        · exact ⟨rfl, finalMirrored, rfl⟩
        · dsimp only
          rw [newValue.span_renumber]
          exact ⟨rfl, finalMirrored, rfl⟩

mutual

theorem Stmt.check_mirroredIn (injective : numbering.Injective) (returnType : WrittenType) :
    {arena other : Arena} → arena.MirroredIn numbering other → (statement : Stmt) →
      (statement.check source returnType arena).MirroredIn numbering (Stmt.renumber numbering)
        ((statement.renumber numbering).check source returnType other)
  | _, _, mirrored, .expression value span => by
      simp only [Stmt.renumber, Stmt.check, value.check_renumber source mirrored]
      exact ⟨rfl, mirrored, rfl⟩
  | _, _, mirrored, .letDecl decl => by
      rcases decl.check_mirroredIn injective source mirrored with ⟨piece, arena, errors⟩
      exact ⟨congrArg Stmt.letDecl piece, arena, errors⟩
  | _, _, mirrored, .block statements span => by
      rcases Stmt.checkAll_mirroredIn injective returnType mirrored statements with
        ⟨piece, arena, errors⟩
      exact ⟨congrArg (Stmt.block · span) piece, arena, errors⟩
  | _, _, mirrored, .returning none span => ⟨rfl, mirrored, rfl⟩
  | _, _, mirrored, .returning (some value) span => by
      simp only [Stmt.renumber, Option.map_some, Stmt.check, value.check_renumber source mirrored,
        Expr.span_renumber]
      exact ⟨rfl, mirrored, rfl⟩

theorem Stmt.checkAll_mirroredIn (injective : numbering.Injective) (returnType : WrittenType) :
    {arena other : Arena} → arena.MirroredIn numbering other → (statements : List Stmt) →
      (Stmt.checkAll source returnType arena statements).MirroredIn numbering
        (Stmt.renumberAll numbering)
        (Stmt.checkAll source returnType other (Stmt.renumberAll numbering statements))
  | _, _, mirrored, [] => ⟨rfl, mirrored, rfl⟩
  | _, _, mirrored, first :: rest => by
      have firstMirrored := first.check_mirroredIn injective returnType mirrored
      have restMirrored := Stmt.checkAll_mirroredIn injective returnType firstMirrored.arena rest
      simp only [Stmt.renumberAll, Stmt.checkAll]
      exact ⟨congrArg₂ List.cons firstMirrored.piece restMirrored.piece, restMirrored.arena,
        congrArg₂ (· ++ ·) firstMirrored.errors restMirrored.errors⟩

end

include injective in
theorem Parameter.declareTypes_mirroredIn : {arena other : Arena} →
    arena.MirroredIn numbering other → (parameters : List Parameter) →
      ∃ final later error, Parameter.declareTypes source arena parameters = (final, error) ∧
        Parameter.declareTypes source other (parameters.map (Parameter.renumber numbering)) =
          (later, error) ∧ final.MirroredIn numbering later
  | _, _, mirrored, [] => ⟨_, _, none, rfl, rfl, mirrored⟩
  | arena, other, mirrored, first :: rest => by
      rw [List.map_cons, Parameter.declareTypes, Parameter.declareTypes, Parameter.renumber]
      rcases mirrored.declareType_cases injective source first.symbol first.name.span
        first.type.type with
        ⟨error, declared, otherDeclared⟩ | ⟨final, later, declared, otherDeclared, finalMirrored⟩
      · rw [declared, otherDeclared]
        exact ⟨_, _, some error, rfl, rfl, mirrored⟩
      · rw [declared, otherDeclared]
        exact Parameter.declareTypes_mirroredIn finalMirrored rest

include injective in
theorem Decl.check_mirroredIn (mirrored : arena.MirroredIn numbering other) (decl : Decl) :
    (decl.check source arena).MirroredIn numbering (Decl.renumber numbering)
      ((decl.renumber numbering).check source other) := by
  cases decl with
  | letDecl decl =>
      rcases decl.check_mirroredIn injective source mirrored with ⟨piece, arena, errors⟩
      exact ⟨congrArg Decl.letDecl piece, arena, errors⟩
  | funDecl decl =>
      simp only [Decl.renumber, Decl.check, FunDecl.check, FunDecl.renumber]
      rcases mirrored.declareType_cases injective source decl.symbol decl.name.span
        decl.returnType.type with
        ⟨error, declared, otherDeclared⟩ | ⟨middle, later, declared, otherDeclared, middleMirrored⟩
      · rw [declared, otherDeclared]
        exact ⟨rfl, mirrored, rfl⟩
      · rw [declared, otherDeclared]
        dsimp only
        rcases Parameter.declareTypes_mirroredIn injective source middleMirrored decl.parameters with
          ⟨final, laterFinal, error, typed, otherTyped, finalMirrored⟩
        rw [typed, otherTyped]
        cases error with
        | some error => exact ⟨rfl, finalMirrored, rfl⟩
        | none =>
            rcases Stmt.checkAll_mirroredIn source injective decl.returnType finalMirrored
              decl.body.statements with ⟨piece, arena, errors⟩
            refine ⟨?_, arena, errors⟩
            simp only [Checked.map, Decl.renumber, FunDecl.renumber, piece]

end Renumbering

/-- A program is checked the same when its symbols have other numbers. -/
theorem Program.checkKnown_mirroredIn {numbering : SymbolId → SymbolId}
    (injective : numbering.Injective) {arena other : Arena}
    (mirrored : arena.MirroredIn numbering other) (program : Program) :
    (program.checkKnown arena).MirroredIn numbering (Program.renumber numbering)
      ((program.renumber numbering).checkKnown other) := by
  rcases program with ⟨declarations, source, span⟩
  suffices all : (Checked.all (Decl.check source) arena declarations).MirroredIn numbering
      (List.map (Decl.renumber numbering))
      (Checked.all (Decl.check source) other (declarations.map (Decl.renumber numbering))) by
    rcases all with ⟨piece, arena, errors⟩
    exact ⟨congrArg (Program.mk · source span) piece, arena, errors⟩
  induction declarations generalizing arena other with
  | nil => exact ⟨rfl, mirrored, rfl⟩
  | cons first rest ih =>
      have firstMirrored := first.check_mirroredIn injective source mirrored
      have restMirrored := ih firstMirrored.arena
      exact ⟨congrArg₂ List.cons firstMirrored.piece restMirrored.piece, restMirrored.arena,
        congrArg₂ (· ++ ·) firstMirrored.errors restMirrored.errors⟩

end TypedLang
