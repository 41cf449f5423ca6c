import TypedLang.Proofs.Typing.Symbols

/-!
# Declarations judged on their own

While a program is checked the arena fills with types, so that what the checker says of a statement
might depend on all that stands before it. It does not: unless a defect is met, the checker finds
the same with more types at hand. So each declaration can be judged on its own, with the types of all
symbols known beforehand, and the check of a program is no more than these judgements in order.
-/

namespace TypedLang

/-- Some more symbols have types; all else is the same. -/
def Arena.Grows (arena final : Arena) : Prop :=
  ∀ id symbol, arena.get? id = some symbol → ∃ later, final.get? id = some later ∧
    later.signature = symbol.signature ∧ ∀ type, symbol.type = some type → later.type = some type

namespace Arena.Grows

variable {arena middle final : Arena}

theorem refl (arena : Arena) : arena.Grows arena :=
  fun _ symbol found => ⟨symbol, found, rfl, fun _ typed => typed⟩

theorem trans (first : arena.Grows middle) (second : middle.Grows final) : arena.Grows final := by
  intro id symbol found
  rcases first id symbol found with ⟨between, betweenFound, signature_eq, types⟩
  rcases second id between betweenFound with ⟨later, laterFound, laterSignature_eq, laterTypes⟩
  exact ⟨later, laterFound, laterSignature_eq.trans signature_eq,
    fun type typed => laterTypes type (types type typed)⟩

end Arena.Grows

theorem Arena.grows_of_assignType {arena final : Arena} {id : SymbolId} {type : Ty}
    (assigned : arena.assignType id type = (true, final)) : arena.Grows final := by
  rw [assignType] at assigned
  split at assigned
  · cases assigned
  · rename_i symbol found
    split at assigned
    · cases assigned
    · rename_i untyped
      cases assigned
      intro other known otherFound
      rw [get?_set _ _ _ _ (lt_size_of_get? found)]
      by_cases same : id = other
      · subst same
        cases found.symm.trans otherFound
        rw [if_pos rfl]
        refine ⟨_, rfl, rfl, fun _ typed => ?_⟩
        cases untyped.symm.trans typed
      · rw [if_neg same]
        exact ⟨known, otherFound, rfl, fun _ typed => typed⟩

/-- A declaration adds a type to the arena, or it meets a defect. -/
theorem Arena.declareType_cases (source : SourceId) (arena : Arena) (symbol : Option SymbolId)
    (span : Span) (type : Ty) :
    (∃ final, arena.declareType source symbol span type = .ok final ∧ arena.Grows final) ∨
      ∃ error, arena.declareType source symbol span type = .error error ∧ error.cause.IsDefect := by
  cases symbol with
  | none => exact .inr ⟨_, rfl, .missingSymbol⟩
  | some id =>
      rcases assigned : arena.assignType id type with ⟨_ | _, final⟩
      · exact .inr ⟨⟨source, span, .typeAlreadyAssigned⟩, by simp only [declareType, assigned],
          .typeAlreadyAssigned⟩
      · exact .inl ⟨final, by simp only [declareType, assigned], grows_of_assignType assigned⟩

/-- A check that ended with a result or with a mistake of the user. -/
def TypeError.NoDefectIn {Result : Type} : Except TypeError Result → Prop
  | .error error => ¬ error.cause.IsDefect
  | .ok _ => True

section Expressions

variable (source : SourceId) {arena final : Arena}

theorem Name.variableType_of_grows (grows : arena.Grows final) (name : Name)
    (symbol : Option SymbolId)
    (sound : TypeError.NoDefectIn (name.variableType source arena symbol)) :
    name.variableType source final symbol = name.variableType source arena symbol := by
  cases symbol with
  | none => rfl
  | some id =>
      simp only [variableType, Option.bind_some] at sound ⊢
      cases found : arena.get? id with
      | none =>
          rw [found] at sound
          exact absurd .missingSymbol sound
      | some symbol =>
          rcases grows id symbol found with ⟨later, laterFound, _, types⟩
          cases typed : symbol.type with
          | none =>
              simp only [found, typed] at sound
              exact absurd .missingType sound
          | some type => simp only [laterFound, typed, types type typed]

theorem Expr.signature?_of_grows (grows : arena.Grows final) {callee : Expr} {signature : Signature}
    (found : callee.signature? arena = some signature) :
    callee.signature? final = some signature := by
  cases callee with
  | identifier name symbol type =>
      cases symbol with
      | none => cases found
      | some id =>
          rcases Option.bind_eq_some_iff.mp found with ⟨symbol, symbolFound, signed⟩
          rcases grows id symbol symbolFound with ⟨later, laterFound, signature_eq, _⟩
          rw [signature?, laterFound, Option.bind_some, signature_eq, signed]
  | _ => cases found

mutual

/-- Unless a defect is met, more types make no difference to the check of an expression. -/
theorem Expr.check_of_grows (grows : arena.Grows final) : (value : Expr) →
    TypeError.NoDefectIn (value.check source arena).2 →
      value.check source final = value.check source arena
  | .binary op left right span type, sound => by
      have leftSame := left.check_of_grows grows
      have rightSame := right.check_of_grows grows
      rw [Expr.check] at sound
      rw [Expr.check, Expr.check]
      generalize left.check source arena = leftChecked at leftSame sound ⊢
      generalize right.check source arena = rightChecked at rightSame sound ⊢
      rcases leftChecked with ⟨newLeft, _ | leftType⟩
      · rw [leftSame sound]
      · rw [leftSame trivial]
        rcases rightChecked with ⟨newRight, _ | rightType⟩
        · rw [rightSame sound]
        · rw [rightSame trivial]
  | .unary op operand span type, sound => by
      have operandSame := operand.check_of_grows grows
      rw [Expr.check] at sound
      rw [Expr.check, Expr.check]
      generalize operand.check source arena = checked at operandSame sound ⊢
      rcases checked with ⟨newOperand, _ | operandType⟩
      · rw [operandSame sound]
      · rw [operandSame trivial]
  | .call callee arguments span type, sound => by
      have argumentsSame := Expr.checkAll_of_grows grows arguments
      rw [Expr.check] at sound
      rw [Expr.check, Expr.check]
      cases found : callee.signature? arena with
      | none =>
          rw [found] at sound
          exact absurd .missingSymbol sound
      | some signature =>
          rw [found] at sound
          rw [callee.signature?_of_grows grows found]
          generalize Expr.checkAll source arena arguments = checked at argumentsSame sound ⊢
          rcases checked with ⟨newArguments, _ | types⟩
          · rw [argumentsSame sound]
          · rw [argumentsSame trivial]
  | .grouping inner span type, sound => by
      have innerSame := inner.check_of_grows grows
      rw [Expr.check] at sound
      rw [Expr.check, Expr.check]
      generalize inner.check source arena = checked at innerSame sound ⊢
      rcases checked with ⟨newInner, _ | innerType⟩
      · rw [innerSame sound]
      · rw [innerSame trivial]
  | .literal value span type, _ => rfl
  | .identifier name symbol type, sound => by
      have nameSame := name.variableType_of_grows source grows symbol
      rw [Expr.check] at sound
      rw [Expr.check, Expr.check]
      generalize name.variableType source arena symbol = result at nameSame sound ⊢
      cases result with
      | error error => rw [nameSame sound]
      | ok type => rw [nameSame trivial]

theorem Expr.checkAll_of_grows (grows : arena.Grows final) : (values : List Expr) →
    TypeError.NoDefectIn (Expr.checkAll source arena values).2 →
      Expr.checkAll source final values = Expr.checkAll source arena values
  | [], _ => rfl
  | first :: rest, sound => by
      have firstSame := first.check_of_grows grows
      have restSame := Expr.checkAll_of_grows grows rest
      rw [Expr.checkAll] at sound
      rw [Expr.checkAll, Expr.checkAll]
      generalize first.check source arena = firstChecked at firstSame sound ⊢
      generalize Expr.checkAll source arena rest = restChecked at restSame sound ⊢
      rcases firstChecked with ⟨newFirst, _ | type⟩
      · rw [firstSame sound]
      · rw [firstSame trivial]
        rcases restChecked with ⟨newRest, _ | types⟩
        · rw [restSame sound]
        · rw [restSame trivial]

end

end Expressions

section Judging

variable (source : SourceId)

/-- The errors of an initializer, whose type has to be assignable to the one that is declared. -/
def WrittenType.initialErrors (written : WrittenType) (span : Span) :
    Except TypeError Ty → List TypeError
  | .error error => [error]
  | .ok type => if type.isAssignable written.type then [] else [written.mismatch source span type]

/-- A variable declaration with types, and the errors in it, if all symbols have their types. -/
def LetDecl.judge (arena : Arena) (decl : LetDecl) : LetDecl × List TypeError :=
  match decl.initializer with
  | none => (decl, [])
  | some value =>
      let (value, result) := value.check source arena
      ({ decl with initializer := some value }, decl.type.initialErrors source value.span result)

mutual

/-- A statement with types, and the errors in it, if all symbols have their types. -/
def Stmt.judge (returnType : WrittenType) (arena : Arena) : Stmt → Stmt × List TypeError
  | .expression value span =>
      let (value, result) := value.check source arena
      (.expression value span, TypeError.ofResult result)
  | .letDecl decl =>
      let (decl, errors) := decl.judge source arena
      (.letDecl decl, errors)
  | .block statements span =>
      let (statements, errors) := Stmt.judgeAll returnType arena statements
      (.block statements span, errors)
  | .returning none span => (.returning none span, [])
  | .returning (some value) span =>
      let (value, result) := value.check source arena
      (.returning (some value) span, returnType.returnErrors source value.span result)

/-- Several statements with types, and the errors in them, if all symbols have their types. -/
def Stmt.judgeAll (returnType : WrittenType) (arena : Arena) :
    List Stmt → List Stmt × List TypeError
  | [] => ([], [])
  | first :: rest =>
      let (first, errors) := first.judge returnType arena
      let (rest, others) := Stmt.judgeAll returnType arena rest
      (first :: rest, errors ++ others)

end

/-- A function declaration with types, and the errors in it, if all symbols have their types. -/
def FunDecl.judge (arena : Arena) (decl : FunDecl) : FunDecl × List TypeError :=
  let (statements, errors) := Stmt.judgeAll source decl.returnType arena decl.body.statements
  ({ decl with body := { decl.body with statements := statements } }, errors)

/-- A declaration with types, and the errors in it, if all symbols have their types. -/
def Decl.judge (arena : Arena) : Decl → Decl × List TypeError
  | .funDecl decl => (decl.judge source arena).map .funDecl id
  | .letDecl decl => (decl.judge source arena).map .letDecl id

/-- A program with types, and the errors in it, if all symbols have their types. -/
def Program.judge (arena : Arena) (program : Program) : Program × List TypeError :=
  ({ program with
      declarations := program.declarations.map fun decl => (decl.judge program.source arena).1 },
    program.declarations.flatMap fun decl => (decl.judge program.source arena).2)

/--
What the check of a piece has to do with the judgement on it: symbols only gain types, and unless a
defect is met, the result is that of judging the piece with any more types at hand.
-/
structure Checked.IsJudged {Piece : Type} (checked : Checked Piece) (before : Arena)
    (judge : Arena → Piece × List TypeError) : Prop where
  grows : before.Grows checked.arena
  judged : (∀ error ∈ checked.errors, ¬ error.cause.IsDefect) →
    ∀ final, checked.arena.Grows final → judge final = (checked.piece, checked.errors)

/-- Where errors of a value are reported, a defect in the value is among them. -/
theorem TypeError.noDefectIn_of_errors (errors : Except TypeError Ty → List TypeError)
    (reports : ∀ error, errors (.error error) = [error]) {result : Except TypeError Ty}
    (sound : ∀ error ∈ errors result, ¬ error.cause.IsDefect) : NoDefectIn result := by
  cases result with
  | error error =>
      rw [reports, List.forall_mem_singleton] at sound
      exact sound
  | ok type => trivial

theorem LetDecl.check_eq_judge {arena middle : Arena} {decl : LetDecl}
    (declared : arena.declareType source decl.symbol decl.name.span decl.type.type = .ok middle) :
    decl.check source arena =
      ⟨(decl.judge source middle).1, middle, (decl.judge source middle).2⟩ := by
  simp only [LetDecl.check, declared, LetDecl.judge]
  cases decl.initializer with
  | none => rfl
  | some value =>
      dsimp only
      rcases value.check source middle with ⟨annotated, _ | type⟩ <;> rfl

theorem LetDecl.judge_of_grows {arena final : Arena} (grows : arena.Grows final) (decl : LetDecl)
    (sound : ∀ error ∈ (decl.judge source arena).2, ¬ error.cause.IsDefect) :
    decl.judge source final = decl.judge source arena := by
  cases value_eq : decl.initializer with
  | none => simp only [LetDecl.judge, value_eq]
  | some value =>
      simp only [LetDecl.judge, value_eq] at sound ⊢
      have noDefect := TypeError.noDefectIn_of_errors (decl.type.initialErrors source _)
        (fun _ => rfl) sound
      rw [value.check_of_grows source grows noDefect]

theorem LetDecl.check_isJudged (arena : Arena) (decl : LetDecl) :
    (decl.check source arena).IsJudged arena (decl.judge source) := by
  rcases arena.declareType_cases source decl.symbol decl.name.span decl.type.type with
    ⟨middle, declared, grows⟩ | ⟨error, refused, isDefect⟩
  · rw [decl.check_eq_judge source declared]
    exact ⟨grows, fun sound _ more => decl.judge_of_grows source more sound⟩
  · simp only [LetDecl.check, refused]
    exact ⟨.refl arena, fun sound => absurd isDefect (sound error List.mem_cons_self)⟩

mutual

theorem Stmt.check_isJudged (returnType : WrittenType) : (arena : Arena) → (statement : Stmt) →
    (statement.check source returnType arena).IsJudged arena (statement.judge source returnType)
  | arena, .expression value span => by
      refine ⟨.refl arena, fun sound final more => ?_⟩
      have noDefect := TypeError.noDefectIn_of_errors TypeError.ofResult (fun _ => rfl) sound
      simp only [Stmt.judge, value.check_of_grows source more noDefect]
      rfl
  | arena, .letDecl decl => by
      rcases decl.check_isJudged source arena with ⟨grows, judged⟩
      refine ⟨grows, fun sound final more => ?_⟩
      simp only [Stmt.judge, judged sound final more]
      rfl
  | arena, .block statements span => by
      rcases Stmt.checkAll_isJudged returnType arena statements with ⟨grows, judged⟩
      refine ⟨grows, fun sound final more => ?_⟩
      simp only [Stmt.judge, judged sound final more]
      rfl
  | arena, .returning none span => ⟨.refl arena, fun _ _ _ => rfl⟩
  | arena, .returning (some value) span => by
      refine ⟨.refl arena, fun sound final more => ?_⟩
      have noDefect := TypeError.noDefectIn_of_errors (returnType.returnErrors source _)
        (fun _ => rfl) sound
      simp only [Stmt.judge, value.check_of_grows source more noDefect]
      rfl

theorem Stmt.checkAll_isJudged (returnType : WrittenType) : (arena : Arena) →
    (statements : List Stmt) →
      (Stmt.checkAll source returnType arena statements).IsJudged arena
        (Stmt.judgeAll source returnType · statements)
  | arena, [] => ⟨.refl arena, fun _ _ _ => rfl⟩
  | arena, first :: rest => by
      rcases first.check_isJudged returnType arena with ⟨grows, judged⟩
      rcases Stmt.checkAll_isJudged returnType (first.check source returnType arena).arena rest with
        ⟨restGrows, restJudged⟩
      refine ⟨grows.trans restGrows, fun sound final more => ?_⟩
      rw [Stmt.checkAll] at sound
      rw [Stmt.checkAll]
      rcases List.forall_mem_append.mp sound with ⟨firstSound, restSound⟩
      simp only [Stmt.judgeAll, judged firstSound final (restGrows.trans more),
        restJudged restSound final more]
      rfl

end

theorem Parameter.declareTypes_cases : (arena : Arena) → (parameters : List Parameter) →
    (∃ final, Parameter.declareTypes source arena parameters = (final, none) ∧
      arena.Grows final) ∨
      ∃ final error, Parameter.declareTypes source arena parameters = (final, some error) ∧
        arena.Grows final ∧ error.cause.IsDefect
  | arena, [] => .inl ⟨arena, rfl, .refl arena⟩
  | arena, first :: rest => by
      rcases arena.declareType_cases source first.symbol first.name.span first.type.type with
        ⟨middle, declared, grows⟩ | ⟨error, refused, isDefect⟩
      · simp only [Parameter.declareTypes, declared]
        rcases Parameter.declareTypes_cases middle rest with
          ⟨final, restDeclared, restGrows⟩ | ⟨final, error, restRefused, restGrows, isDefect⟩
        · exact .inl ⟨final, restDeclared, grows.trans restGrows⟩
        · exact .inr ⟨final, error, restRefused, grows.trans restGrows, isDefect⟩
      · simp only [Parameter.declareTypes, refused]
        exact .inr ⟨arena, error, rfl, .refl arena, isDefect⟩

theorem FunDecl.check_isJudged (arena : Arena) (decl : FunDecl) :
    (decl.check source arena).IsJudged arena (decl.judge source) := by
  rcases arena.declareType_cases source decl.symbol decl.name.span decl.returnType.type with
    ⟨middle, declared, grows⟩ | ⟨error, refused, isDefect⟩
  · rcases Parameter.declareTypes_cases source middle decl.parameters with
      ⟨inside, parametersDeclared, more⟩ | ⟨inside, error, refused, more, isDefect⟩
    · rcases Stmt.checkAll_isJudged source decl.returnType inside decl.body.statements with
        ⟨bodyGrows, judged⟩
      simp only [FunDecl.check, declared, parametersDeclared]
      refine ⟨(grows.trans more).trans bodyGrows, fun sound final bodyMore => ?_⟩
      simp only [FunDecl.judge, judged sound final bodyMore]
      rfl
    · simp only [FunDecl.check, declared, refused]
      exact ⟨grows.trans more, fun sound => absurd isDefect (sound error List.mem_cons_self)⟩
  · simp only [FunDecl.check, refused]
    exact ⟨.refl arena, fun sound => absurd isDefect (sound error List.mem_cons_self)⟩

theorem Decl.check_isJudged (arena : Arena) (decl : Decl) :
    (decl.check source arena).IsJudged arena (decl.judge source) := by
  cases decl with
  | funDecl decl =>
      rcases decl.check_isJudged source arena with ⟨grows, judged⟩
      refine ⟨grows, fun sound final more => ?_⟩
      simp only [Decl.judge, judged sound final more]
      rfl
  | letDecl decl =>
      rcases decl.check_isJudged source arena with ⟨grows, judged⟩
      refine ⟨grows, fun sound final more => ?_⟩
      simp only [Decl.judge, judged sound final more]
      rfl

/-- Pieces that are each judged on their own are so in a row. -/
theorem Checked.all_isJudged {Piece : Type} {check : Arena → Piece → Checked Piece}
    {judge : Arena → Piece → Piece × List TypeError}
    (each : ∀ arena piece, (check arena piece).IsJudged arena (judge · piece)) :
    (arena : Arena) → (pieces : List Piece) →
      (Checked.all check arena pieces).IsJudged arena fun final =>
        (pieces.map fun piece => (judge final piece).1,
          pieces.flatMap fun piece => (judge final piece).2)
  | arena, [] => ⟨.refl arena, fun _ _ _ => rfl⟩
  | arena, first :: rest => by
      rcases each arena first with ⟨grows, judged⟩
      rcases Checked.all_isJudged each (check arena first).arena rest with
        ⟨restGrows, restJudged⟩
      refine ⟨grows.trans restGrows, fun sound final more => ?_⟩
      rw [Checked.all] at sound
      rw [Checked.all]
      rcases List.forall_mem_append.mp sound with ⟨firstSound, restSound⟩
      rcases Prod.mk.inj (restJudged restSound final more) with ⟨pieces_eq, errors_eq⟩
      simp only [List.map_cons, List.flatMap_cons, pieces_eq, errors_eq,
        judged firstSound final (restGrows.trans more)]
      rfl

end Judging

/-- Unless a defect is met, checking a program is judging it by the types that it ends with. -/
theorem Program.judge_eq_check (program : Program) (arena : Arena)
    (sound : ∀ error ∈ (program.checkKnown arena).errors, ¬ error.cause.IsDefect) :
    program.judge (program.checkKnown arena).arena =
      ((program.checkKnown arena).piece, (program.checkKnown arena).errors) := by
  rcases Checked.all_isJudged (Decl.check_isJudged program.source) arena program.declarations with
    ⟨_, judged⟩
  rcases Prod.mk.inj (judged sound _ (.refl _)) with ⟨pieces_eq, errors_eq⟩
  exact Prod.ext (congrArg (fun declarations => { program with declarations := declarations })
    pieces_eq) errors_eq

/-- Behind a resolution without errors, checking is judging by the types of all symbols. -/
theorem Program.check_judged {program : Program} (fresh : program.symbols = [])
    (clean : (program.resolve .empty).errors = []) :
    ∃ checked, (program.resolve .empty).program.check (program.resolve .empty).arena = .ok checked ∧
      checked.TypesSymbols (program.resolve .empty).program (program.resolve .empty).arena ∧
      (program.resolve .empty).program.judge checked.arena = (checked.piece, checked.errors) := by
  rcases program.check_typesSymbols fresh clean with ⟨checked, checks, types⟩
  rcases program.check_noDefect fresh clean with ⟨_, checksAgain, noDefect⟩
  cases checks.symm.trans checksAgain
  cases (program.check_follows fresh clean).1.symm.trans checks
  exact ⟨_, checks, types, judge_eq_check _ _ noDefect⟩

end TypedLang
