import TypedLang.Proofs.Relabelling.Rewording

/-!
# Checking reworded programs

The rules of types ask for symbols and types and for no place and no key. A reworded program has the
types of the program itself, and its errors are the relabelled ones.
-/

namespace TypedLang

section Expressions

variable (change : Rewording) (source : SourceId) (arena : Arena)

/-- A result or a type error, relabelled; how the result is relabelled depends on what it is. -/
def TypeError.relabelResult {Value : Type} (convert : Value → Value) :
    Except TypeError Value → Except TypeError Value
  | .ok value => .ok (convert value)
  | .error error => .error (error.relabel change)

theorem Expr.signature?_reword (callee : Expr) :
    (callee.reword change).signature? (arena.relabel change) =
      (callee.signature? arena).map (Signature.relabel change) := by
  cases callee with
  | identifier name symbol type =>
      cases symbol with
      | none => rfl
      | some id =>
          simp only [Expr.reword, signature?, Arena.get?_relabel]
          cases arena.get? id <;> rfl
  | _ => rfl

theorem Name.variableType_relabel (name : Name) (symbol : Option SymbolId) :
    (name.relabel change).variableType (change.source source) (arena.relabel change) symbol =
      TypeError.relabelResult change id (name.variableType source arena symbol) := by
  have found : symbol.bind (arena.relabel change).get? =
      (symbol.bind arena.get?).map (Symbol.relabel change) := by
    cases symbol with
    | none => rfl
    | some id => exact arena.get?_relabel change id
  rw [variableType, variableType, found]
  rcases symbol.bind arena.get? with _ | ⟨name, span, kind, signature, type⟩
  · rfl
  · cases type <;> rfl

theorem Literal.type?_reword (value : Literal) : (value.reword change).type? = value.type? := by
  cases value <;> rfl

theorem Signature.argumentError?_reword (parameters : List WrittenType) (arguments : List Expr)
    (types : List Ty) :
    argumentError? (change.source source) (parameters.map (WrittenType.relabel change))
        (arguments.map (Expr.reword change)) types =
      (argumentError? source parameters arguments types).map (TypeError.relabel change) := by
  fun_induction argumentError? source parameters arguments types with
  | case1 parameter parameters argument arguments type types assignable ih =>
      have assignableSame : type.isAssignable (parameter.relabel change).type := assignable
      simp only [List.map_cons, argumentError?, assignableSame, ↓reduceIte, ih]
  | case2 parameter parameters argument arguments type types refused =>
      have refusedSame : ¬ type.isAssignable (parameter.relabel change).type := refused
      simp only [List.map_cons, argumentError?, refusedSame, Bool.false_eq_true, ↓reduceIte,
        Expr.span_reword, Option.map_some]
      rfl
  | case3 parameters arguments types short =>
      rcases parameters with _ | ⟨parameter, parameters⟩
      · rfl
      rcases arguments with _ | ⟨argument, arguments⟩
      · rfl
      rcases types with _ | ⟨type, types⟩
      · rfl
      · exact absurd rfl (short parameter parameters argument arguments type types rfl rfl)

theorem Signature.callError?_reword (signature : Signature) (span : Span)
    (arguments : List Expr) (types : List Ty) :
    (signature.relabel change).callError? (change.source source) (change.span span)
        (Expr.rewordAll change arguments) types =
      (signature.callError? source span arguments types).map (TypeError.relabel change) := by
  rw [Expr.rewordAll_eq, callError?, callError?, relabel, List.length_map]
  split
  · rfl
  · exact argumentError?_reword change source signature.parameters arguments types

mutual

theorem Expr.check_reword : (value : Expr) →
    (value.reword change).check (change.source source) (arena.relabel change) =
      ((value.check source arena).1.reword change,
        TypeError.relabelResult change id (value.check source arena).2)
  | .binary op left right span type => by
      simp only [Expr.reword, Expr.check, left.check_reword, right.check_reword]
      rcases left.check source arena with ⟨newLeft, error | leftType⟩
      · rfl
      rcases right.check source arena with ⟨newRight, error | rightType⟩
      · rfl
      simp only [TypeError.relabelResult, id]
      cases op.result? leftType rightType <;> rfl
  | .unary op operand span type => by
      simp only [Expr.reword, Expr.check, operand.check_reword]
      rcases operand.check source arena with ⟨newOperand, error | operandType⟩
      · rfl
      simp only [TypeError.relabelResult, id]
      cases op.result? operandType <;> rfl
  | .call callee arguments span type => by
      simp only [Expr.reword, Expr.check, callee.signature?_reword, Expr.checkAll_reword]
      rcases callee.signature? arena with _ | signature
      · simp only [Option.map_none, Expr.span_reword]
        rfl
      rcases Expr.checkAll source arena arguments with ⟨newArguments, error | types⟩
      · simp only [Option.map_some, Expr.reword, Expr.reword_withType]
        rfl
      simp only [TypeError.relabelResult, id, Option.map_some, Signature.callError?_reword]
      cases signature.callError? source span newArguments types with
      | none =>
          simp only [Option.map_none, Expr.reword, Expr.reword_withType]
          rfl
      | some error =>
          simp only [Option.map_some, Expr.reword, Expr.reword_withType]
          rfl
  | .grouping inner span type => by
      simp only [Expr.reword, Expr.check, inner.check_reword]
      rcases inner.check source arena with ⟨newInner, error | result⟩ <;> rfl
  | .literal value span type => by
      simp only [Expr.reword, Expr.check, value.type?_reword]
      cases value.type? <;> rfl
  | .identifier name symbol type => by
      simp only [Expr.reword, Expr.check, name.variableType_relabel]
      cases name.variableType source arena symbol <;> rfl

theorem Expr.checkAll_reword : (values : List Expr) →
    Expr.checkAll (change.source source) (arena.relabel change) (Expr.rewordAll change values) =
      (Expr.rewordAll change (Expr.checkAll source arena values).1,
        TypeError.relabelResult change id (Expr.checkAll source arena values).2)
  | [] => rfl
  | first :: rest => by
      simp only [Expr.rewordAll, Expr.checkAll, first.check_reword, Expr.checkAll_reword rest]
      rcases first.check source arena with ⟨newFirst, error | type⟩
      · rfl
      rcases Expr.checkAll source arena rest with ⟨newRest, error | types⟩ <;> rfl

end

end Expressions

namespace Checked

variable {Piece Other : Type} {change : Relabelling}

/-- A checked piece is what another one is, relabelled. -/
structure Relabels (change : Relabelling) (convert : Piece → Piece)
    (checked same : Checked Piece) : Prop where
  piece_eq : same.piece = convert checked.piece
  arena_eq : same.arena = checked.arena.relabel change
  errors_eq : same.errors = checked.errors.map (TypeError.relabel change)

namespace Relabels

variable {convert : Piece → Piece} {convertOther : Other → Other} {checked same : Checked Piece}

theorem map (relabels : Relabels change convert checked same) {wrap wrapSame : Piece → Other}
    (commutes : ∀ piece, wrapSame (convert piece) = convertOther (wrap piece)) :
    Relabels change convertOther (checked.map wrap) (same.map wrapSame) := by
  refine ⟨?_, relabels.arena_eq, relabels.errors_eq⟩
  rw [Checked.map, relabels.piece_eq]
  exact commutes checked.piece

theorem after (relabels : Relabels change convert checked same) (errors : List TypeError) :
    Relabels change convert (checked.after errors)
      (same.after (errors.map (TypeError.relabel change))) := by
  refine ⟨relabels.piece_eq, relabels.arena_eq, ?_⟩
  rw [Checked.after, Checked.after, relabels.errors_eq, List.map_append]

theorem all {check checkSame : Arena → Piece → Checked Piece}
    (relabels : ∀ arena piece, Relabels change convert (check arena piece)
      (checkSame (arena.relabel change) (convert piece)))
    (arena : Arena) (pieces : List Piece) :
    Relabels change (List.map convert) (Checked.all check arena pieces)
      (Checked.all checkSame (arena.relabel change) (pieces.map convert)) := by
  induction pieces generalizing arena with
  | nil => exact ⟨rfl, rfl, rfl⟩
  | cons first rest ih =>
      have head := relabels arena first
      simp only [List.map_cons, Checked.all]
      rw [head.arena_eq, head.errors_eq, head.piece_eq]
      refine .after (.map (ih _) fun others => ?_) _
      rfl

end Relabels

end Checked

section Declarations

variable (change : Rewording) (source : SourceId)

theorem Arena.assignType_relabel (arena : Arena) (id : SymbolId) (type : Ty) :
    (arena.relabel change).assignType id type =
      ((arena.assignType id type).1, (arena.assignType id type).2.relabel change) := by
  rw [assignType, assignType, get?_relabel]
  rcases arena.get? id with _ | ⟨name, span, kind, signature, known⟩
  · rfl
  cases known with
  | some known => rfl
  | none =>
      refine Prod.ext rfl ?_
      simp only [relabel, Option.map_some, Symbol.relabel, List.map_set]

theorem Arena.declareType_relabel (arena : Arena) (symbol : Option SymbolId) (span : Span)
    (type : Ty) :
    (arena.relabel change).declareType (change.source source) symbol (change.span span) type =
      TypeError.relabelResult change (Arena.relabel change)
        (arena.declareType source symbol span type) := by
  cases symbol with
  | none => rfl
  | some id =>
      simp only [declareType, assignType_relabel]
      rcases arena.assignType id type with ⟨_ | _, arena⟩ <;> rfl

theorem WrittenType.mismatch_relabel (written : WrittenType) (span : Span) (got : Ty) :
    (written.relabel change).mismatch (change.source source) (change.span span) got =
      (written.mismatch source span got).relabel change :=
  rfl

theorem LetDecl.check_relabels (arena : Arena) (decl : LetDecl) :
    Checked.Relabels change (LetDecl.reword change) (decl.check source arena)
      ((decl.reword change).check (change.source source) (arena.relabel change)) := by
  have declared : (arena.relabel change).declareType (change.source source)
      (decl.reword change).symbol (decl.reword change).name.span
      (decl.reword change).type.type = _ :=
    arena.declareType_relabel change source decl.symbol decl.name.span decl.type.type
  rw [LetDecl.check, LetDecl.check, declared]
  rcases arena.declareType source decl.symbol decl.name.span decl.type.type with error | arena
  · exact ⟨rfl, rfl, rfl⟩
  rcases decl with ⟨name, type, _ | value, symbol, span⟩
  · exact ⟨rfl, rfl, rfl⟩
  simp only [LetDecl.reword, Option.map_some, TypeError.relabelResult, value.check_reword]
  rcases value.check source arena with ⟨newValue, error | got⟩
  · exact ⟨rfl, rfl, rfl⟩
  · refine ⟨rfl, rfl, ?_⟩
    simp only [id, Expr.span_reword, WrittenType.mismatch_relabel, WrittenType.type_relabel]
    split <;> rfl

theorem TypeError.ofResult_relabel (result : Except TypeError Ty) :
    ofResult (relabelResult change id result) =
      (ofResult result).map (TypeError.relabel change) := by
  cases result <;> rfl

theorem WrittenType.returnErrors_relabel (returnType : WrittenType) (span : Span)
    (result : Except TypeError Ty) :
    (returnType.relabel change).returnErrors (change.source source) (change.span span)
        (TypeError.relabelResult change id result) =
      (returnType.returnErrors source span result).map (TypeError.relabel change) := by
  cases result with
  | error error => rfl
  | ok got =>
      simp only [TypeError.relabelResult, returnErrors, id, mismatch_relabel, type_relabel]
      by_cases same : got = returnType.type
      · simp only [same, ↓reduceIte, List.map_nil]
      · simp only [same, ↓reduceIte, List.map_cons, List.map_nil]

mutual

theorem Stmt.check_relabels (returnType : WrittenType) : (arena : Arena) → (statement : Stmt) →
    Checked.Relabels change (Stmt.reword change) (statement.check source returnType arena)
      ((statement.reword change).check (change.source source) (returnType.relabel change)
        (arena.relabel change))
  | arena, .expression value span => by
      simp only [Stmt.reword, Stmt.check, value.check_reword, TypeError.ofResult_relabel]
      exact ⟨rfl, rfl, rfl⟩
  | arena, .letDecl decl => .map (decl.check_relabels change source arena) fun _ => rfl
  | arena, .block statements span => by
      rw [Stmt.reword, Stmt.check, Stmt.check]
      exact .map (Stmt.checkAll_relabels returnType arena statements) fun _ => rfl
  | arena, .returning none span => ⟨rfl, rfl, rfl⟩
  | arena, .returning (some value) span => by
      simp only [Stmt.reword, Option.map_some, Stmt.check, value.check_reword,
        Expr.span_reword, WrittenType.returnErrors_relabel]
      exact ⟨rfl, rfl, rfl⟩

theorem Stmt.checkAll_relabels (returnType : WrittenType) : (arena : Arena) →
    (statements : List Stmt) →
      Checked.Relabels change (Stmt.rewordAll change)
        (Stmt.checkAll source returnType arena statements)
        (Stmt.checkAll (change.source source) (returnType.relabel change) (arena.relabel change)
          (Stmt.rewordAll change statements))
  | _, [] => ⟨rfl, rfl, rfl⟩
  | arena, first :: rest => by
      have head := first.check_relabels returnType arena
      simp only [Stmt.rewordAll, Stmt.checkAll]
      rw [head.arena_eq, head.errors_eq, head.piece_eq]
      refine .after (.map (Stmt.checkAll_relabels returnType _ rest) fun others => ?_) _
      rfl

end

theorem Parameter.declareTypes_relabel (arena : Arena) (parameters : List Parameter) :
    declareTypes (change.source source) (arena.relabel change)
        (parameters.map (Parameter.relabel change)) =
      ((declareTypes source arena parameters).1.relabel change,
        (declareTypes source arena parameters).2.map (TypeError.relabel change)) := by
  induction parameters generalizing arena with
  | nil => rfl
  | cons first rest ih =>
      have declared : (arena.relabel change).declareType (change.source source)
          (first.relabel change).symbol (first.relabel change).name.span
          (first.relabel change).type.type = _ :=
        arena.declareType_relabel change source first.symbol first.name.span first.type.type
      rw [List.map_cons, declareTypes, declareTypes, declared]
      rcases arena.declareType source first.symbol first.name.span first.type.type with
        error | arena
      · rfl
      · exact ih arena

theorem FunDecl.check_relabels (arena : Arena) (decl : FunDecl) :
    Checked.Relabels change (FunDecl.reword change) (decl.check source arena)
      ((decl.reword change).check (change.source source) (arena.relabel change)) := by
  have declared : (arena.relabel change).declareType (change.source source)
      (decl.reword change).symbol (decl.reword change).name.span
      (decl.reword change).returnType.type = _ :=
    arena.declareType_relabel change source decl.symbol decl.name.span decl.returnType.type
  rw [FunDecl.check, FunDecl.check, declared]
  rcases arena.declareType source decl.symbol decl.name.span decl.returnType.type with
    error | arena
  · exact ⟨rfl, rfl, rfl⟩
  have parameters : Parameter.declareTypes (change.source source) (arena.relabel change)
      (decl.reword change).parameters = _ :=
    Parameter.declareTypes_relabel change source arena decl.parameters
  simp only [TypeError.relabelResult, parameters]
  rcases Parameter.declareTypes source arena decl.parameters with ⟨arena, _ | error⟩
  · refine .map (Stmt.checkAll_relabels change source decl.returnType arena decl.body.statements)
      fun statements => ?_
    rfl
  · exact ⟨rfl, rfl, rfl⟩

theorem Decl.check_relabels (arena : Arena) (decl : Decl) :
    Checked.Relabels change (Decl.reword change) (decl.check source arena)
      ((decl.reword change).check (change.source source) (arena.relabel change)) := by
  cases decl with
  | funDecl decl => exact .map (decl.check_relabels change source arena) fun _ => rfl
  | letDecl decl => exact .map (decl.check_relabels change source arena) fun _ => rfl

end Declarations

/-- Checking gives for a reworded program what it gives for the program, reworded. -/
theorem Program.checkKnown_relabels (change : Rewording) (program : Program) (arena : Arena) :
    Checked.Relabels change (Program.reword change) (program.checkKnown arena)
      ((program.reword change).checkKnown (arena.relabel change)) := by
  refine .map (.all (Decl.check_relabels change program.source) arena program.declarations)
    fun declarations => ?_
  rfl

end TypedLang
