import TypedLang.Proofs.Exchange.Trees
import TypedLang.Proofs.Typing.Judgement

/-!
# Types in another order

The checker asks the arena for what a symbol stands for and never looks at its number. Over an arena
in which the symbols stand at other numbers it finds the same types and the same errors in a tree
that is renumbered alike. As each declaration is judged on its own, the order in which this is done
shows in nothing but the order of the errors.
-/

namespace TypedLang

section Renumbering

variable {numbering : SymbolId → SymbolId} (source : SourceId) {arena other : Arena}

theorem Expr.span_renumber (value : Expr) : (value.renumber numbering).span = value.span := by
  cases value <;> rfl

theorem Expr.spans_renumberAll (numbering : SymbolId → SymbolId) (values : List Expr) :
    (Expr.renumberAll numbering values).map Expr.span = values.map Expr.span := by
  induction values with
  | nil => rfl
  | cons first rest ih => rw [Expr.renumberAll, List.map_cons, List.map_cons, first.span_renumber, ih]

theorem Expr.withType_renumber (value : Expr) (type : Option Ty) :
    (value.renumber numbering).withType type = (value.withType type).renumber numbering := by
  cases value <;> rfl

theorem Expr.signature?_renumber (same : ∀ id, other.get? (numbering id) = arena.get? id)
    (callee : Expr) : (callee.renumber numbering).signature? other = callee.signature? arena := by
  cases callee with
  | identifier name symbol type =>
      cases symbol with
      | none => rfl
      | some id => exact congrArg (Option.bind · Symbol.signature) (same id)
  | _ => rfl

theorem Name.variableType_renumber (same : ∀ id, other.get? (numbering id) = arena.get? id)
    (name : Name) (symbol : Option SymbolId) :
    name.variableType source other (symbol.map numbering) =
      name.variableType source arena symbol := by
  cases symbol with
  | none => rfl
  | some id => simp only [variableType, Option.map_some, Option.bind_some, same id]

mutual

theorem Expr.check_renumber (same : ∀ id, other.get? (numbering id) = arena.get? id) :
    (value : Expr) → (value.renumber numbering).check source other =
      ((value.check source arena).1.renumber numbering, (value.check source arena).2)
  | .binary op left right span type => by
      rw [Expr.renumber, Expr.check, Expr.check, left.check_renumber same,
        right.check_renumber same]
      rcases left.check source arena with ⟨newLeft, _ | leftType⟩
      · rfl
      · rcases right.check source arena with ⟨newRight, _ | rightType⟩
        · rfl
        · dsimp only
          cases op.result? leftType rightType <;> rfl
  | .unary op operand span type => by
      rw [Expr.renumber, Expr.check, Expr.check, operand.check_renumber same]
      rcases operand.check source arena with ⟨newOperand, _ | operandType⟩
      · rfl
      · dsimp only
        cases op.result? operandType <;> rfl
  | .call callee arguments span type => by
      rw [Expr.renumber, Expr.check, Expr.check, callee.signature?_renumber same,
        Expr.checkAll_renumber same arguments]
      cases callee.signature? arena with
      | none =>
          dsimp only
          rw [callee.span_renumber]
          rfl
      | some signature =>
          rcases Expr.checkAll source arena arguments with ⟨newArguments, _ | types⟩
          · simp only [callee.withType_renumber]
            rfl
          · have error_eq := signature.callError?_congr source span types
              (Expr.spans_renumberAll numbering newArguments)
            simp only [callee.withType_renumber, error_eq]
            cases signature.callError? source span newArguments types <;> rfl
  | .grouping inner span type => by
      rw [Expr.renumber, Expr.check, Expr.check, inner.check_renumber same]
      rcases inner.check source arena with ⟨newInner, _ | innerType⟩ <;> rfl
  | .literal value span type => by
      rw [Expr.renumber, Expr.check, Expr.check]
      cases value.type? <;> rfl
  | .identifier name symbol type => by
      rw [Expr.renumber, Expr.check, Expr.check, name.variableType_renumber source same]
      cases name.variableType source arena symbol <;> rfl

theorem Expr.checkAll_renumber (same : ∀ id, other.get? (numbering id) = arena.get? id) :
    (values : List Expr) → Expr.checkAll source other (Expr.renumberAll numbering values) =
      (Expr.renumberAll numbering (Expr.checkAll source arena values).1,
        (Expr.checkAll source arena values).2)
  | [] => rfl
  | first :: rest => by
      rw [Expr.renumberAll, Expr.checkAll, Expr.checkAll, first.check_renumber same,
        Expr.checkAll_renumber same rest]
      rcases first.check source arena with ⟨newFirst, _ | type⟩
      · rfl
      · rcases Expr.checkAll source arena rest with ⟨newRest, _ | types⟩ <;> rfl

end

theorem LetDecl.judge_renumber (same : ∀ id, other.get? (numbering id) = arena.get? id)
    (decl : LetDecl) : (decl.renumber numbering).judge source other =
      ((decl.judge source arena).1.renumber numbering, (decl.judge source arena).2) := by
  rcases decl with ⟨name, type, _ | value, symbol, span⟩
  · rfl
  · simp only [LetDecl.judge, LetDecl.renumber, Option.map_some, value.check_renumber source same,
      Expr.span_renumber]

mutual

theorem Stmt.judge_renumber (same : ∀ id, other.get? (numbering id) = arena.get? id)
    (returnType : WrittenType) : (statement : Stmt) →
      (statement.renumber numbering).judge source returnType other =
        ((statement.judge source returnType arena).1.renumber numbering,
          (statement.judge source returnType arena).2)
  | .expression value span => by
      simp only [Stmt.renumber, Stmt.judge, value.check_renumber source same]
  | .letDecl decl => by
      simp only [Stmt.renumber, Stmt.judge, decl.judge_renumber source same]
  | .block statements span => by
      simp only [Stmt.renumber, Stmt.judge, Stmt.judgeAll_renumber same returnType statements]
  | .returning none span => rfl
  | .returning (some value) span => by
      simp only [Stmt.renumber, Stmt.judge, Option.map_some, value.check_renumber source same,
        Expr.span_renumber]

theorem Stmt.judgeAll_renumber (same : ∀ id, other.get? (numbering id) = arena.get? id)
    (returnType : WrittenType) : (statements : List Stmt) →
      Stmt.judgeAll source returnType other (Stmt.renumberAll numbering statements) =
        (Stmt.renumberAll numbering (Stmt.judgeAll source returnType arena statements).1,
          (Stmt.judgeAll source returnType arena statements).2)
  | [] => rfl
  | first :: rest => by
      simp only [Stmt.renumberAll, Stmt.judgeAll, first.judge_renumber same returnType,
        Stmt.judgeAll_renumber same returnType rest]

end

theorem Decl.judge_renumber (same : ∀ id, other.get? (numbering id) = arena.get? id)
    (decl : Decl) : (decl.renumber numbering).judge source other =
      ((decl.judge source arena).1.renumber numbering, (decl.judge source arena).2) := by
  cases decl with
  | funDecl decl =>
      simp only [Decl.renumber, Decl.judge, FunDecl.judge, FunDecl.renumber,
        Stmt.judgeAll_renumber source same, Prod.map, id]
  | letDecl decl =>
      simp only [Decl.renumber, Decl.judge, decl.judge_renumber source same, Prod.map, id]

end Renumbering

namespace Program

theorem judge_renumber {numbering : SymbolId → SymbolId} {arena other : Arena}
    (same : ∀ id, other.get? (numbering id) = arena.get? id) (program : Program) :
    (program.renumber numbering).judge other =
      ((program.judge arena).1.renumber numbering, (program.judge arena).2) := by
  simp only [judge, renumber, List.map_map, List.flatMap_map, Function.comp_def,
    Decl.judge_renumber program.source same]

theorem judge_exchange (position : Nat) (arena : Arena) (program : Program) :
    ((program.exchange position).judge arena).1 = (program.judge arena).1.exchange position ∧
      ((program.exchange position).judge arena).2.Perm (program.judge arena).2 := by
  constructor
  · simp only [judge, exchange, Decl.map_exchange]
  · exact (Decl.exchange_perm position program.declarations).flatMap_right _

end Program

end TypedLang
