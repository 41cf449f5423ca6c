import TypedLang.Program.Symbols
import TypedLang.Proofs.Parsing.Soundness

/-!
# Fresh trees

A tree that the parser gives is bound to nothing, whether or not the parser had to recover: what
tokens spell never has a symbol.
-/

namespace TypedLang

theorem Expr.symbolsOfAll_eq_nil {values : List Expr} (fresh : ∀ value ∈ values, value.symbols = []) :
    Expr.symbolsOfAll values = [] := by
  induction values with
  | nil => rfl
  | cons first rest ih =>
      rw [List.forall_mem_cons] at fresh
      rw [Expr.symbolsOfAll, fresh.1, ih fresh.2]
      rfl

theorem Expr.Spelled.symbols_eq_nil {level : Nat} {tokens : List Token} {value : Expr}
    (spelled : Expr.Spelled level tokens value) : value.symbols = [] := by
  induction spelled with
  | binary _ _ _ left right => rw [Expr.symbols, left, right, List.append_nil]
  | unary _ _ operand => exact operand
  | call _ _ _ _ callee arguments =>
      rw [Expr.symbols, callee, List.nil_append]
      apply Expr.symbolsOfAll_eq_nil
      intro value member
      rcases List.mem_map.mp member with ⟨piece, pieceMem, rfl⟩
      exact arguments piece pieceMem
  | grouping _ inner => exact inner
  | literal => rfl
  | identifier => rfl

theorem Expr.SpelledInitializer.symbols_eq_nil {tokens : List Token} {value : Option Expr}
    (spelled : Expr.SpelledInitializer tokens value) : Expr.symbolsOfOption value = [] := by
  cases spelled with
  | none => rfl
  | some value => exact value.symbols_eq_nil

theorem Expr.SpelledReturn.symbols_eq_nil {tokens : List Token} {value : Option Expr}
    (spelled : Expr.SpelledReturn tokens value) : Expr.symbolsOfOption value = [] := by
  cases spelled with
  | none => rfl
  | some value => exact value.symbols_eq_nil

theorem LetDecl.Spelled.symbols_eq_nil {tokens : List Token} {decl : LetDecl}
    (spelled : decl.Spelled tokens) : decl.symbols = [] := by
  cases spelled with
  | intro type initializer => exact initializer.symbols_eq_nil

theorem Stmt.symbolsOfAll_eq_nil {statements : List Stmt}
    (fresh : ∀ statement ∈ statements, statement.symbols = []) :
    Stmt.symbolsOfAll statements = [] := by
  induction statements with
  | nil => rfl
  | cons first rest ih =>
      rw [List.forall_mem_cons] at fresh
      rw [Stmt.symbolsOfAll, fresh.1, ih fresh.2]
      rfl

theorem Stmt.Spelled.symbols_eq_nil {recovered : Prop} {tokens : List Token} {statement : Stmt}
    (spelled : Stmt.Spelled recovered tokens statement) : statement.symbols = [] := by
  induction spelled with
  | expression value => exact value.symbols_eq_nil
  | letDecl decl => exact decl.symbols_eq_nil
  | returning value => exact value.symbols_eq_nil
  | block _ _ pieces =>
      apply Stmt.symbolsOfAll_eq_nil
      intro statement member
      rcases List.mem_map.mp member with ⟨piece, pieceMem, rfl⟩
      exact pieces piece pieceMem

theorem Parameter.Spelled.symbol_eq_none {tokens : List Token} {parameter : Parameter}
    (spelled : parameter.Spelled tokens) : parameter.symbol = none := by
  cases spelled
  rfl

theorem Decl.Spelled.symbols_eq_nil {recovered : Prop} {tokens : List Token} {decl : Decl}
    (spelled : Decl.Spelled recovered tokens decl) : decl.symbols = [] := by
  cases spelled with
  | funDecl parameters type body =>
      rcases parameters with ⟨parameterPieces, rfl, _, parametersSpelled⟩
      rcases body with ⟨pieces, rfl, _, statementsSpelled⟩
      simp only [Decl.symbols, FunDecl.symbols, List.append_eq_nil_iff, List.flatMap_eq_nil_iff,
        Option.toList_eq_nil_iff, List.forall_mem_map, true_and]
      refine ⟨?_, Stmt.symbolsOfAll_eq_nil ?_⟩
      · intro piece member
        exact (parametersSpelled piece member).symbol_eq_none
      · rw [List.forall_mem_map]
        intro piece member
        exact (statementsSpelled piece member).symbols_eq_nil
  | letDecl decl => exact decl.symbols_eq_nil

/-- The parser binds nothing, in a complete tree and in a partial one. -/
theorem Parsed.symbols_eq_nil (source : SourceId) (tokens : List Token) :
    (Parsed.ofTokens source tokens).program.symbols = [] := by
  rcases Parsed.ofTokens_spelled source tokens with ⟨pieces, declarations_eq, _, spelled⟩
  rw [Program.symbols, declarations_eq, List.flatMap_eq_nil_iff, List.forall_mem_map]
  intro piece member
  exact (spelled piece member).symbols_eq_nil

end TypedLang
