import TypedLang.Proofs.Parsing.Writing

/-!
# Precedence

How tight the parts of an expression bind in the trees that the parser gives. Operators of one
level group to the left: the right operand of an operator is tighter than the operator, the left one
may be as loose. What is looser than an operator or a call occurs below it only inside parentheses.
-/

namespace TypedLang

namespace Expr

/--
How tight an expression binds. The binary operators take the levels below four; an operator in front
of its operand, a call, and what stands alone or in parentheses are tighter, in this order.
-/
def level : Expr → Nat
  | binary op _ _ _ _ => op.level
  | unary _ _ _ _ => 4
  | call _ _ _ _ => 5
  | grouping _ _ _ => 6
  | literal _ _ _ => 6
  | identifier _ _ _ => 6

mutual

/-- An expression and all those inside it. -/
def subexpressions : Expr → List Expr
  | binary op left right span type =>
      binary op left right span type :: (subexpressions left ++ subexpressions right)
  | unary op operand span type => unary op operand span type :: subexpressions operand
  | call callee arguments span type =>
      call callee arguments span type ::
        (subexpressions callee ++ subexpressionsOfAll arguments)
  | grouping inner span type => grouping inner span type :: subexpressions inner
  | literal value span type => [literal value span type]
  | identifier name symbol type => [identifier name symbol type]

/-- Several expressions and all those inside them. -/
def subexpressionsOfAll : List Expr → List Expr
  | [] => []
  | first :: rest => subexpressions first ++ subexpressionsOfAll rest

end

/-- An expression and those inside it, except for those in parentheses and in lists of arguments. -/
def exposed : Expr → List Expr
  | binary op left right span type =>
      binary op left right span type :: (exposed left ++ exposed right)
  | unary op operand span type => unary op operand span type :: exposed operand
  | call callee arguments span type => call callee arguments span type :: exposed callee
  | grouping inner span type => [grouping inner span type]
  | literal value span type => [literal value span type]
  | identifier name symbol type => [identifier name symbol type]

/-- The operands of an operator and the callee of a call are tight enough. -/
def HasTightParts : Expr → Prop
  | binary op left right _ _ => op.level ≤ left.level ∧ op.level < right.level
  | unary _ operand _ _ => 4 ≤ operand.level
  | call callee _ _ _ => 5 ≤ callee.level
  | _ => True

/-- An expression groups as its levels ask for. -/
structure GroupsByLevel (value : Expr) : Prop where
  parts : value.HasTightParts
  exposed : ∀ inner ∈ value.exposed, value.level ≤ inner.level

theorem subexpressionsOfAll_eq_flatMap (values : List Expr) :
    subexpressionsOfAll values = values.flatMap subexpressions := by
  induction values with
  | nil => rfl
  | cons first rest ih => rw [subexpressionsOfAll, ih, List.flatMap_cons]

end Expr

/-- The expressions of a declaration of a variable. -/
def LetDecl.expressions (decl : LetDecl) : List Expr :=
  decl.initializer.toList.flatMap Expr.subexpressions

mutual

/-- The expressions of a statement. -/
def Stmt.expressions : Stmt → List Expr
  | .expression value _ => value.subexpressions
  | .letDecl decl => decl.expressions
  | .block statements _ => Stmt.expressionsOfAll statements
  | .returning value _ => value.toList.flatMap Expr.subexpressions

/-- The expressions of several statements. -/
def Stmt.expressionsOfAll : List Stmt → List Expr
  | [] => []
  | first :: rest => first.expressions ++ Stmt.expressionsOfAll rest

end

/-- The expressions of a declaration. -/
def Decl.expressions : Decl → List Expr
  | .funDecl decl => Stmt.expressionsOfAll decl.body.statements
  | .letDecl decl => decl.expressions

/-- All expressions of a program. -/
def Program.expressions (program : Program) : List Expr :=
  program.declarations.flatMap Decl.expressions

theorem Expr.Spelled.level_le {level : Nat} {tokens : List Token} {value : Expr}
    (spelled : Expr.Spelled level tokens value) (loose : level ≤ 6) : level ≤ value.level := by
  cases spelled with
  | binary level_le _ _ => exact level_le
  | unary level_le _ => exact level_le
  | call level_le _ _ _ => exact level_le
  | grouping _ => exact loose
  | literal => exact loose
  | identifier => exact loose

namespace Expr.GroupsByLevel

theorem binary {op : BinaryOp} {left right : Expr} {span : Span} {type : Option Ty}
    (leftGroups : left.GroupsByLevel) (rightGroups : right.GroupsByLevel)
    (leftLe : op.level ≤ left.level) (rightLt : op.level < right.level) :
    (Expr.binary op left right span type).GroupsByLevel where
  parts := ⟨leftLe, rightLt⟩
  exposed := by
    intro inner member
    simp only [Expr.exposed, List.mem_cons, List.mem_append] at member
    rcases member with rfl | member | member
    · exact Nat.le_refl _
    · exact Nat.le_trans leftLe (leftGroups.exposed inner member)
    · exact Nat.le_trans (Nat.le_of_lt rightLt) (rightGroups.exposed inner member)

theorem unary {op : UnaryOp} {operand : Expr} {span : Span} {type : Option Ty}
    (operandGroups : operand.GroupsByLevel) (le : 4 ≤ operand.level) :
    (Expr.unary op operand span type).GroupsByLevel where
  parts := le
  exposed := by
    intro inner member
    rcases List.mem_cons.mp member with rfl | member
    · exact Nat.le_refl _
    · exact Nat.le_trans le (operandGroups.exposed inner member)

theorem call {callee : Expr} {arguments : List Expr} {span : Span} {type : Option Ty}
    (calleeGroups : callee.GroupsByLevel) (le : 5 ≤ callee.level) :
    (Expr.call callee arguments span type).GroupsByLevel where
  parts := le
  exposed := by
    intro inner member
    rcases List.mem_cons.mp member with rfl | member
    · exact Nat.le_refl _
    · exact Nat.le_trans le (calleeGroups.exposed inner member)

/-- An expression that exposes only itself groups, whatever it holds. -/
theorem alone {value : Expr} (parts : value.HasTightParts) (exposed_eq : value.exposed = [value]) :
    value.GroupsByLevel where
  parts := parts
  exposed := by
    intro inner member
    rw [exposed_eq, List.mem_singleton] at member
    exact Nat.le_of_eq (congrArg Expr.level member.symm)

end Expr.GroupsByLevel

theorem Expr.Spelled.groupsByLevel {level : Nat} {tokens : List Token} {value : Expr}
    (spelled : Expr.Spelled level tokens value) : value.GroupsByLevel := by
  induction spelled with
  | @binary _ op _ _ _ _ _ _ leftSpelled rightSpelled leftGroups rightGroups =>
      have loose := op.level_lt
      exact .binary leftGroups rightGroups (leftSpelled.level_le (by omega))
        (rightSpelled.level_le (by omega))
  | unary _ operandSpelled operandGroups =>
      exact .unary operandGroups (operandSpelled.level_le (by decide))
  | call _ calleeSpelled _ _ calleeGroups _ =>
      exact .call calleeGroups (calleeSpelled.level_le (by decide))
  | grouping _ _ => exact .alone trivial rfl
  | literal => exact .alone trivial rfl
  | identifier => exact .alone trivial rfl

/-- Whatever is inside an expression that tokens spell is spelled by tokens as well. -/
theorem Expr.Spelled.subexpressions {level : Nat} {tokens : List Token} {value : Expr}
    (spelled : Expr.Spelled level tokens value) :
    ∀ inner ∈ value.subexpressions, ∃ level tokens, Expr.Spelled level tokens inner := by
  induction spelled with
  | @binary _ _ mark _ _ _ _ level_le left right leftAll rightAll =>
      simp only [Expr.subexpressions, List.forall_mem_cons, List.forall_mem_append]
      exact ⟨⟨_, _ ++ ⟨_, mark⟩ :: _, .binary level_le left right⟩, leftAll, rightAll⟩
  | unary level_le operand operandAll =>
      exact List.forall_mem_cons.mpr ⟨⟨_, _, .unary level_le operand⟩, operandAll⟩
  | @call _ opening _ _ _ _ _ level_le callee separated arguments calleeAll argumentsAll =>
      simp only [Expr.subexpressions, Expr.subexpressionsOfAll_eq_flatMap, List.forall_mem_cons,
        List.forall_mem_append, List.flatMap_map]
      refine ⟨⟨_, _ ++ ⟨_, opening⟩ :: _ ++ _, .call level_le callee separated arguments⟩,
        calleeAll, ?_⟩
      intro inner member
      rcases List.mem_flatMap.mp member with ⟨argument, argumentMem, innerMem⟩
      exact argumentsAll argument argumentMem inner innerMem
  | grouping inner innerAll =>
      exact List.forall_mem_cons.mpr ⟨⟨0, _, .grouping inner⟩, innerAll⟩
  | literal => exact List.forall_mem_singleton.mpr ⟨0, _, .literal⟩
  | identifier => exact List.forall_mem_singleton.mpr ⟨0, _, .identifier⟩

theorem LetDecl.Spelled.expressions {tokens : List Token} {decl : LetDecl}
    (spelled : decl.Spelled tokens) :
    ∀ inner ∈ decl.expressions, ∃ level tokens, Expr.Spelled level tokens inner := by
  cases spelled with
  | intro _ initializer =>
      cases initializer with
      | none => exact List.forall_mem_nil _
      | some value => simpa [LetDecl.expressions] using value.subexpressions

theorem Stmt.expressionsOfAll_eq_flatMap (statements : List Stmt) :
    Stmt.expressionsOfAll statements = statements.flatMap Stmt.expressions := by
  induction statements with
  | nil => rfl
  | cons first rest ih => rw [Stmt.expressionsOfAll, ih, List.flatMap_cons]

theorem Stmt.Spelled.expressions {recovered : Prop} {tokens : List Token} {statement : Stmt}
    (spelled : Stmt.Spelled recovered tokens statement) :
    ∀ inner ∈ statement.expressions, ∃ level tokens, Expr.Spelled level tokens inner := by
  induction spelled with
  | expression value => exact value.subexpressions
  | letDecl decl => exact decl.expressions
  | returning value =>
      cases value with
      | none => exact List.forall_mem_nil _
      | some value => simpa [Stmt.expressions] using value.subexpressions
  | block _ _ all =>
      intro inner member
      rw [Stmt.expressions, Stmt.expressionsOfAll_eq_flatMap, List.flatMap_map] at member
      rcases List.mem_flatMap.mp member with ⟨piece, pieceMem, member⟩
      exact all piece pieceMem inner member

theorem Decl.Spelled.expressions {recovered : Prop} {tokens : List Token} {decl : Decl}
    (spelled : Decl.Spelled recovered tokens decl) :
    ∀ inner ∈ decl.expressions, ∃ level tokens, Expr.Spelled level tokens inner := by
  cases spelled with
  | funDecl _ _ body =>
      rcases body with ⟨pieces, rfl, _, all⟩
      intro inner member
      rw [Decl.expressions, Stmt.expressionsOfAll_eq_flatMap, List.flatMap_map] at member
      rcases List.mem_flatMap.mp member with ⟨piece, pieceMem, member⟩
      exact (all piece pieceMem).expressions inner member
  | letDecl decl => exact decl.expressions

/-- Every expression that the parser gives is spelled by tokens, also in a partial tree. -/
theorem Parsed.expressions_spelled (source : SourceId) (tokens : List Token) :
    ∀ inner ∈ (ofTokens source tokens).program.expressions,
      ∃ level tokens, Expr.Spelled level tokens inner := by
  rcases ofTokens_spelled source tokens with ⟨pieces, declarations_eq, _, all⟩
  intro inner member
  rw [Program.expressions, declarations_eq, List.flatMap_map] at member
  rcases List.mem_flatMap.mp member with ⟨piece, pieceMem, member⟩
  exact (all piece pieceMem).expressions inner member

/-- Every expression that the parser gives groups by its levels, also in a partial tree. -/
theorem Parsed.expressions_groupByLevel (source : SourceId) (tokens : List Token) :
    ∀ inner ∈ (ofTokens source tokens).program.expressions, inner.GroupsByLevel := by
  intro inner member
  rcases expressions_spelled source tokens inner member with ⟨_, _, spelled⟩
  exact spelled.groupsByLevel

/--
Where the parser finds no error, its tree writes the tokens that it was given, and every expression
in it groups by its levels.
-/
theorem Parsed.program_faithful {source : SourceId} {tokens : List Token}
    (clean : (ofTokens source tokens).errors = []) :
    (ofTokens source tokens).program.lexemes = tokens.map (fun token => token.lexeme.canonical) ∧
      ∀ value ∈ (ofTokens source tokens).program.expressions,
        value.HasTightParts ∧ ∀ inner ∈ value.exposed, value.level ≤ inner.level := by
  refine ⟨lexemes_eq clean, ?_⟩
  intro value member
  have groups := expressions_groupByLevel source tokens value member
  exact ⟨groups.parts, groups.exposed⟩

/-- A sum and a product beside a call of a size of the machine. -/
theorem Parsed.program_faithful_initializer :
    let tokens : List Token :=
      [⟨.keyword .letWord, .single 0⟩, ⟨.identifier 0, .single 1⟩, ⟨.punct .atSign, .single 2⟩,
        ⟨.typeName .usize, .single 3⟩, ⟨.punct .equal, .single 4⟩, ⟨.integer 1, .single 5⟩,
        ⟨.punct .minus, .single 6⟩, ⟨.integer 2, .single 7⟩, ⟨.punct .star, .single 8⟩,
        ⟨.identifier 1, .single 9⟩, ⟨.punct .leftParen, .single 10⟩,
        ⟨.punct .rightParen, .single 11⟩, ⟨.punct .semicolon, .single 12⟩]
    (ofTokens 0 tokens).errors = [] ∧
      (ofTokens 0 tokens).program.lexemes = tokens.map (fun token => token.lexeme.canonical) ∧
      ∀ value ∈ (ofTokens 0 tokens).program.expressions,
        value.HasTightParts ∧ ∀ inner ∈ value.exposed, value.level ≤ inner.level :=
  ⟨by decide, Parsed.program_faithful (by decide)⟩

end TypedLang
