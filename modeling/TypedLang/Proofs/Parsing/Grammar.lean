import TypedLang.Parsing

/-!
# The grammar

The grammar as a relation between stretches of tokens and the trees that they spell. It knows nothing
of lookahead, fuel or failures: a tree is spelled by the tokens of its parts in order, with the words
and marks that the grammar puts between them.

A stretch from which the parser recovered spells nothing. The relations for statements and larger
pieces allow such stretches between the parts only if they are told that there was a recovery.
-/

namespace TypedLang

/-- Pieces in order with commas between them. -/
inductive Separated : List Token → List (List Token) → Prop where
  | none : Separated [] []
  | last {piece : List Token} : Separated piece [piece]
  | more {piece rest next : List Token} {pieces : List (List Token)} {comma : Span} :
      Separated rest (next :: pieces) →
      Separated (piece ++ ⟨.punct .comma, comma⟩ :: rest) (piece :: next :: pieces)

/-- Pieces in order; only after a recovery there may be other tokens between them. -/
inductive Spliced (recovered : Prop) : List Token → List (List Token) → Prop where
  | nil : Spliced recovered [] []
  | piece {piece rest : List Token} {pieces : List (List Token)} :
      Spliced recovered rest pieces → Spliced recovered (piece ++ rest) (piece :: pieces)
  | skip {skipped rest : List Token} {pieces : List (List Token)} :
      recovered → Spliced recovered rest pieces → Spliced recovered (skipped ++ rest) pieces

/-- Some tokens spell items in order with commas between them. -/
def InList {Item : Type} (spelled : List Token → Item → Prop) (tokens : List Token)
    (items : List Item) : Prop :=
  ∃ pieces : List (List Token × Item), items = pieces.map Prod.snd ∧
    Separated tokens (pieces.map Prod.fst) ∧ ∀ piece ∈ pieces, spelled piece.1 piece.2

/-- Some tokens spell items in order, with other tokens between them only after a recovery. -/
def InSequence {Item : Type} (recovered : Prop) (spelled : List Token → Item → Prop)
    (tokens : List Token) (items : List Item) : Prop :=
  ∃ pieces : List (List Token × Item), items = pieces.map Prod.snd ∧
    Spliced recovered tokens (pieces.map Prod.fst) ∧ ∀ piece ∈ pieces, spelled piece.1 piece.2

/-- The level of a binary operator, from the loosest on. -/
def BinaryOp.level : BinaryOp → Nat
  | equality _ => 0
  | comparison _ => 1
  | term _ => 2
  | factor _ => 3

/-- The lexeme that writes a literal. -/
def Literal.lexeme : Literal → Lexeme Key
  | integer value => .integer value
  | decimal value => .decimal value
  | string key => .string key
  | boolean value => .boolean value

/--
Some tokens spell an expression of a level or a tighter one. The levels of unary operators and of
calls come behind those of the binary operators, whose left operands may be of their own level.
-/
inductive Expr.Spelled : (level : Nat) → List Token → Expr → Prop where
  | binary {level : Nat} {op : BinaryOp} {mark : Span} {leftTokens rightTokens : List Token}
      {left right : Expr} :
      level ≤ op.level → Spelled op.level leftTokens left →
      Spelled (op.level + 1) rightTokens right →
      Spelled level (leftTokens ++ ⟨.punct op.mark, mark⟩ :: rightTokens)
        (.binary op left right (left.span.combine right.span) none)
  | unary {level : Nat} {op : UnaryOp} {mark : Span} {tokens : List Token} {operand : Expr} :
      level ≤ 4 → Spelled 4 tokens operand →
      Spelled level (⟨.punct op.mark, mark⟩ :: tokens)
        (.unary op operand (mark.combine operand.span) none)
  | call {level : Nat} {opening close : Span} {calleeTokens tokens : List Token} {callee : Expr}
      {arguments : List (List Token × Expr)} :
      level ≤ 5 → Spelled 5 calleeTokens callee → Separated tokens (arguments.map Prod.fst) →
      (∀ argument ∈ arguments, Spelled 0 argument.1 argument.2) →
      Spelled level
        (calleeTokens ++ ⟨.punct .leftParen, opening⟩ :: tokens ++ [⟨.punct .rightParen, close⟩])
        (.call callee (arguments.map Prod.snd) (callee.span.combine close) none)
  | grouping {level : Nat} {opening close : Span} {tokens : List Token} {inner : Expr} :
      Spelled 0 tokens inner →
      Spelled level (⟨.punct .leftParen, opening⟩ :: tokens ++ [⟨.punct .rightParen, close⟩])
        (.grouping inner (opening.combine close) none)
  | literal {level : Nat} {value : Literal} {span : Span} :
      Spelled level [⟨value.lexeme, span⟩] (.literal value span none)
  | identifier {level : Nat} {name : Name} :
      Spelled level [⟨.identifier name.key, name.span⟩] (.identifier name none none)

theorem Expr.Spelled.loosen {tight loose : Nat} {tokens : List Token} {value : Expr}
    (spelled : Expr.Spelled tight tokens value) (le : loose ≤ tight) :
    Expr.Spelled loose tokens value := by
  cases spelled with
  | binary level_le left right => exact .binary (Nat.le_trans le level_le) left right
  | unary level_le operand => exact .unary (Nat.le_trans le level_le) operand
  | call level_le callee separated arguments =>
      exact .call (Nat.le_trans le level_le) callee separated arguments
  | grouping inner => exact .grouping inner
  | literal => exact .literal
  | identifier => exact .identifier

/-- Some tokens spell a type behind an at sign. -/
inductive WrittenType.Spelled : List Token → WrittenType → Prop where
  | intro {sign span : Span} {word : TypeName} :
      Spelled [⟨.punct .atSign, sign⟩, ⟨.typeName word, span⟩] ⟨word.type, sign.combine span⟩

/-- Some tokens spell a name and its type. -/
inductive Parameter.Spelled : List Token → Parameter → Prop where
  | intro {name : Name} {tokens : List Token} {type : WrittenType} :
      type.Spelled tokens →
      Spelled (⟨.identifier name.key, name.span⟩ :: tokens)
        ⟨name, type, none, name.span.combine type.span⟩

/-- Some tokens spell the initializer of a variable, if it has one. -/
inductive Expr.SpelledInitializer : List Token → Option Expr → Prop where
  | none : SpelledInitializer [] none
  | some {sign : Span} {tokens : List Token} {value : Expr} :
      value.Spelled 0 tokens → SpelledInitializer (⟨.punct .equal, sign⟩ :: tokens) (some value)

/-- Some tokens spell the value of a return statement, if it has one. -/
inductive Expr.SpelledReturn : List Token → Option Expr → Prop where
  | none : SpelledReturn [] none
  | some {tokens : List Token} {value : Expr} :
      value.Spelled 0 tokens → SpelledReturn tokens (some value)

/-- Some tokens spell the declaration of a variable. -/
inductive LetDecl.Spelled : List Token → LetDecl → Prop where
  | intro {keyword semicolon : Span} {name : Name} {typeTokens tokens : List Token}
      {type : WrittenType} {initializer : Option Expr} :
      type.Spelled typeTokens → Expr.SpelledInitializer tokens initializer →
      Spelled
        (⟨.keyword .letWord, keyword⟩ :: ⟨.identifier name.key, name.span⟩ ::
          (typeTokens ++ tokens ++ [⟨.punct .semicolon, semicolon⟩]))
        ⟨name, type, initializer, none, keyword.combine semicolon⟩

/-- Some tokens spell a statement. -/
inductive Stmt.Spelled (recovered : Prop) : List Token → Stmt → Prop where
  | expression {semicolon : Span} {tokens : List Token} {value : Expr} :
      value.Spelled 0 tokens →
      Spelled recovered (tokens ++ [⟨.punct .semicolon, semicolon⟩])
        (.expression value (value.span.combine semicolon))
  | letDecl {tokens : List Token} {decl : LetDecl} :
      decl.Spelled tokens → Spelled recovered tokens (.letDecl decl)
  | returning {keyword semicolon : Span} {tokens : List Token} {value : Option Expr} :
      Expr.SpelledReturn tokens value →
      Spelled recovered
        (⟨.keyword .returnWord, keyword⟩ :: tokens ++ [⟨.punct .semicolon, semicolon⟩])
        (.returning value (keyword.combine semicolon))
  | block {opening close : Span} {tokens : List Token} {pieces : List (List Token × Stmt)} :
      Spliced recovered tokens (pieces.map Prod.fst) →
      (∀ piece ∈ pieces, Spelled recovered piece.1 piece.2) →
      Spelled recovered
        (⟨.punct .leftBrace, opening⟩ :: tokens ++ [⟨.punct .rightBrace, close⟩])
        (.block (pieces.map Prod.snd) (opening.combine close))

/-- Some tokens spell a declaration. -/
inductive Decl.Spelled (recovered : Prop) : List Token → Decl → Prop where
  | funDecl {keyword leftParen rightParen opening close : Span} {name : Name}
      {parameterTokens typeTokens bodyTokens : List Token} {parameters : List Parameter}
      {type : WrittenType} {statements : List Stmt} :
      InList Parameter.Spelled parameterTokens parameters → type.Spelled typeTokens →
      InSequence recovered (Stmt.Spelled recovered) bodyTokens statements →
      Spelled recovered
        (⟨.keyword .funWord, keyword⟩ :: ⟨.identifier name.key, name.span⟩ ::
          ⟨.punct .leftParen, leftParen⟩ :: (parameterTokens ++
          ⟨.punct .rightParen, rightParen⟩ :: (typeTokens ++
          ⟨.punct .leftBrace, opening⟩ :: (bodyTokens ++ [⟨.punct .rightBrace, close⟩]))))
        (.funDecl ⟨name, parameters, type, ⟨statements, opening.combine close⟩, none,
          keyword.combine (opening.combine close)⟩)
  | letDecl {tokens : List Token} {decl : LetDecl} :
      decl.Spelled tokens → Spelled recovered tokens (.letDecl decl)

namespace InSequence

variable {Item : Type} {recovered : Prop} {spelled : List Token → Item → Prop}
  {tokens rest : List Token} {item : Item} {items : List Item}

theorem nil : InSequence recovered spelled [] [] :=
  ⟨[], rfl, .nil, by simp⟩

theorem cons (first : spelled tokens item) (sequence : InSequence recovered spelled rest items) :
    InSequence recovered spelled (tokens ++ rest) (item :: items) := by
  rcases sequence with ⟨pieces, rfl, spliced, all⟩
  exact ⟨(tokens, item) :: pieces, rfl, .piece spliced, List.forall_mem_cons.mpr ⟨first, all⟩⟩

theorem skip (was : recovered) (sequence : InSequence recovered spelled rest items) :
    InSequence recovered spelled (tokens ++ rest) items := by
  rcases sequence with ⟨pieces, rfl, spliced, all⟩
  exact ⟨pieces, rfl, .skip was spliced, all⟩

end InSequence

namespace InList

variable {Item : Type} {spelled : List Token → Item → Prop} {tokens rest : List Token}
  {item next : Item} {items : List Item}

theorem nil : InList spelled [] [] :=
  ⟨[], rfl, .none, by simp⟩

theorem singleton (first : spelled tokens item) : InList spelled tokens [item] :=
  ⟨[(tokens, item)], rfl, .last, by simpa using first⟩

theorem cons {comma : Span} (first : spelled tokens item)
    (list : InList spelled rest (next :: items)) :
    InList spelled (tokens ++ ⟨.punct .comma, comma⟩ :: rest) (item :: next :: items) := by
  rcases list with ⟨pieces, items_eq, separated, all⟩
  cases pieces with
  | nil => cases items_eq
  | cons piece pieces =>
      cases items_eq
      exact ⟨(tokens, item) :: piece :: pieces, rfl, .more separated,
        List.forall_mem_cons.mpr ⟨first, all⟩⟩

end InList

theorem Spliced.imp {recovered more : Prop} {tokens : List Token} {pieces : List (List Token)}
    (spliced : Spliced recovered tokens pieces) (weaken : recovered → more) :
    Spliced more tokens pieces := by
  induction spliced with
  | nil => exact .nil
  | piece _ ih => exact .piece ih
  | skip was _ ih => exact .skip (weaken was) ih

theorem Stmt.Spelled.imp {recovered more : Prop} {tokens : List Token} {statement : Stmt}
    (spelled : Stmt.Spelled recovered tokens statement) (weaken : recovered → more) :
    Stmt.Spelled more tokens statement := by
  induction spelled with
  | expression value => exact .expression value
  | letDecl decl => exact .letDecl decl
  | returning value => exact .returning value
  | block spliced _ ih => exact .block (spliced.imp weaken) ih

theorem InSequence.imp {Item : Type} {recovered more : Prop}
    {spelled others : List Token → Item → Prop} {tokens : List Token} {items : List Item}
    (sequence : InSequence recovered spelled tokens items) (weaken : recovered → more)
    (each : ∀ tokens item, spelled tokens item → others tokens item) :
    InSequence more others tokens items := by
  rcases sequence with ⟨pieces, items_eq, spliced, all⟩
  exact ⟨pieces, items_eq, spliced.imp weaken,
    fun piece member => each _ _ (all piece member)⟩

theorem Decl.Spelled.imp {recovered more : Prop} {tokens : List Token} {decl : Decl}
    (spelled : Decl.Spelled recovered tokens decl) (weaken : recovered → more) :
    Decl.Spelled more tokens decl := by
  cases spelled with
  | funDecl parameters type body =>
      exact .funDecl parameters type (body.imp weaken fun _ _ statement => statement.imp weaken)
  | letDecl decl => exact .letDecl decl

theorem Decl.Spelled.ne_nil {recovered : Prop} {tokens : List Token} {decl : Decl}
    (spelled : Decl.Spelled recovered tokens decl) : tokens ≠ [] := by
  rcases spelled with _ | ⟨⟨_⟩⟩ <;> simp

end TypedLang
