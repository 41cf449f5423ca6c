import TypedLang.Proofs.Parsing.Frames
import TypedLang.Proofs.Parsing.Soundness

/-!
# Extents of nodes

Every node of a parsed program occupies the tokens that spell its construct, so it has the span from
the first of them to the last. This holds of programs with errors too: skipped tokens belong to the
block or to the program around them, and no other node has them. Every name has the span of the
identifier that spells it.
-/

namespace TypedLang

@[simp]
theorem Expr.root_tree_span (value : Expr) : value.tree.root.span = value.span := by
  cases value <;> rfl

theorem Expr.trees_eq_map (values : List Expr) : Expr.trees values = values.map Expr.tree := by
  induction values with
  | nil => rfl
  | cons first rest ih => rw [Expr.trees, ih, List.map_cons]

/-- The tree of an expression fits the tokens that spell it. -/
theorem Expr.Spelled.fits {recovered : Prop} {level : Nat} {tokens : List Token} {value : Expr}
    (spelled : Expr.Spelled level tokens value) : value.tree.Fits recovered tokens := by
  induction spelled with
  | @binary _ op mark leftTokens rightTokens left right _ _ _ leftFits rightFits =>
      refine .role .expression rfl (.of_pieces [(leftTokens, left.tree), (rightTokens, right.tree)]
        .binary (by simp) (by simpa using ⟨leftFits, rightFits⟩) fun ascending reaches => ?_)
      simp only [List.forall_mem_cons, root_tree_span] at reaches
      exact .combine ascending (List.prefix_append _ _)
        ((List.suffix_cons _ _).trans (List.suffix_append _ _)) leftFits.nonempty
        rightFits.nonempty reaches.1 reaches.2.1
  | @unary _ op mark tokens operand _ _ fits =>
      refine .role .expression rfl (.single .unary (by simp) fits fun ascending reaches => ?_)
      rw [root_tree_span] at reaches
      exact .combine ascending (List.prefix_append [_] tokens) (List.suffix_cons _ _)
        (List.cons_ne_nil _ _) fits.nonempty (.singleton ⟨.punct op.mark, mark⟩) reaches
  | @call _ opening close calleeTokens tokens callee arguments _ _ separated _ calleeFits fits =>
      refine .role .expression rfl ?_
      rw [trees_eq_map, ← NodeTree.map_snd_ofItems]
      refine .of_pieces ((calleeTokens, callee.tree) :: NodeTree.ofItems Expr.tree arguments)
        ?_ (by simp) ?_ fun ascending reaches => ?_
      · simpa using Node.Frame.call separated
      · exact List.forall_mem_cons.mpr ⟨calleeFits, NodeTree.forall_mem_ofItems.mpr fits⟩
      · rw [List.forall_mem_cons, root_tree_span] at reaches
        exact .combine ascending ((List.prefix_append _ _).trans (List.prefix_append _ _))
          (List.suffix_append _ _) calleeFits.nonempty (List.cons_ne_nil _ _) reaches.1
          (.singleton ⟨.punct .rightParen, close⟩)
  | @grouping _ opening close tokens inner _ fits =>
      exact .role .expression rfl (.single .grouping (by simp) fits fun ascending _ =>
        .enclosed ⟨.punct .leftParen, opening⟩ ⟨.punct .rightParen, close⟩ tokens ascending)
  | literal =>
      exact .role .expression rfl (.leaf .literal (by simp) fun _ => .singleton _)
  | identifier =>
      exact .role .expression rfl (.leaf .identifier (by simp) fun _ => .singleton _)

/-- The node of a type fits the sign and the word that spell it. -/
theorem WrittenType.Spelled.fits {recovered : Prop} {tokens : List Token} {type : WrittenType}
    (spelled : type.Spelled tokens) : type.tree.Fits recovered tokens := by
  cases spelled with
  | @intro sign span word =>
      exact .leaf .type (by simp) fun ascending =>
        .enclosed ⟨.punct .atSign, sign⟩ ⟨.typeName word, span⟩ [] ascending

theorem Parameter.Spelled.fits {recovered : Prop} {tokens : List Token} {parameter : Parameter}
    (spelled : parameter.Spelled tokens) : parameter.tree.Fits recovered tokens := by
  cases spelled with
  | @intro name tokens type spelled =>
      have child : type.tree.Fits recovered tokens := spelled.fits
      exact .single .parameter (by simp) child fun ascending reaches =>
        .combine ascending (List.prefix_append [_] tokens) (List.suffix_cons _ _)
          (List.cons_ne_nil _ _) child.nonempty (.singleton ⟨.identifier name.key, name.span⟩)
          reaches

/-- The node of a variable reaches from its keyword to its semicolon. -/
theorem LetDecl.Spelled.fits {recovered : Prop} {tokens : List Token} {decl : LetDecl}
    (spelled : decl.Spelled tokens) : decl.tree.Fits recovered tokens := by
  cases spelled with
  | @intro keyword semicolon name typeTokens tokens type initializer typeSpelled spelled =>
      have enclosed := Span.Reaches.enclosed ⟨.keyword .letWord, keyword⟩
        ⟨.punct .semicolon, semicolon⟩ (⟨.identifier name.key, name.span⟩ :: (typeTokens ++ tokens))
      cases spelled with
      | none =>
          rw [List.append_nil] at enclosed ⊢
          exact .single .letBare (by simp) typeSpelled.fits fun ascending _ => enclosed ascending
      | @some sign tokens value spelled =>
          exact .of_pieces [(typeTokens, type.tree), (tokens, value.tree)] .letInitialized (by simp)
            (by simpa using ⟨typeSpelled.fits, spelled.fits⟩) fun ascending _ => enclosed ascending

theorem Stmt.trees_eq_map (statements : List Stmt) :
    Stmt.trees statements = statements.map Stmt.tree := by
  induction statements with
  | nil => rfl
  | cons first rest ih => rw [Stmt.trees, ih, List.map_cons]

/-- A block reaches from brace to brace, skipped tokens included. -/
theorem NodeTree.Fits.block {recovered : Prop} {opening close : Span} {tokens : List Token}
    {pieces : List (List Token × Stmt)} (spliced : Spliced recovered tokens (pieces.map Prod.fst))
    (statements : ∀ piece ∈ pieces, piece.2.tree.Fits recovered piece.1) :
    Fits recovered
      (.mk ⟨.block, opening.combine close, .none⟩ (Stmt.trees (pieces.map Prod.snd)))
      (⟨.punct .leftBrace, opening⟩ :: tokens ++ [⟨.punct .rightBrace, close⟩]) := by
  rw [Stmt.trees_eq_map, ← map_snd_ofItems]
  refine .of_pieces (ofItems Stmt.tree pieces) ?_ (by simp) (forall_mem_ofItems.mpr statements)
    fun ascending _ =>
      .enclosed ⟨.punct .leftBrace, opening⟩ ⟨.punct .rightBrace, close⟩ tokens ascending
  simpa using Node.Frame.block spliced

/-- The tree of a statement fits the tokens that spell it. -/
theorem Stmt.Spelled.fits {recovered : Prop} {tokens : List Token} {statement : Stmt}
    (spelled : Stmt.Spelled recovered tokens statement) :
    statement.tree.Fits recovered tokens := by
  induction spelled with
  | @expression semicolon tokens value spelled =>
      have child : value.tree.Fits recovered tokens := spelled.fits
      refine .role .statement rfl (.single .expressionStatement (by simp) child
        fun ascending reaches => ?_)
      rw [Expr.root_tree_span] at reaches
      exact .combine ascending (List.prefix_append _ _) (List.suffix_append _ _) child.nonempty
        (List.cons_ne_nil _ _) reaches (.singleton ⟨.punct .semicolon, semicolon⟩)
  | letDecl spelled => exact .role .statement rfl spelled.fits
  | @returning keyword semicolon tokens value spelled =>
      have enclosed := Span.Reaches.enclosed ⟨.keyword .returnWord, keyword⟩
        ⟨.punct .semicolon, semicolon⟩ tokens
      refine .role .statement rfl ?_
      cases spelled with
      | none => exact .leaf .returnNothing (by simp) enclosed
      | some spelled =>
          exact .single .returnValue (by simp) spelled.fits fun ascending _ => enclosed ascending
  | block spliced _ fits => exact .role .statement rfl (.block spliced fits)

/-- A function reaches from its keyword to the end of its body. -/
theorem NodeTree.Fits.funDecl {recovered : Prop} {keyword leftParen rightParen : Span}
    {name : Name} {parameterTokens typeTokens bodyTokens : List Token}
    {parameters : List (List Token × Parameter)} {type : WrittenType} {body : NodeTree}
    (separated : Separated parameterTokens (parameters.map Prod.fst))
    (parametersSpelled : ∀ piece ∈ parameters, piece.2.Spelled piece.1)
    (typeSpelled : type.Spelled typeTokens) (bodyFits : body.Fits recovered bodyTokens) :
    Fits recovered
      (.mk ⟨.funDecl, keyword.combine body.root.span, .name name.key⟩
        ((parameters.map Prod.snd).map Parameter.tree ++ [type.tree, body]))
      (⟨.keyword .funWord, keyword⟩ :: ⟨.identifier name.key, name.span⟩ ::
        ⟨.punct .leftParen, leftParen⟩ :: (parameterTokens ++
        ⟨.punct .rightParen, rightParen⟩ :: (typeTokens ++ bodyTokens))) := by
  have isBack : bodyTokens <:+ ⟨.keyword .funWord, keyword⟩ ::
      ⟨.identifier name.key, name.span⟩ :: ⟨.punct .leftParen, leftParen⟩ :: (parameterTokens ++
      ⟨.punct .rightParen, rightParen⟩ :: (typeTokens ++ bodyTokens)) :=
    ((List.suffix_append typeTokens _).trans (List.suffix_cons _ _)).trans
      ((List.suffix_append parameterTokens _).trans (List.suffix_append [_, _, _] _))
  have children_eq : (parameters.map Prod.snd).map Parameter.tree ++ [type.tree, body] =
      (ofItems Parameter.tree parameters ++
        [(typeTokens, type.tree), (bodyTokens, body)]).map Prod.snd := by
    simp
  rw [children_eq]
  refine .of_pieces _ ?_ (by simp) ?_ fun ascending reaches => ?_
  · simpa using Node.Frame.funDecl separated
  · refine List.forall_mem_append.mpr ⟨forall_mem_ofItems.mpr fun piece member =>
      (parametersSpelled piece member).fits, ?_⟩
    simpa using ⟨typeSpelled.fits, bodyFits⟩
  · exact .combine ascending (List.prefix_append [_] _) isBack (List.cons_ne_nil _ _)
      bodyFits.nonempty (.singleton ⟨.keyword .funWord, keyword⟩)
      (reaches (bodyTokens, body) (by simp))

/-- The tree of a declaration fits the tokens that spell it. -/
theorem Decl.Spelled.fits {recovered : Prop} {tokens : List Token} {decl : Decl}
    (spelled : decl.Spelled recovered tokens) : decl.tree.Fits recovered tokens := by
  cases spelled with
  | letDecl spelled => exact .role .statement rfl spelled.fits
  | funDecl parametersSpelled typeSpelled bodySpelled =>
      rcases parametersSpelled with ⟨parameters, rfl, separated, parametersSpelled⟩
      rcases bodySpelled with ⟨statements, rfl, spliced, statementsSpelled⟩
      exact .role .statement rfl (.funDecl separated parametersSpelled typeSpelled
        (.block spliced fun piece member => (statementsSpelled piece member).fits))

/-- The token of a name. -/
def Name.token (name : Name) : Token :=
  ⟨.identifier name.key, name.span⟩

mutual

/-- The names in an expression, in order. -/
def Expr.names : Expr → List Name
  | .binary _ left right _ _ => left.names ++ right.names
  | .unary _ operand _ _ => operand.names
  | .call callee arguments _ _ => callee.names ++ Expr.namesOfAll arguments
  | .grouping inner _ _ => inner.names
  | .literal _ _ _ => []
  | .identifier name _ _ => [name]

/-- The names in several expressions, in order. -/
def Expr.namesOfAll : List Expr → List Name
  | [] => []
  | first :: rest => first.names ++ Expr.namesOfAll rest

end

/-- The names in a variable declaration, in order. -/
def LetDecl.names (decl : LetDecl) : List Name :=
  decl.name :: decl.initializer.toList.flatMap Expr.names

mutual

/-- The names in a statement, in order. -/
def Stmt.names : Stmt → List Name
  | .expression value _ => value.names
  | .letDecl decl => decl.names
  | .block statements _ => Stmt.namesOfAll statements
  | .returning value _ => value.toList.flatMap Expr.names

/-- The names in several statements, in order. -/
def Stmt.namesOfAll : List Stmt → List Name
  | [] => []
  | first :: rest => first.names ++ Stmt.namesOfAll rest

end

/-- The names in a declaration, in order. -/
def Decl.names : Decl → List Name
  | .funDecl decl =>
      decl.name :: (decl.parameters.map Parameter.name ++ Stmt.namesOfAll decl.body.statements)
  | .letDecl decl => decl.names

/-- The names in a program, in order. -/
def Program.names (program : Program) : List Name :=
  program.declarations.flatMap Decl.names

/-- The tokens of some names stand among some tokens, in order. -/
def Name.Among (tokens : List Token) (names : List Name) : Prop :=
  (names.map Name.token).Sublist tokens

namespace Name.Among

variable {tokens others : List Token} {names more : List Name} {token : Token}

theorem nil (tokens : List Token) : Name.Among tokens [] :=
  List.nil_sublist tokens

theorem append (first : Name.Among tokens names) (second : Name.Among others more) :
    Name.Among (tokens ++ others) (names ++ more) := by
  rw [Among, List.map_append]
  exact List.Sublist.append first second

theorem skip (among : Name.Among tokens names) : Name.Among (token :: tokens) names :=
  List.Sublist.cons token among

theorem take {name : Name} (among : Name.Among tokens names) :
    Name.Among (name.token :: tokens) (name :: names) :=
  List.Sublist.cons_cons name.token among

theorem before (among : Name.Among tokens names) : Name.Among (tokens ++ others) names := by
  simpa using among.append (nil others)

theorem behind (among : Name.Among others names) : Name.Among (tokens ++ others) names :=
  (nil tokens).append among

/-- The names of several pieces are among tokens that hold the pieces in order. -/
theorem pieces {Item : Type} {namesOf : Item → List Name} {pieces : List (List Token × Item)}
    (each : ∀ piece ∈ pieces, Name.Among piece.1 (namesOf piece.2))
    (sublist : (pieces.map Prod.fst).flatten.Sublist tokens) :
    Name.Among tokens ((pieces.map Prod.snd).flatMap namesOf) := by
  refine List.Sublist.trans ?_ sublist
  clear sublist
  induction pieces with
  | nil => exact .slnil
  | cons piece pieces ih =>
      have first := each piece List.mem_cons_self
      exact append first (ih fun piece member => each piece (List.mem_cons_of_mem _ member))

end Name.Among

theorem Expr.namesOfAll_eq_flatMap (values : List Expr) :
    Expr.namesOfAll values = values.flatMap Expr.names := by
  induction values with
  | nil => rfl
  | cons first rest ih => rw [Expr.namesOfAll, ih, List.flatMap_cons]

theorem Stmt.namesOfAll_eq_flatMap (statements : List Stmt) :
    Stmt.namesOfAll statements = statements.flatMap Stmt.names := by
  induction statements with
  | nil => rfl
  | cons first rest ih => rw [Stmt.namesOfAll, ih, List.flatMap_cons]

theorem Expr.Spelled.names_among {level : Nat} {tokens : List Token} {value : Expr}
    (spelled : Expr.Spelled level tokens value) : Name.Among tokens value.names := by
  induction spelled with
  | binary _ _ _ left right => exact left.append right.skip
  | unary _ _ operand => exact operand.skip
  | call _ _ separated _ callee ih =>
      rw [Expr.names, Expr.namesOfAll_eq_flatMap, List.append_assoc]
      exact callee.append (Name.Among.pieces ih separated.flatten_sublist).before.skip
  | grouping _ inner => exact inner.before.skip
  | literal => exact .nil _
  | identifier => exact Name.Among.take (.nil _)

theorem Expr.SpelledInitializer.names_among {tokens : List Token} {value : Option Expr}
    (spelled : Expr.SpelledInitializer tokens value) :
    Name.Among tokens (value.toList.flatMap Expr.names) := by
  cases spelled with
  | none => exact .nil _
  | some spelled => simpa using spelled.names_among.skip

theorem Expr.SpelledReturn.names_among {tokens : List Token} {value : Option Expr}
    (spelled : Expr.SpelledReturn tokens value) :
    Name.Among tokens (value.toList.flatMap Expr.names) := by
  cases spelled with
  | none => exact .nil _
  | some spelled => simpa using spelled.names_among

theorem LetDecl.Spelled.names_among {tokens : List Token} {decl : LetDecl}
    (spelled : decl.Spelled tokens) : Name.Among tokens decl.names := by
  rcases spelled with ⟨_, initializer⟩
  exact Name.Among.skip (.take initializer.names_among.behind.before)

theorem Parameter.names_among {tokens : List Token} {parameters : List Parameter}
    (spelled : InList Parameter.Spelled tokens parameters) :
    Name.Among tokens (parameters.map Parameter.name) := by
  rcases spelled with ⟨pieces, rfl, separated, spelled⟩
  rw [List.map_eq_flatMap]
  refine .pieces (fun piece member => ?_) separated.flatten_sublist
  rcases piece with ⟨tokens, parameter⟩
  cases spelled _ member
  exact Name.Among.take (.nil _)

theorem Stmt.Spelled.names_among {recovered : Prop} {tokens : List Token} {statement : Stmt}
    (spelled : Stmt.Spelled recovered tokens statement) : Name.Among tokens statement.names := by
  induction spelled with
  | expression spelled => exact spelled.names_among.before
  | letDecl spelled => exact spelled.names_among
  | returning spelled => exact spelled.names_among.before.skip
  | block spliced _ ih =>
      rw [Stmt.names, Stmt.namesOfAll_eq_flatMap]
      exact (Name.Among.pieces ih spliced.flatten_sublist).before.skip

theorem Decl.Spelled.names_among {recovered : Prop} {tokens : List Token} {decl : Decl}
    (spelled : decl.Spelled recovered tokens) : Name.Among tokens decl.names := by
  cases spelled with
  | letDecl spelled => exact spelled.names_among
  | funDecl parametersSpelled typeSpelled bodySpelled =>
      rcases bodySpelled with ⟨statements, rfl, spliced, statementsSpelled⟩
      have statementNames := Name.Among.pieces
        (fun piece member => (statementsSpelled piece member).names_among) spliced.flatten_sublist
      rw [← Stmt.namesOfAll_eq_flatMap] at statementNames
      exact Name.Among.skip (.take (.skip ((Parameter.names_among parametersSpelled).append
        (.skip (.behind (.skip statementNames.before))))))

/-- The span of a program reaches from its first token to its last one. -/
theorem Parsed.spanOf_reaches {tokens : List Token}
    (ascending : Span.Ascending (tokens.map Token.span)) : (spanOf tokens).Reaches tokens := by
  by_cases tokens_eq : tokens = []
  · subst tokens_eq
    exact ⟨by simp, by simp⟩
  · rw [spanOf, List.head?_eq_some_head tokens_eq, List.getLast?_eq_some_getLast tokens_eq]
    exact .combine ascending ⟨_, List.cons_head_tail tokens_eq⟩
      ⟨_, List.dropLast_concat_getLast tokens_eq⟩ (List.cons_ne_nil _ _) (List.cons_ne_nil _ _)
      (.singleton _) (.singleton _)

theorem Parsed.ofTokens_occupies (source : SourceId) {tokens : List Token}
    (ascending : Span.Ascending (tokens.map Token.span)) :
    (ofTokens source tokens).program.tree.Occupies
      ((ofTokens source tokens).errors ≠ []) tokens := by
  rcases ofTokens_spelled source tokens with ⟨pieces, declarations_eq, spliced, spelled⟩
  have frame : Node.Frame ((ofTokens source tokens).errors ≠ [])
      ⟨.program, spanOf tokens, .none⟩ (pieces.map Prod.fst) tokens := .program spliced
  rw [Program.tree, declarations_eq, ← NodeTree.map_snd_ofItems]
  refine .intro (NodeTree.ofItems Decl.tree pieces) ?_ (spanOf_reaches ascending) ?_ ?_
  · rw [NodeTree.map_fst_ofItems]
    exact frame
  · exact NodeTree.forall_mem_ofItems.mpr fun piece member => (spelled piece member).ne_nil
  · exact NodeTree.forall_mem_ofItems.mpr fun piece member => (spelled piece member).fits.occupies
      (frame.ascending_of_mem (List.mem_map_of_mem member) ascending)

/-- How a program lies on the tokens from which it was parsed. -/
structure Program.LiesOn (recovered : Prop) (tokens : List Token) (program : Program) : Prop where
  /-- Every node has the span of its construct, and the construct of the program is all tokens. -/
  occupies : program.tree.Occupies recovered tokens
  /-- The spans of children lie inside that of their parent and apart from each other, in order. -/
  nested : program.tree.Nested
  /-- The names of every declaration and of its parts have the spans of their tokens in it. -/
  spelled : InSequence recovered (Decl.Spelled recovered) tokens program.declarations
  /-- All names are identifiers among the tokens, in order. -/
  names : Name.Among tokens program.names

/--
A program lies on the tokens from which it was parsed, with or without errors, as long as the tokens
hold at least one byte each and stand one behind the other.
-/
theorem Parsed.program_liesOn (source : SourceId) (tokens : List Token)
    (ascending : Span.Ascending (tokens.map Token.span)) :
    (ofTokens source tokens).program.LiesOn ((ofTokens source tokens).errors ≠ []) tokens where
  occupies := ofTokens_occupies source ascending
  nested := (ofTokens_occupies source ascending).nested ascending
  spelled := ofTokens_spelled source tokens
  names := by
    rcases ofTokens_spelled source tokens with ⟨pieces, declarations_eq, spliced, spelled⟩
    rw [Program.names, declarations_eq]
    exact .pieces (fun piece member => (spelled piece member).names_among) spliced.flatten_sublist

/-- A variable behind a token that no declaration starts with. -/
theorem Parsed.program_liesOn_skipped :
    let tokens : List Token :=
      [⟨.punct .rightParen, .ofLength 0 1⟩, ⟨.keyword .letWord, .ofLength 2 3⟩,
        ⟨.identifier 0, .ofLength 6 1⟩, ⟨.punct .atSign, .ofLength 8 1⟩,
        ⟨.typeName .i32, .ofLength 9 3⟩, ⟨.punct .equal, .ofLength 13 1⟩,
        ⟨.integer 1, .ofLength 15 1⟩, ⟨.punct .semicolon, .ofLength 16 1⟩]
    let parsed := ofTokens 0 tokens
    parsed.errors.length = 1 ∧
      parsed.program.tree.nodes.map (fun node => (node.kind, node.span)) =
        [(.program, .ofLength 0 17), (.statement, .ofLength 2 15), (.letDecl, .ofLength 2 15),
          (.type, .ofLength 8 4), (.expression, .ofLength 15 1), (.literal, .ofLength 15 1)] ∧
      Span.Ascending (tokens.map Token.span) ∧
      parsed.program.LiesOn (parsed.errors ≠ []) tokens := by
  intro tokens
  have ascending : Span.Ascending (tokens.map Token.span) := ⟨by decide, by decide⟩
  exact ⟨by decide +kernel, by decide +kernel, ascending, program_liesOn 0 tokens ascending⟩

end TypedLang
