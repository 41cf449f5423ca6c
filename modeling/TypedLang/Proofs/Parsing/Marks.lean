import TypedLang.Program.Node
import TypedLang.Proofs.Parsing.Soundness
import TypedLang.Proofs.Token.Order

/-!
# Marks

Reports point to two kinds of places in a program: to pieces of the headers of declarations and to
values. Each such piece is a mark here. In a program that was parsed without errors, the marks stand
one behind the other, and behind every mark there is a token that belongs to none. As tokens are not
empty, no two places in different marks touch.
-/

namespace TypedLang

/-- The name that tells a node apart, if it is a name. -/
def Node.key? (node : Node) : Option Key :=
  match node.detail with
  | .name key => some key
  | _ => none

/-- A piece of a program to which reports may point, with the spans and the names in it. -/
structure Mark where
  isValue : Bool
  spans : List Span
  keys : List Key

namespace Mark

/-- The name of a function. -/
def ofName (name : Name) : Mark :=
  ⟨false, [name.span], [name.key]⟩

/-- The name and the type of a variable. -/
def ofVariable (name : Name) (type : WrittenType) : Mark :=
  ⟨false, [name.span, type.span], [name.key]⟩

/-- The type that a function returns. -/
def ofType (type : WrittenType) : Mark :=
  ⟨false, [type.span], []⟩

/-- A value with all its parts. -/
def ofValue (value : Expr) : Mark :=
  ⟨true, value.tree.nodes.map Node.span, value.tree.nodes.filterMap Node.key?⟩

/-- A mark ends before another one starts, and does not touch it. -/
def Before (mark later : Mark) : Prop :=
  ∀ span ∈ mark.spans, ∀ other ∈ later.spans, span.stop < other.start

end Mark

/-- The marks of a variable declaration. -/
def LetDecl.marks (decl : LetDecl) : List Mark :=
  .ofVariable decl.name decl.type :: decl.initializer.toList.map Mark.ofValue

mutual

/-- The marks of a statement. -/
def Stmt.marks : Stmt → List Mark
  | .expression value _ => [.ofValue value]
  | .letDecl decl => decl.marks
  | .block statements _ => Stmt.marksOfAll statements
  | .returning value _ => value.toList.map Mark.ofValue

/-- The marks of several statements. -/
def Stmt.marksOfAll : List Stmt → List Mark
  | [] => []
  | first :: rest => first.marks ++ Stmt.marksOfAll rest

end

/-- The mark of a parameter. -/
def Parameter.mark (parameter : Parameter) : Mark :=
  .ofVariable parameter.name parameter.type

/-- The marks of a function. -/
def FunDecl.marks (decl : FunDecl) : List Mark :=
  .ofName decl.name :: (decl.parameters.map Parameter.mark ++
    .ofType decl.returnType :: Stmt.marksOfAll decl.body.statements)

/-- The marks of a declaration. -/
def Decl.marks : Decl → List Mark
  | .funDecl decl => decl.marks
  | .letDecl decl => decl.marks

/-- The marks of a program in order. -/
def Program.marks (program : Program) : List Mark :=
  program.declarations.flatMap Decl.marks

/-- A span reaches from the start of some token to the stop of some token, with a token inside. -/
structure Span.CoveredBy (tokens : List Token) (span : Span) : Prop where
  start : ∃ token ∈ tokens, span.start = token.span.start
  stop : ∃ token ∈ tokens, span.stop = token.span.stop
  inside : ∃ token ∈ tokens, span.start ≤ token.span.start ∧ token.span.stop ≤ span.stop

/-- All spans and names in a mark come from some tokens. -/
structure Mark.CoveredBy (tokens : List Token) (mark : Mark) : Prop where
  spans : ∀ span ∈ mark.spans, span.CoveredBy tokens
  keys : ∀ key ∈ mark.keys, ∃ token ∈ tokens, token.lexeme = .identifier key

/-- Marks in order among some tokens, each one with a token behind it that belongs to none. -/
inductive Marked : List Token → List Mark → Prop where
  | nil : Marked [] []
  | skip {token : Token} {rest : List Token} {marks : List Mark} :
      Marked rest marks → Marked (token :: rest) marks
  | mark {tokens rest : List Token} {separator : Token} {mark : Mark} {marks : List Mark} :
      mark.CoveredBy tokens → Marked rest marks →
      Marked (tokens ++ separator :: rest) (mark :: marks)

namespace Span.CoveredBy

variable {tokens others : List Token} {span other : Span}

theorem mono (covered : span.CoveredBy tokens) (subset : tokens ⊆ others) :
    span.CoveredBy others := by
  rcases covered with ⟨⟨first, firstMem, start⟩, ⟨last, lastMem, stop⟩, inner, innerMem, inside⟩
  exact ⟨⟨first, subset firstMem, start⟩, ⟨last, subset lastMem, stop⟩, inner, subset innerMem,
    inside⟩

theorem of_mem (token : Token) (member : token ∈ tokens) : token.span.CoveredBy tokens :=
  ⟨⟨token, member, rfl⟩, ⟨token, member, rfl⟩, token, member, Nat.le_refl _, Nat.le_refl _⟩

theorem combine (left : span.CoveredBy tokens) (right : other.CoveredBy tokens) :
    (span.combine other).CoveredBy tokens := by
  refine ⟨?_, ?_, ?_⟩
  · rcases Nat.le_total span.start other.start with le | le
    · simpa only [Span.combine, Nat.min_eq_left le] using left.start
    · simpa only [Span.combine, Nat.min_eq_right le] using right.start
  · rcases Nat.le_total span.stop other.stop with le | le
    · simpa only [Span.combine, Nat.max_eq_right le] using right.stop
    · simpa only [Span.combine, Nat.max_eq_left le] using left.stop
  · rcases left.inside with ⟨inner, innerMem, start_le, le_stop⟩
    exact ⟨inner, innerMem, Nat.le_trans (Nat.min_le_left _ _) start_le,
      Nat.le_trans le_stop (Nat.le_max_left _ _)⟩

end Span.CoveredBy

namespace Marked

variable {tokens others : List Token} {marks more : List Mark}

theorem append (first : Marked tokens marks) (second : Marked others more) :
    Marked (tokens ++ others) (marks ++ more) := by
  induction first with
  | nil => exact second
  | skip _ ih => exact .skip ih
  | mark covered _ ih =>
      rw [List.append_assoc, List.cons_append, List.cons_append]
      exact .mark covered ih

theorem skipped (tokens : List Token) : Marked tokens [] := by
  induction tokens with
  | nil => exact .nil
  | cons token rest ih => exact .skip ih

theorem length_le (marked : Marked tokens marks) : marks.length ≤ tokens.length := by
  induction marked with
  | nil => exact Nat.le_refl _
  | skip _ ih => exact Nat.le_succ_of_le ih
  | mark _ _ ih =>
      simp only [List.length_cons, List.length_append]
      omega

theorem coveredBy_of_mem (marked : Marked tokens marks) {mark : Mark} (member : mark ∈ marks) :
    mark.CoveredBy tokens := by
  have widen : ∀ {front back : List Token}, mark.CoveredBy front → front ⊆ back →
      mark.CoveredBy back := by
    intro front back covered subset
    refine ⟨fun span spanMem => (covered.spans span spanMem).mono subset, ?_⟩
    intro key keyMem
    rcases covered.keys key keyMem with ⟨token, tokenMem, lexeme_eq⟩
    exact ⟨token, subset tokenMem, lexeme_eq⟩
  induction marked with
  | nil => cases member
  | skip _ ih => exact widen (ih member) (List.subset_cons_self _ _)
  | mark covered _ ih =>
      rcases List.mem_cons.mp member with rfl | member
      · exact widen covered (List.subset_append_left _ _)
      · exact widen (ih member) (fun _ tokenMem =>
          List.mem_append_right _ (List.mem_cons_of_mem _ tokenMem))

/-- The marks among the tokens of a text stand apart from each other, in order. -/
theorem pairwise_before (marked : Marked tokens marks)
    (ascending : Span.Ascending (tokens.map Token.span)) : marks.Pairwise Mark.Before := by
  induction marked with
  | nil => exact .nil
  | skip _ ih => exact ih (ascending.sublist (List.sublist_cons_self _ _))
  | @mark tokens rest separator mark marks covered marked ih =>
      rw [List.map_append, List.map_cons] at ascending
      rcases List.pairwise_append.mp ascending.ascending with ⟨_, behind, across⟩
      have nonempty := ascending.nonempty separator.span
        (List.mem_append_right _ List.mem_cons_self)
      refine List.pairwise_cons.mpr ⟨?_, ih (ascending.sublist ?_)⟩
      · intro later laterMem span spanMem other otherMem
        rcases (covered.spans span spanMem).stop with ⟨last, lastMem, stop_eq⟩
        rcases ((marked.coveredBy_of_mem laterMem).spans other otherMem).start with
          ⟨first, firstMem, start_eq⟩
        have before := across last.span (List.mem_map_of_mem lastMem) separator.span
          List.mem_cons_self
        have after := (List.pairwise_cons.mp behind).1 first.span (List.mem_map_of_mem firstMem)
        omega
      · exact (List.sublist_cons_self _ _).trans (List.sublist_append_right _ _)

end Marked

/-- A node and its name come from some tokens. -/
structure Node.CoveredBy (tokens : List Token) (node : Node) : Prop where
  span : node.span.CoveredBy tokens
  key : ∀ key, node.key? = some key → ∃ token ∈ tokens, token.lexeme = .identifier key

namespace Node.CoveredBy

variable {tokens others : List Token} {node : Node}

theorem mono (covered : node.CoveredBy tokens) (subset : tokens ⊆ others) :
    node.CoveredBy others := by
  refine ⟨covered.span.mono subset, ?_⟩
  intro key key_eq
  rcases covered.key key key_eq with ⟨token, member, lexeme_eq⟩
  exact ⟨token, subset member, lexeme_eq⟩

theorem nameless (span : node.span.CoveredBy tokens) (none : node.key? = none) :
    node.CoveredBy tokens :=
  ⟨span, by simp [none]⟩

end Node.CoveredBy

theorem Expr.exists_node (value : Expr) : ∃ node ∈ value.tree.nodes, node.span = value.span := by
  cases value <;> exact ⟨_, List.mem_cons_self, rfl⟩

/-- All nodes of an expression come from some tokens. -/
def Expr.CoveredBy (tokens : List Token) (value : Expr) : Prop :=
  ∀ node ∈ value.tree.nodes, node.CoveredBy tokens

namespace Expr.CoveredBy

variable {tokens others : List Token} {value : Expr}

theorem mono (covered : value.CoveredBy tokens) (subset : tokens ⊆ others) :
    value.CoveredBy others :=
  fun node member => (covered node member).mono subset

theorem span (covered : value.CoveredBy tokens) : value.span.CoveredBy tokens := by
  rcases value.exists_node with ⟨node, member, span_eq⟩
  exact span_eq ▸ (covered node member).span

/-- The role of an expression has its span; the node below it and its parts can be told apart. -/
theorem of_parts {span : Span} {node : Node} {trees : List NodeTree}
    (tree_eq : value.tree = .mk ⟨.expression, span, .none⟩ [.mk node trees])
    (whole : span.CoveredBy tokens) (own : node.CoveredBy tokens)
    (parts : ∀ inner ∈ NodeTree.nodesOfAll trees, inner.CoveredBy tokens) :
    value.CoveredBy tokens := by
  simp only [Expr.CoveredBy, tree_eq, NodeTree.nodes, NodeTree.nodesOfAll, List.append_nil,
    List.forall_mem_cons]
  exact ⟨.nameless whole rfl, own, parts⟩

theorem mark (covered : value.CoveredBy tokens) : (Mark.ofValue value).CoveredBy tokens := by
  constructor
  · intro span member
    rcases List.mem_map.mp member with ⟨node, nodeMem, rfl⟩
    exact (covered node nodeMem).span
  · intro key member
    rcases List.mem_filterMap.mp member with ⟨node, nodeMem, key_eq⟩
    exact (covered node nodeMem).key key key_eq

end Expr.CoveredBy

theorem Expr.mem_nodes_trees {node : Node} {values : List Expr}
    (member : node ∈ NodeTree.nodesOfAll (Expr.trees values)) :
    ∃ value ∈ values, node ∈ value.tree.nodes := by
  induction values with
  | nil => cases member
  | cons first rest ih =>
      rcases List.mem_append.mp member with member | member
      · exact ⟨first, List.mem_cons_self, member⟩
      · rcases ih member with ⟨value, valueMem, found⟩
        exact ⟨value, List.mem_cons_of_mem _ valueMem, found⟩

theorem Separated.subset {tokens piece : List Token} {pieces : List (List Token)}
    (separated : Separated tokens pieces) (member : piece ∈ pieces) : piece ⊆ tokens := by
  induction separated with
  | none => cases member
  | last =>
      cases List.mem_singleton.mp member
      exact List.Subset.refl _
  | more _ ih =>
      rcases List.mem_cons.mp member with rfl | member
      · exact List.subset_append_left _ _
      · intro token tokenMem
        exact List.mem_append_right _ (List.mem_cons_of_mem _ (ih member tokenMem))

/-- All nodes of an expression come from the tokens that spell it. -/
theorem Expr.Spelled.coveredBy {level : Nat} {tokens : List Token} {value : Expr}
    (spelled : Expr.Spelled level tokens value) : value.CoveredBy tokens := by
  induction spelled with
  | @binary level op mark leftTokens rightTokens left right _ _ _ leftCovered rightCovered =>
      have leftInside := leftCovered.mono (List.subset_append_left leftTokens
        (⟨.punct op.mark, mark⟩ :: rightTokens))
      have rightInside := rightCovered.mono (List.subset_append_of_subset_right leftTokens
        (List.subset_cons_self ⟨.punct op.mark, mark⟩ rightTokens))
      have whole := leftInside.span.combine rightInside.span
      apply Expr.CoveredBy.of_parts rfl whole (.nameless whole rfl)
      rw [NodeTree.nodesOfAll, NodeTree.nodesOfAll, NodeTree.nodesOfAll, List.append_nil,
        List.forall_mem_append]
      exact ⟨leftInside, rightInside⟩
  | @unary level op mark tokens operand _ _ operandCovered =>
      have inside := operandCovered.mono (List.subset_cons_self ⟨.punct op.mark, mark⟩ tokens)
      have sign : mark.CoveredBy (⟨.punct op.mark, mark⟩ :: tokens) := .of_mem _ List.mem_cons_self
      have whole := sign.combine inside.span
      apply Expr.CoveredBy.of_parts rfl whole (.nameless whole rfl)
      rw [NodeTree.nodesOfAll, NodeTree.nodesOfAll, List.append_nil]
      exact inside
  | @call level opening close calleeTokens tokens callee arguments _ _ separated _ calleeCovered
      argumentsCovered =>
      have calleeInside := calleeCovered.mono (List.subset_append_of_subset_left
        [⟨.punct .rightParen, close⟩]
        (List.subset_append_left calleeTokens (⟨.punct .leftParen, opening⟩ :: tokens)))
      have closing : close.CoveredBy (calleeTokens ++ ⟨.punct .leftParen, opening⟩ :: tokens ++
          [⟨.punct .rightParen, close⟩]) :=
        .of_mem _ (List.mem_append_right _ List.mem_cons_self)
      have whole := calleeInside.span.combine closing
      apply Expr.CoveredBy.of_parts rfl whole (.nameless whole rfl)
      rw [NodeTree.nodesOfAll, List.forall_mem_append]
      refine ⟨calleeInside, ?_⟩
      intro node member
      rcases Expr.mem_nodes_trees member with ⟨value, valueMem, found⟩
      rcases List.mem_map.mp valueMem with ⟨argument, argumentMem, rfl⟩
      apply (argumentsCovered argument argumentMem node found).mono
      have inList := separated.subset (List.mem_map_of_mem argumentMem)
      exact List.subset_append_of_subset_left _ (List.subset_append_of_subset_right _
        (List.subset_cons_of_subset _ inList))
  | @grouping level opening close tokens inner _ innerCovered =>
      have inside := innerCovered.mono (List.subset_append_of_subset_left
        [⟨.punct .rightParen, close⟩] (List.subset_cons_self ⟨.punct .leftParen, opening⟩ tokens))
      have openingCovered : opening.CoveredBy (⟨.punct .leftParen, opening⟩ :: tokens ++
          [⟨.punct .rightParen, close⟩]) := .of_mem _ List.mem_cons_self
      have closing : close.CoveredBy (⟨.punct .leftParen, opening⟩ :: tokens ++
          [⟨.punct .rightParen, close⟩]) := .of_mem _ (List.mem_append_right _ List.mem_cons_self)
      have whole := openingCovered.combine closing
      apply Expr.CoveredBy.of_parts rfl whole (.nameless whole rfl)
      rw [NodeTree.nodesOfAll, NodeTree.nodesOfAll, List.append_nil]
      exact inside
  | @literal level value span =>
      have whole : span.CoveredBy [⟨value.lexeme, span⟩] := .of_mem _ List.mem_cons_self
      apply Expr.CoveredBy.of_parts rfl whole (.nameless whole rfl)
      exact List.forall_mem_nil _
  | @identifier level name =>
      have whole : name.span.CoveredBy [⟨.identifier name.key, name.span⟩] :=
        .of_mem _ List.mem_cons_self
      apply Expr.CoveredBy.of_parts rfl whole
      · refine ⟨whole, ?_⟩
        intro key key_eq
        cases key_eq
        exact ⟨_, List.mem_cons_self, rfl⟩
      · exact List.forall_mem_nil _

theorem Expr.Spelled.marked {level : Nat} {tokens : List Token} {value : Expr}
    (spelled : Expr.Spelled level tokens value) (separator : Token) :
    Marked (tokens ++ [separator]) [.ofValue value] :=
  .mark spelled.coveredBy.mark .nil

theorem WrittenType.Spelled.coveredBy {tokens : List Token} {type : WrittenType}
    (spelled : type.Spelled tokens) : type.span.CoveredBy tokens := by
  cases spelled with
  | @intro sign span word =>
      exact (Span.CoveredBy.of_mem _ List.mem_cons_self).combine
        (.of_mem _ (List.mem_cons_of_mem _ List.mem_cons_self))

/-- A name and the type behind it make up one mark. -/
theorem WrittenType.Spelled.marked {tokens : List Token} {type : WrittenType} (name : Name)
    (spelled : type.Spelled tokens) :
    (Mark.ofVariable name type).CoveredBy (⟨.identifier name.key, name.span⟩ :: tokens) := by
  constructor
  · intro span member
    rcases List.mem_cons.mp member with rfl | member
    · exact .of_mem ⟨.identifier name.key, name.span⟩ List.mem_cons_self
    · cases List.mem_singleton.mp member
      exact spelled.coveredBy.mono (List.subset_cons_self _ _)
  · intro key member
    cases List.mem_singleton.mp member
    exact ⟨_, List.mem_cons_self, rfl⟩

theorem LetDecl.Spelled.marked {tokens : List Token} {decl : LetDecl}
    (spelled : decl.Spelled tokens) : Marked tokens decl.marks := by
  cases spelled with
  | @intro keyword semicolon name typeTokens tokens type initializer typeSpelled valueSpelled =>
      have header := typeSpelled.marked name
      cases valueSpelled with
      | none =>
          refine .skip ?_
          rw [List.append_nil]
          exact Marked.mark header .nil
      | @some sign tokens value valueSpelled =>
          refine .skip ?_
          rw [List.append_assoc]
          exact Marked.mark header (valueSpelled.marked _)

theorem Expr.SpelledReturn.marked {tokens : List Token} {value : Option Expr}
    (spelled : Expr.SpelledReturn tokens value) (separator : Token) :
    Marked (tokens ++ [separator]) (value.toList.map Mark.ofValue) := by
  cases spelled with
  | none => exact .skip .nil
  | some spelled => exact spelled.marked separator

theorem Stmt.marksOfAll_eq_flatMap (statements : List Stmt) :
    Stmt.marksOfAll statements = statements.flatMap Stmt.marks := by
  induction statements with
  | nil => rfl
  | cons first rest ih => rw [Stmt.marksOfAll, List.flatMap_cons, ih]

/-- Marked pieces without other tokens between them are marked together. -/
theorem Spliced.marked {Item : Type} {marks : Item → List Mark} {tokens : List Token}
    {pieces : List (List Token × Item)} (spliced : Spliced False tokens (pieces.map Prod.fst))
    (each : ∀ piece ∈ pieces, Marked piece.1 (marks piece.2)) :
    Marked tokens ((pieces.map Prod.snd).flatMap marks) := by
  generalize pieces_eq : pieces.map Prod.fst = stretches at spliced
  induction spliced generalizing pieces with
  | nil =>
      rw [List.map_eq_nil_iff] at pieces_eq
      rw [pieces_eq]
      exact .nil
  | piece _ ih =>
      rcases pieces with _ | ⟨piece, pieces⟩
      · cases pieces_eq
      · rw [List.forall_mem_cons] at each
        cases pieces_eq
        exact each.1.append (ih each.2 rfl)
  | skip never _ _ => exact never.elim

theorem Stmt.Spelled.marked {tokens : List Token} {statement : Stmt}
    (spelled : Stmt.Spelled False tokens statement) : Marked tokens statement.marks := by
  induction spelled with
  | expression spelled => exact spelled.marked _
  | letDecl spelled => exact spelled.marked
  | returning spelled => exact .skip (spelled.marked _)
  | block spliced _ ih =>
      refine .skip ?_
      rw [Stmt.marks, Stmt.marksOfAll_eq_flatMap, ← List.append_nil (List.flatMap _ _)]
      exact (spliced.marked ih).append (.skip .nil)

theorem Parameter.Spelled.coveredBy {tokens : List Token} {parameter : Parameter}
    (spelled : parameter.Spelled tokens) : parameter.mark.CoveredBy tokens := by
  cases spelled with
  | intro type => exact type.marked _

theorem Separated.marked {tokens : List Token} {pieces : List (List Token × Parameter)}
    (separated : Separated tokens (pieces.map Prod.fst))
    (each : ∀ piece ∈ pieces, piece.2.Spelled piece.1) (separator : Token) :
    Marked (tokens ++ [separator]) ((pieces.map Prod.snd).map Parameter.mark) := by
  generalize pieces_eq : pieces.map Prod.fst = stretches at separated
  induction separated generalizing pieces with
  | none =>
      rw [List.map_eq_nil_iff] at pieces_eq
      rw [pieces_eq]
      exact .skip .nil
  | last =>
      rcases pieces with _ | ⟨piece, _ | ⟨other, pieces⟩⟩
      · cases pieces_eq
      · cases pieces_eq
        exact .mark (each piece List.mem_cons_self).coveredBy .nil
      · cases pieces_eq
  | more _ ih =>
      rcases pieces with _ | ⟨piece, pieces⟩
      · cases pieces_eq
      · rw [List.forall_mem_cons] at each
        rw [List.map_cons, List.cons.injEq] at pieces_eq
        rcases pieces_eq with ⟨rfl, others_eq⟩
        rw [List.append_assoc]
        exact .mark each.1.coveredBy (ih each.2 others_eq)

theorem Decl.Spelled.marked {tokens : List Token} {decl : Decl}
    (spelled : Decl.Spelled False tokens decl) : Marked tokens decl.marks := by
  cases spelled with
  | letDecl spelled => exact spelled.marked
  | @funDecl keyword leftParen rightParen opening close name parameterTokens typeTokens bodyTokens
      parameters type statements parametersSpelled typeSpelled bodySpelled =>
      rcases parametersSpelled with ⟨parameterPieces, rfl, separated, parameterEach⟩
      rcases bodySpelled with ⟨statementPieces, rfl, spliced, statementEach⟩
      have nameCovered : (Mark.ofName name).CoveredBy [⟨.identifier name.key, name.span⟩] := by
        constructor
        · intro span member
          cases List.mem_singleton.mp member
          exact .of_mem ⟨.identifier name.key, name.span⟩ List.mem_cons_self
        · intro key member
          cases List.mem_singleton.mp member
          exact ⟨_, List.mem_cons_self, rfl⟩
      have typeCovered : (Mark.ofType type).CoveredBy typeTokens := by
        constructor
        · intro span member
          cases List.mem_singleton.mp member
          exact typeSpelled.coveredBy
        · intro key member
          cases member
      have bodyMarked := (spliced.marked fun piece member => (statementEach piece member).marked).append
        (Marked.skipped [⟨.punct .rightBrace, close⟩])
      have parametersMarked := separated.marked parameterEach ⟨.punct .rightParen, rightParen⟩
      have typeMarked : Marked (typeTokens ++ ⟨.punct .leftBrace, opening⟩ :: _) _ :=
        .mark typeCovered bodyMarked
      have nameMarked : Marked ([⟨.identifier name.key, name.span⟩] ++
          ⟨.punct .leftParen, leftParen⟩ :: _) _ :=
        .mark nameCovered (parametersMarked.append typeMarked)
      refine .skip ?_
      simpa [Decl.marks, FunDecl.marks, Stmt.marksOfAll_eq_flatMap] using nameMarked

/-- The marks of a program that was parsed without errors. -/
theorem Parsed.marked (source : SourceId) (tokens : List Token)
    (noErrors : (Parsed.ofTokens source tokens).errors = []) :
    Marked tokens (Parsed.ofTokens source tokens).program.marks := by
  rcases Parsed.ofTokens_spelled source tokens with ⟨pieces, declarations_eq, spliced, each⟩
  rw [Program.marks, declarations_eq]
  have never : ∀ was : (Parsed.ofTokens source tokens).errors ≠ [], False := fun was => was noErrors
  apply (spliced.imp never).marked
  intro piece member
  exact ((each piece member).imp never).marked

end TypedLang
