import TypedLang.Program.Node
import TypedLang.Proofs.Parsing.Grammar
import TypedLang.Proofs.Token.Order

/-!
# Frames of nodes

The tokens of a construct are told by the grammar: a frame of its own words and marks with the
tokens of the children in between. A tree occupies some tokens if each of its nodes frames the
stretches of its children and has the span from the first to the last token of its own. As tokens
stand one behind the other, it follows that the spans of children lie inside the span of their
parent and apart from each other, in order.
-/

namespace TypedLang

/-- A span reaches from the start of the first of some tokens to the stop of the last one. -/
structure Span.Reaches (tokens : List Token) (span : Span) : Prop where
  start_eq : ∀ first ∈ tokens.head?, span.start = first.span.start
  stop_eq : ∀ last ∈ tokens.getLast?, span.stop = last.span.stop

namespace Span.Ascending

variable {tokens others : List Token} {first last token : Token}

theorem of_sublist (ascending : Ascending (tokens.map Token.span))
    (sublist : others.Sublist tokens) : Ascending (others.map Token.span) :=
  ascending.sublist (sublist.map Token.span)

theorem pairwise (ascending : Ascending (tokens.map Token.span)) :
    tokens.Pairwise fun token later => token.span.stop ≤ later.span.start :=
  List.pairwise_map.mp ascending.ascending

theorem start_head_le (ascending : Ascending (tokens.map Token.span))
    (isFirst : first ∈ tokens.head?) (member : token ∈ tokens) :
    first.span.start ≤ token.span.start := by
  rcases List.head?_eq_some_iff.mp isFirst with ⟨rest, rfl⟩
  rcases List.mem_cons.mp member with rfl | behind
  · exact Nat.le_refl _
  · have before := (List.pairwise_cons.mp ascending.pairwise).1 token behind
    exact Nat.le_trans first.span.start_le_stop before

theorem stop_le_last (ascending : Ascending (tokens.map Token.span))
    (isLast : last ∈ tokens.getLast?) (member : token ∈ tokens) :
    token.span.stop ≤ last.span.stop := by
  rcases List.getLast?_eq_some_iff.mp isLast with ⟨front, rfl⟩
  rcases List.mem_append.mp member with before | isLast
  · have apart := (List.pairwise_append.mp ascending.pairwise).2.2 token before last
      (List.mem_singleton_self last)
    exact Nat.le_trans apart last.span.start_le_stop
  · cases List.mem_singleton.mp isLast
    exact Nat.le_refl _

end Span.Ascending

namespace Span.Reaches

variable {tokens front back : List Token} {token : Token} {span left right : Span}

theorem singleton (token : Token) : token.span.Reaches [token] :=
  ⟨by simp, by simp⟩

theorem exists_ends (reaches : span.Reaches tokens) (tokens_ne : tokens ≠ []) :
    ∃ first ∈ tokens, ∃ last ∈ tokens,
      span.start = first.span.start ∧ span.stop = last.span.stop :=
  ⟨_, List.head_mem tokens_ne, _, List.getLast_mem tokens_ne,
    reaches.start_eq _ (List.head?_eq_some_head tokens_ne),
    reaches.stop_eq _ (List.getLast?_eq_some_getLast tokens_ne)⟩

/-- The span of two ends is the span of all tokens between them. -/
theorem combine (ascending : Ascending (tokens.map Token.span)) (isFront : front <+: tokens)
    (isBack : back <:+ tokens) (front_ne : front ≠ []) (back_ne : back ≠ [])
    (leftReaches : left.Reaches front) (rightReaches : right.Reaches back) :
    (left.combine right).Reaches tokens := by
  constructor
  · intro first isFirst
    have first_front : first ∈ front.head? := by
      rcases isFront with ⟨behind, rfl⟩
      rwa [List.head?_append, List.head?_eq_some_head front_ne, Option.some_or,
        ← List.head?_eq_some_head front_ne] at isFirst
    have left_start := leftReaches.start_eq first first_front
    rcases rightReaches.exists_ends back_ne with ⟨inner, innerMem, _, _, right_start, _⟩
    have le := ascending.start_head_le isFirst (isBack.subset innerMem)
    simp only [Span.combine]
    omega
  · intro last isLast
    have last_back : last ∈ back.getLast? := by
      rcases isBack with ⟨before, rfl⟩
      rwa [List.getLast?_append, List.getLast?_eq_some_getLast back_ne, Option.some_or,
        ← List.getLast?_eq_some_getLast back_ne] at isLast
    have right_stop := rightReaches.stop_eq last last_back
    rcases leftReaches.exists_ends front_ne with ⟨_, _, inner, innerMem, _, left_stop⟩
    have le := ascending.stop_le_last isLast (isFront.subset innerMem)
    simp only [Span.combine]
    omega

theorem start_le (reaches : span.Reaches tokens) (ascending : Ascending (tokens.map Token.span))
    (member : token ∈ tokens) : span.start ≤ token.span.start := by
  have isFirst := List.head?_eq_some_head (List.ne_nil_of_mem member)
  rw [reaches.start_eq _ isFirst]
  exact ascending.start_head_le isFirst member

theorem le_stop (reaches : span.Reaches tokens) (ascending : Ascending (tokens.map Token.span))
    (member : token ∈ tokens) : token.span.stop ≤ span.stop := by
  have isLast := List.getLast?_eq_some_getLast (List.ne_nil_of_mem member)
  rw [reaches.stop_eq _ isLast]
  exact ascending.stop_le_last isLast member

theorem enclosed (first last : Token) (inner : List Token)
    (ascending : Ascending ((first :: inner ++ [last]).map Token.span)) :
    (first.span.combine last.span).Reaches (first :: inner ++ [last]) :=
  combine ascending (List.prefix_append [first] _) (List.suffix_append _ _)
    (List.cons_ne_nil _ _) (List.cons_ne_nil _ _) (singleton first) (singleton last)

end Span.Reaches

/--
The construct of a node around the constructs of its children: the tokens of the node are its own
words and marks and, in between, the stretches of the children in order.
-/
inductive Node.Frame (recovered : Prop) : Node → List (List Token) → List Token → Prop where
  | type {span sign word : Span} {written : TypeName} :
      Frame recovered ⟨.type, span, .type written.type⟩ []
        [⟨.punct .atSign, sign⟩, ⟨.typeName written, word⟩]
  | literal {span word : Span} {value : Literal} :
      Frame recovered ⟨.literal, span, .none⟩ [] [⟨value.lexeme, word⟩]
  | identifier {span word : Span} {key : Key} :
      Frame recovered ⟨.identifier, span, .name key⟩ [] [⟨.identifier key, word⟩]
  | grouping {span opening close : Span} {inner : List Token} :
      Frame recovered ⟨.grouping, span, .none⟩ [inner]
        (⟨.punct .leftParen, opening⟩ :: inner ++ [⟨.punct .rightParen, close⟩])
  | unary {span mark : Span} {op : UnaryOp} {operand : List Token} :
      Frame recovered ⟨.unary, span, .unaryOp op⟩ [operand] (⟨.punct op.mark, mark⟩ :: operand)
  | binary {span mark : Span} {op : BinaryOp} {left right : List Token} :
      Frame recovered ⟨op.nodeKind, span, .binaryOp op⟩ [left, right]
        (left ++ ⟨.punct op.mark, mark⟩ :: right)
  | call {span opening close : Span} {callee list : List Token} {arguments : List (List Token)} :
      Separated list arguments →
      Frame recovered ⟨.call, span, .none⟩ (callee :: arguments)
        (callee ++ ⟨.punct .leftParen, opening⟩ :: list ++ [⟨.punct .rightParen, close⟩])
  | expression {span : Span} {inner : List Token} :
      Frame recovered ⟨.expression, span, .none⟩ [inner] inner
  | statement {span : Span} {inner : List Token} :
      Frame recovered ⟨.statement, span, .none⟩ [inner] inner
  | expressionStatement {span semicolon : Span} {value : List Token} :
      Frame recovered ⟨.expressionStatement, span, .none⟩ [value]
        (value ++ [⟨.punct .semicolon, semicolon⟩])
  | returnNothing {span keyword semicolon : Span} :
      Frame recovered ⟨.returning, span, .none⟩ []
        [⟨.keyword .returnWord, keyword⟩, ⟨.punct .semicolon, semicolon⟩]
  | returnValue {span keyword semicolon : Span} {value : List Token} :
      Frame recovered ⟨.returning, span, .none⟩ [value]
        (⟨.keyword .returnWord, keyword⟩ :: value ++ [⟨.punct .semicolon, semicolon⟩])
  | block {span opening close : Span} {body : List Token} {statements : List (List Token)} :
      Spliced recovered body statements →
      Frame recovered ⟨.block, span, .none⟩ statements
        (⟨.punct .leftBrace, opening⟩ :: body ++ [⟨.punct .rightBrace, close⟩])
  | letBare {span keyword word semicolon : Span} {key : Key} {type : List Token} :
      Frame recovered ⟨.letDecl, span, .name key⟩ [type]
        (⟨.keyword .letWord, keyword⟩ :: ⟨.identifier key, word⟩ ::
          (type ++ [⟨.punct .semicolon, semicolon⟩]))
  | letInitialized {span keyword word sign semicolon : Span} {key : Key}
      {type value : List Token} :
      Frame recovered ⟨.letDecl, span, .name key⟩ [type, value]
        (⟨.keyword .letWord, keyword⟩ :: ⟨.identifier key, word⟩ ::
          (type ++ ⟨.punct .equal, sign⟩ :: value ++ [⟨.punct .semicolon, semicolon⟩]))
  | parameter {span word : Span} {key : Key} {type : List Token} :
      Frame recovered ⟨.parameter, span, .name key⟩ [type] (⟨.identifier key, word⟩ :: type)
  | funDecl {span keyword word leftParen rightParen : Span} {key : Key}
      {list type body : List Token} {parameters : List (List Token)} :
      Separated list parameters →
      Frame recovered ⟨.funDecl, span, .name key⟩ (parameters ++ [type, body])
        (⟨.keyword .funWord, keyword⟩ :: ⟨.identifier key, word⟩ ::
          ⟨.punct .leftParen, leftParen⟩ :: (list ++
          ⟨.punct .rightParen, rightParen⟩ :: (type ++ body)))
  | program {span : Span} {tokens : List Token} {declarations : List (List Token)} :
      Spliced recovered tokens declarations →
      Frame recovered ⟨.program, span, .none⟩ declarations tokens

theorem Separated.flatten_sublist {tokens : List Token} {pieces : List (List Token)}
    (separated : Separated tokens pieces) : pieces.flatten.Sublist tokens := by
  induction separated with
  | none => exact .slnil
  | last => simp
  | more _ ih => exact (List.Sublist.refl _).append (ih.cons _)

theorem Spliced.flatten_sublist {recovered : Prop} {tokens : List Token}
    {pieces : List (List Token)} (spliced : Spliced recovered tokens pieces) :
    pieces.flatten.Sublist tokens := by
  induction spliced with
  | nil => exact .slnil
  | piece _ ih => exact (List.Sublist.refl _).append ih
  | skip _ _ ih => exact List.sublist_append_of_sublist_right ih

namespace Node.Frame

variable {recovered : Prop} {node : Node} {parts : List (List Token)} {part tokens : List Token}

/-- The stretches of the children are among the tokens, in order and without overlap. -/
theorem flatten_sublist (frame : node.Frame recovered parts tokens) :
    parts.flatten.Sublist tokens := by
  cases frame with
  | type | literal | identifier | returnNothing => exact List.nil_sublist _
  | expression | statement | expressionStatement | unary | binary | grouping | returnValue
  | parameter => simp
  | call separated =>
      rw [List.append_assoc, List.flatten_cons]
      exact (List.Sublist.refl _).append
        ((separated.flatten_sublist.trans (List.sublist_append_left _ _)).cons _)
  | block spliced => exact (spliced.flatten_sublist.trans (List.sublist_append_left _ _)).cons _
  | letBare =>
      simp only [List.flatten_cons, List.flatten_nil, List.append_nil]
      exact .cons _ (.cons _ (List.sublist_append_left _ _))
  | letInitialized =>
      simp only [List.flatten_cons, List.flatten_nil, List.append_nil, List.append_assoc]
      exact .cons _ (.cons _ ((List.Sublist.refl _).append
        ((List.sublist_append_left _ _).cons _)))
  | funDecl separated =>
      simp only [List.flatten_append, List.flatten_cons, List.flatten_nil, List.append_nil]
      exact .cons _ (.cons _ (.cons _ (separated.flatten_sublist.append
        ((List.Sublist.refl _).cons _))))
  | program spliced => exact spliced.flatten_sublist

theorem ascending_of_mem (frame : node.Frame recovered parts tokens) (member : part ∈ parts)
    (ascending : Span.Ascending (tokens.map Token.span)) :
    Span.Ascending (part.map Token.span) :=
  ascending.of_sublist ((List.sublist_flatten_of_mem member).trans frame.flatten_sublist)

end Node.Frame

namespace NodeTree

/--
A tree occupies some tokens: they are the construct of its root, whose span reaches from the first
to the last of them, and each child occupies a stretch of its own.
-/
inductive Occupies (recovered : Prop) : NodeTree → List Token → Prop where
  | intro {node : Node} {tokens : List Token} (pieces : List (List Token × NodeTree)) :
      node.Frame recovered (pieces.map Prod.fst) tokens → node.span.Reaches tokens →
      (∀ piece ∈ pieces, piece.1 ≠ []) → (∀ piece ∈ pieces, Occupies recovered piece.2 piece.1) →
      Occupies recovered (.mk node (pieces.map Prod.snd)) tokens

/--
The spans in a tree nest: those of the children of a node lie inside the span of the node, and each
one ends before the next one starts.
-/
inductive Nested : NodeTree → Prop where
  | intro {node : Node} {children : List NodeTree} :
      (∀ child ∈ children,
        node.span.start ≤ child.root.span.start ∧ child.root.span.stop ≤ node.span.stop) →
      (children.Pairwise fun child later => child.root.span.stop ≤ later.root.span.start) →
      (∀ child ∈ children, Nested child) → Nested (.mk node children)

namespace Occupies

variable {recovered : Prop} {tree : NodeTree} {tokens : List Token}

theorem reaches (occupies : tree.Occupies recovered tokens) : tree.root.span.Reaches tokens := by
  cases occupies with
  | intro _ _ reaches => exact reaches

/-- A tree that occupies tokens which stand one behind the other has spans that nest. -/
theorem nested (occupies : tree.Occupies recovered tokens)
    (ascending : Span.Ascending (tokens.map Token.span)) : tree.Nested := by
  induction occupies with
  | @intro node tokens pieces frame reaches parts_ne children ih =>
      have apart : pieces.Pairwise fun piece later =>
          ∀ token ∈ piece.1, ∀ other ∈ later.1, token.span.stop ≤ other.span.start :=
        List.pairwise_map.mp
          (List.pairwise_flatten.mp (ascending.pairwise.sublist frame.flatten_sublist)).2
      have among : ∀ piece ∈ pieces, piece.1 ⊆ tokens := fun piece member =>
        ((List.sublist_flatten_of_mem (List.mem_map_of_mem member)).trans
          frame.flatten_sublist).subset
      have ends : ∀ piece ∈ pieces, ∃ first ∈ piece.1, ∃ last ∈ piece.1,
          piece.2.root.span.start = first.span.start ∧ piece.2.root.span.stop = last.span.stop :=
        fun piece member => (children piece member).reaches.exists_ends (parts_ne piece member)
      refine .intro ?_ ?_ ?_
      · intro child childMem
        rcases List.mem_map.mp childMem with ⟨piece, member, rfl⟩
        rcases ends piece member with ⟨first, firstMem, last, lastMem, start_eq, stop_eq⟩
        rw [start_eq, stop_eq]
        exact ⟨reaches.start_le ascending (among piece member firstMem),
          reaches.le_stop ascending (among piece member lastMem)⟩
      · refine List.pairwise_map.mpr (apart.imp_of_mem ?_)
        intro piece later member laterMem before
        rcases ends piece member with ⟨_, _, last, lastMem, _, stop_eq⟩
        rcases ends later laterMem with ⟨first, firstMem, _, _, start_eq, _⟩
        rw [start_eq, stop_eq]
        exact before last lastMem first firstMem
      · intro child childMem
        rcases List.mem_map.mp childMem with ⟨piece, member, rfl⟩
        exact ih piece member (frame.ascending_of_mem (List.mem_map_of_mem member) ascending)

end Occupies

/-- A tree fits some tokens, at least one: it occupies them if they stand one behind the other. -/
structure Fits (recovered : Prop) (tree : NodeTree) (tokens : List Token) : Prop where
  nonempty : tokens ≠ []
  occupies : Span.Ascending (tokens.map Token.span) → tree.Occupies recovered tokens

namespace Fits

variable {recovered : Prop} {tree : NodeTree} {node : Node} {part tokens : List Token}

theorem leaf (frame : node.Frame recovered [] tokens) (nonempty : tokens ≠ [])
    (reaches : Span.Ascending (tokens.map Token.span) → node.span.Reaches tokens) :
    Fits recovered (.mk node []) tokens :=
  ⟨nonempty, fun ascending =>
    .intro [] frame (reaches ascending) (List.forall_mem_nil _) (List.forall_mem_nil _)⟩

/-- A node fits if its children fit their stretches and its span comes from theirs. -/
theorem of_pieces (pieces : List (List Token × NodeTree))
    (frame : node.Frame recovered (pieces.map Prod.fst) tokens) (nonempty : tokens ≠ [])
    (children : ∀ piece ∈ pieces, piece.2.Fits recovered piece.1)
    (reaches : Span.Ascending (tokens.map Token.span) →
      (∀ piece ∈ pieces, piece.2.root.span.Reaches piece.1) → node.span.Reaches tokens) :
    Fits recovered (.mk node (pieces.map Prod.snd)) tokens where
  nonempty := nonempty
  occupies ascending := by
    have occupied : ∀ piece ∈ pieces, piece.2.Occupies recovered piece.1 := fun piece member =>
      (children piece member).occupies
        (frame.ascending_of_mem (List.mem_map_of_mem member) ascending)
    exact .intro pieces frame
      (reaches ascending fun piece member => (occupied piece member).reaches)
      (fun piece member => (children piece member).nonempty) occupied

/-- A node with one child. -/
theorem single (frame : node.Frame recovered [part] tokens) (nonempty : tokens ≠ [])
    (child : tree.Fits recovered part)
    (reaches : Span.Ascending (tokens.map Token.span) → tree.root.span.Reaches part →
      node.span.Reaches tokens) : Fits recovered (.mk node [tree]) tokens :=
  of_pieces [(part, tree)] frame nonempty (List.forall_mem_singleton.mpr child)
    fun ascending children => reaches ascending (children _ (List.mem_singleton_self _))

/-- A node for the role of its child. -/
theorem role (frame : node.Frame recovered [tokens] tokens) (span_eq : node.span = tree.root.span)
    (child : tree.Fits recovered tokens) : Fits recovered (.mk node [tree]) tokens :=
  single frame child.nonempty child fun _ reaches => span_eq ▸ reaches

end Fits

section Items

variable {Item : Type} (tree : Item → NodeTree) (pieces : List (List Token × Item))

/-- The trees of some items over the same stretches. -/
def ofItems : List (List Token × NodeTree) :=
  pieces.map fun piece => (piece.1, tree piece.2)

@[simp]
theorem map_fst_ofItems : (ofItems tree pieces).map Prod.fst = pieces.map Prod.fst := by
  simp [ofItems]

@[simp]
theorem map_snd_ofItems : (ofItems tree pieces).map Prod.snd = (pieces.map Prod.snd).map tree := by
  simp [ofItems]

theorem forall_mem_ofItems {tree : Item → NodeTree} {pieces : List (List Token × Item)}
    {property : List Token × NodeTree → Prop} : (∀ piece ∈ ofItems tree pieces, property piece) ↔
      ∀ piece ∈ pieces, property (piece.1, tree piece.2) :=
  List.forall_mem_map

end Items

end NodeTree

end TypedLang
