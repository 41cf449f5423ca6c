import Mathlib.Data.List.Pairwise
import TypedLang.Proofs.Parsing.Marks
import TypedLang.Proofs.Scope.Coverage

/-!
# Places in a program

The places to which errors refer are all in marks: names and types of declarations in marks of
headers, values and their parts in marks of values. Where the marks stand apart, so do the two places
of an error.
-/

namespace TypedLang

theorem Span.intersects_comm (left right : Span) : left.intersects right = right.intersects left := by
  simp only [intersects]
  rw [Bool.and_comm]

theorem Span.intersects_of_lt {left right : Span} (before : left.stop < right.start) :
    left.intersects right = false := by
  simp only [intersects, Bool.and_eq_false_iff, decide_eq_false_iff_not]
  omega

mutual

theorem Expr.tree_withoutSymbols : (value : Expr) → value.withoutSymbols.tree = value.tree
  | .binary op left right span type => by
      simp only [Expr.withoutSymbols, Expr.tree, left.tree_withoutSymbols, right.tree_withoutSymbols]
  | .unary op operand span type => by
      simp only [Expr.withoutSymbols, Expr.tree, operand.tree_withoutSymbols]
  | .call callee arguments span type => by
      simp only [Expr.withoutSymbols, Expr.tree, callee.tree_withoutSymbols,
        Expr.trees_withoutSymbols arguments]
  | .grouping inner span type => by
      simp only [Expr.withoutSymbols, Expr.tree, inner.tree_withoutSymbols]
  | .literal value span type => rfl
  | .identifier name symbol type => rfl

theorem Expr.trees_withoutSymbols : (values : List Expr) →
    Expr.trees (Expr.withoutSymbolsOfAll values) = Expr.trees values
  | [] => rfl
  | first :: rest => by
      simp only [Expr.withoutSymbolsOfAll, Expr.trees, first.tree_withoutSymbols,
        Expr.trees_withoutSymbols rest]

end

theorem Mark.ofValue_withoutSymbols (value : Expr) :
    Mark.ofValue value.withoutSymbols = Mark.ofValue value := by
  simp only [Mark.ofValue, value.tree_withoutSymbols]

theorem Mark.map_ofValue_withoutSymbols (value : Option Expr) :
    (value.map Expr.withoutSymbols).toList.map Mark.ofValue = value.toList.map Mark.ofValue := by
  cases value with
  | none => rfl
  | some value => exact congrArg (fun mark => [mark]) (Mark.ofValue_withoutSymbols value)

theorem LetDecl.marks_withoutSymbols (decl : LetDecl) : decl.withoutSymbols.marks = decl.marks := by
  simp only [LetDecl.marks, LetDecl.withoutSymbols, Mark.map_ofValue_withoutSymbols]

mutual

theorem Stmt.marks_withoutSymbols : (statement : Stmt) →
    statement.withoutSymbols.marks = statement.marks
  | .expression value span => by
      simp only [Stmt.withoutSymbols, Stmt.marks, Mark.ofValue_withoutSymbols]
  | .letDecl decl => by
      simp only [Stmt.withoutSymbols, Stmt.marks, decl.marks_withoutSymbols]
  | .block statements span => by
      simp only [Stmt.withoutSymbols, Stmt.marks, Stmt.marksOfAll_withoutSymbols statements]
  | .returning value span => by
      simp only [Stmt.withoutSymbols, Stmt.marks, Mark.map_ofValue_withoutSymbols]

theorem Stmt.marksOfAll_withoutSymbols : (statements : List Stmt) →
    Stmt.marksOfAll (Stmt.withoutSymbolsOfAll statements) = Stmt.marksOfAll statements
  | [] => rfl
  | first :: rest => by
      simp only [Stmt.withoutSymbolsOfAll, Stmt.marksOfAll, first.marks_withoutSymbols,
        Stmt.marksOfAll_withoutSymbols rest]

end

theorem Decl.marks_withoutSymbols (decl : Decl) : decl.withoutSymbols.marks = decl.marks := by
  cases decl with
  | funDecl decl =>
      simp only [Decl.withoutSymbols, Decl.marks, FunDecl.marks, FunDecl.withoutSymbols,
        List.map_map, Stmt.marksOfAll_withoutSymbols]
      rfl
  | letDecl decl => exact decl.marks_withoutSymbols

/-- Marks do not depend on symbols. -/
theorem Program.marks_withoutSymbols (program : Program) :
    program.withoutSymbols.marks = program.marks := by
  simp only [Program.marks, Program.withoutSymbols, List.flatMap_map, Decl.marks_withoutSymbols]

namespace Mark

/-- No place in one mark touches a place in the other. -/
def Apart (mark other : Mark) : Prop :=
  ∀ span ∈ mark.spans, ∀ otherSpan ∈ other.spans, span.intersects otherSpan = false

theorem Before.apart {mark later : Mark} (before : mark.Before later) : mark.Apart later :=
  fun span member other otherMem => Span.intersects_of_lt (before span member other otherMem)

theorem Apart.symm {mark other : Mark} (apart : mark.Apart other) : other.Apart mark := by
  intro span member otherSpan otherMem
  rw [Span.intersects_comm]
  exact apart otherSpan otherMem span member

instance : Std.Symm Apart :=
  ⟨fun _ _ => Apart.symm⟩

/-- A place in the header of a declaration. -/
def InHeader (marks : List Mark) (span : Span) : Prop :=
  ∃ mark ∈ marks, mark.isValue = false ∧ span ∈ mark.spans

/-- A place in a value. -/
def InValue (marks : List Mark) (span : Span) : Prop :=
  ∃ mark ∈ marks, mark.isValue = true ∧ span ∈ mark.spans

/-- A place in one of some marks. -/
def Inside (marks : List Mark) (span : Span) : Prop :=
  ∃ mark ∈ marks, span ∈ mark.spans

theorem InHeader.inside {marks : List Mark} {span : Span} (inHeader : InHeader marks span) :
    Inside marks span := by
  rcases inHeader with ⟨mark, member, _, found⟩
  exact ⟨mark, member, found⟩

theorem InValue.inside {marks : List Mark} {span : Span} (inValue : InValue marks span) :
    Inside marks span := by
  rcases inValue with ⟨mark, member, _, found⟩
  exact ⟨mark, member, found⟩

theorem InHeader.mono {marks others : List Mark} {span : Span} (inside : InHeader marks span)
    (subset : marks ⊆ others) : InHeader others span := by
  rcases inside with ⟨mark, member, found⟩
  exact ⟨mark, subset member, found⟩

/-- A header never touches a value. -/
theorem InHeader.apart {marks : List Mark} {span other : Span}
    (ordered : marks.Pairwise Mark.Before) (inHeader : InHeader marks span)
    (inValue : InValue marks other) : span.intersects other = false := by
  rcases inHeader with ⟨mark, markMem, isHeader, spanMem⟩
  rcases inValue with ⟨otherMark, otherMarkMem, isValue, otherMem⟩
  have different : mark ≠ otherMark := by
    rintro rfl
    rw [isHeader] at isValue
    cases isValue
  have apart := ordered.imp fun before => before.apart
  exact apart.forall markMem otherMarkMem different span spanMem other otherMem

end Mark

/-- The type that a leaf statement asks of its value, if it asks for one. -/
def LeafStatement.written? : LeafStatement → Option WrittenType
  | expression _ => none
  | letDecl decl => some decl.type
  | returning _ returnType => some returnType

/-- The functions that a context shows are among those given. -/
def Context.Calls (context : Context) (functions : List Declaration) : Prop :=
  ∀ declaration ∈ context.declarations, declaration.signature ≠ none → declaration ∈ functions

/-- All that a report about a leaf may point to is in marks. -/
structure Leaf.IsMarked (marks : List Mark) (functions : List Declaration) (leaf : Leaf) :
    Prop where
  value : ∀ value, leaf.statement.value? = some value → Mark.ofValue value ∈ marks
  written : ∀ type, leaf.statement.written? = some type → Mark.InHeader marks type.span
  calls : leaf.context.Calls functions

theorem Context.Calls.enter {context : Context} {functions : List Declaration}
    (calls : context.Calls functions) (level : Level)
    (unsigned : ∀ declaration ∈ level.declarations, declaration.signature = none) :
    (context.enter level).Calls functions := by
  intro declaration member isSigned
  simp only [Context.enter, Context.declarations, List.flatMap_cons, List.mem_append] at member
  rcases member with ((member | member) | member) | member
  · exact absurd (unsigned declaration member) isSigned
  · exact calls declaration (by simp [Context.declarations, member]) isSigned
  · exact calls declaration (by simp [Context.declarations, member]) isSigned
  · exact calls declaration (by simp [Context.declarations, member]) isSigned

section Leaves

variable {marks : List Mark} {functions : List Declaration}

theorem Mark.mem_of_option {value : Option Expr} {own : Expr} (value_eq : value = some own)
    (subset : value.toList.map Mark.ofValue ⊆ marks) : Mark.ofValue own ∈ marks := by
  subst value_eq
  exact subset List.mem_cons_self

theorem LetDecl.leaf_isMarked {context : Context} (decl : LetDecl) (calls : context.Calls functions)
    (subset : decl.marks ⊆ marks) : Leaf.IsMarked marks functions ⟨context, .letDecl decl⟩ where
  value := fun _ value_eq =>
    Mark.mem_of_option value_eq fun _ member => subset (List.mem_cons_of_mem _ member)
  written := by
    intro type type_eq
    cases type_eq
    exact ⟨_, subset List.mem_cons_self, rfl, List.mem_cons_of_mem _ List.mem_cons_self⟩
  calls := calls

mutual

theorem Stmt.leaves_isMarked {returnType : WrittenType} (written : Mark.InHeader marks returnType.span) :
    (context : Context) → (statement : Stmt) → context.Calls functions → statement.marks ⊆ marks →
      ∀ leaf ∈ statement.leaves context returnType, leaf.IsMarked marks functions
  | context, .expression value span, calls, subset => by
      intro leaf member
      cases List.mem_singleton.mp member
      refine ⟨?_, nofun, calls⟩
      intro own own_eq
      cases own_eq
      exact subset List.mem_cons_self
  | context, .letDecl decl, calls, subset => by
      intro leaf member
      cases List.mem_singleton.mp member
      exact decl.leaf_isMarked calls subset
  | context, .block statements span, calls, subset =>
      Stmt.leavesOfAll_isMarked written context [] statements calls (by simp) subset
  | context, .returning value span, calls, subset => by
      intro leaf member
      cases List.mem_singleton.mp member
      refine ⟨fun _ value_eq => Mark.mem_of_option value_eq subset, ?_, calls⟩
      intro type type_eq
      cases type_eq
      exact written

theorem Stmt.leavesOfAll_isMarked {returnType : WrittenType}
    (written : Mark.InHeader marks returnType.span) : (outer : Context) →
    (locals : List Declaration) → (statements : List Stmt) → outer.Calls functions →
    (∀ declaration ∈ locals, declaration.signature = none) → Stmt.marksOfAll statements ⊆ marks →
      ∀ leaf ∈ Stmt.leavesOfAll outer returnType locals statements, leaf.IsMarked marks functions
  | _, _, [], _, _, _ => by simp [Stmt.leavesOfAll]
  | outer, locals, first :: rest, calls, unsigned, subset => by
      rw [Stmt.marksOfAll, List.append_subset] at subset
      intro leaf member
      rcases List.mem_append.mp member with member | member
      · exact first.leaves_isMarked written _ (calls.enter (.block locals) unsigned) subset.1 leaf
          member
      · refine Stmt.leavesOfAll_isMarked written outer _ rest calls ?_ subset.2 leaf member
        intro declaration declared
        rcases List.mem_append.mp declared with declared | declared
        · exact unsigned declaration declared
        · cases first with
          | letDecl decl =>
              cases List.mem_singleton.mp declared
              rfl
          | _ => cases declared

end

theorem FunDecl.leaves_isMarked {context : Context} (decl : FunDecl)
    (calls : context.Calls functions) (subset : decl.marks ⊆ marks) :
    ∀ leaf ∈ decl.leaves context, leaf.IsMarked marks functions := by
  have returnMark : Mark.ofType decl.returnType ∈ decl.marks :=
    List.mem_cons_of_mem _ (List.mem_append_right _ List.mem_cons_self)
  refine Stmt.leavesOfAll_isMarked ⟨_, subset returnMark, rfl, List.mem_cons_self⟩ _ [] _
    (calls.enter (.parameters _) ?_) (by simp) ?_
  · intro declaration member
    rcases List.mem_map.mp member with ⟨parameter, _, rfl⟩
    rfl
  · intro mark member
    exact subset (List.mem_cons_of_mem _ (List.mem_append_right _ (List.mem_cons_of_mem _ member)))

theorem Decl.leavesOfAll_isMarked : (globals : List Declaration) →
    (declarations : List Decl) → (∀ declaration ∈ globals, declaration.signature = none) →
    declarations.flatMap Decl.marks ⊆ marks →
      ∀ leaf ∈ Decl.leavesOfAll functions globals declarations, leaf.IsMarked marks functions
  | _, [], _, _ => by simp [Decl.leavesOfAll]
  | globals, first :: rest, unsigned, subset => by
      have calls : Context.Calls { functions := functions, globals := globals } functions := by
        intro declaration member isSigned
        simp only [Context.declarations, List.flatMap_nil, List.nil_append, List.mem_append]
          at member
        rcases member with member | member
        · exact member
        · exact absurd (unsigned declaration member) isSigned
      rw [List.flatMap_cons, List.append_subset] at subset
      cases first with
      | funDecl decl =>
          intro leaf member
          rcases List.mem_append.mp member with member | member
          · exact decl.leaves_isMarked calls subset.1 leaf member
          · exact Decl.leavesOfAll_isMarked globals rest unsigned subset.2 leaf member
      | letDecl decl =>
          intro leaf member
          rcases List.mem_cons.mp member with rfl | member
          · exact decl.leaf_isMarked calls subset.1
          · refine Decl.leavesOfAll_isMarked _ rest ?_ subset.2 leaf member
            intro declaration declared
            rcases List.mem_append.mp declared with declared | declared
            · exact unsigned declaration declared
            · cases List.mem_singleton.mp declared
              rfl

end Leaves

/-- All leaves of a program are marked. -/
theorem Program.leaves_isMarked (program : Program) :
    ∀ leaf ∈ program.leaves,
      leaf.IsMarked program.marks (program.functions.map FunDecl.declaration) :=
  Decl.leavesOfAll_isMarked [] program.declarations (by simp) (List.Subset.refl _)

/-- A place in a signature to which a report about a call may point. -/
def Signature.Mentions (signature : Signature) (span : Span) : Prop :=
  span = signature.name.span ∨ ∃ parameter ∈ signature.parameters, span = parameter.span

theorem FunDecl.inHeader_of_mentions {decl : FunDecl} {span : Span}
    (mentions : decl.signature.Mentions span) : Mark.InHeader decl.marks span := by
  rcases mentions with rfl | ⟨type, member, rfl⟩
  · exact ⟨.ofName decl.name, List.mem_cons_self, rfl, List.mem_cons_self⟩
  · rcases List.mem_map.mp member with ⟨parameter, parameterMem, rfl⟩
    refine ⟨parameter.mark, ?_, rfl, List.mem_cons_of_mem _ List.mem_cons_self⟩
    exact List.mem_cons_of_mem _ (List.mem_append_left _ (List.mem_map_of_mem parameterMem))

theorem Program.marks_sublist_of_mem_functions {program : Program} {decl : FunDecl}
    (member : decl ∈ program.functions) : decl.marks.Sublist program.marks := by
  rcases List.mem_filterMap.mp member with ⟨declared, declaredMem, function_eq⟩
  cases declared with
  | funDecl own =>
      cases function_eq
      exact List.sublist_flatten_of_mem (List.mem_map_of_mem declaredMem)
  | letDecl own => cases function_eq

end TypedLang
