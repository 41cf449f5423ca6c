import TypedLang.Proofs.Exchange.Trees
import TypedLang.Proofs.Scope.Numbering

/-!
# Scope rules in another order

Whether a name is used rightly depends on the kind of what it means and on nothing else. All
functions are of one kind, and every body sees all of them, so that no identifier is judged
differently when two functions change places. Of two functions of one name it is always the later
one that is refused; which one that is depends on the order, that there is one does not.
-/

namespace TypedLang

/-- A cause without the place of an earlier declaration. -/
def ResolutionErrorCause.withoutPlace : ResolutionErrorCause → ResolutionErrorCause
  | symbolNotFound name => symbolNotFound name
  | nameAlreadyUsed name _ => nameAlreadyUsed name none
  | kindMismatch name expected found => kindMismatch name expected found

/-- What a resolution error says besides places: the kind, the name, what is needed and found. -/
def ResolutionError.gist (error : ResolutionError) : ResolutionErrorCause :=
  error.cause.withoutPlace

/-- Names mean the same in two contexts, as far as a view on each of them tells. -/
def Context.Agree {View : Type} (view otherView : Declaration → View) (context other : Context) :
    Prop :=
  ∀ key, (other.declaration? key).map otherView = (context.declaration? key).map view

theorem Context.declaration?_enter (context : Context) (level : Level) (key : Key) :
    (context.enter level).declaration? key =
      (level.declaration? key).or (context.declaration? key) := by
  simp only [declaration?, enter, List.findSome?_cons]
  cases level.declaration? key <;> rfl

namespace Context.Agree

variable {View : Type} {view otherView : Declaration → View} {context other : Context}

theorem enter (agree : Context.Agree view otherView context other) {level otherLevel : Level}
    (same : ∀ key,
      (otherLevel.declaration? key).map otherView = (level.declaration? key).map view) :
    Context.Agree view otherView (context.enter level) (other.enter otherLevel) := by
  intro key
  rw [declaration?_enter, declaration?_enter, Option.map_or, Option.map_or, same key, agree key]

theorem enter_same (agree : Context.Agree view view context other) (level : Level) :
    Context.Agree view view (context.enter level) (other.enter level) :=
  agree.enter fun _ => rfl

theorem of_global {functions others globals otherGlobals : List Declaration}
    (functionsSame : ∀ key, (Declaration.first? others key).map otherView =
      (Declaration.first? functions key).map view)
    (globalsSame : ∀ key, (Declaration.first? otherGlobals key).map otherView =
      (Declaration.first? globals key).map view) :
    Context.Agree view otherView { functions := functions, globals := globals }
      { functions := others, globals := otherGlobals } := by
  intro key
  simp only [declaration?, global?, List.findSome?_nil, Option.none_or, Option.map_or,
    functionsSame key, globalsSame key]

theorem of_functions {functions others : List Declaration}
    (same : ∀ key, (Declaration.first? others key).map view =
      (Declaration.first? functions key).map view) (globals : List Declaration) :
    Context.Agree view view { functions := functions, globals := globals }
      { functions := others, globals := globals } :=
  of_global same fun _ => rfl

end Context.Agree

section Agreeing

variable (source : SourceId) {context other : Context}

theorem Occurrence.errors_of_agree
    (agree : Context.Agree Declaration.kind Declaration.kind context other) (name : Name)
    (symbol : Option SymbolId) (use : Use) :
    Occurrence.errors source ⟨name, symbol, use, other⟩ =
      Occurrence.errors source ⟨name, symbol, use, context⟩ := by
  have same := agree name.key
  simp only [Occurrence.errors, Occurrence.declaration?]
  generalize context.declaration? name.key = means at same ⊢
  generalize other.declaration? name.key = otherMeans at same ⊢
  cases means with
  | none => rw [Option.map_eq_none_iff.mp same]
  | some declaration =>
      rcases Option.map_eq_some_iff.mp same with ⟨otherDeclaration, rfl, kind_eq⟩
      simp only [kind_eq]

mutual

theorem Expr.errors_of_agree
    (agree : Context.Agree Declaration.kind Declaration.kind context other) :
    (use : Use) → (value : Expr) →
      (value.occurrences other use).flatMap (Occurrence.errors source) =
        (value.occurrences context use).flatMap (Occurrence.errors source)
  | _, .binary op left right span type => by
      simp only [Expr.occurrences, List.flatMap_append, left.errors_of_agree agree,
        right.errors_of_agree agree]
  | _, .unary op operand span type => operand.errors_of_agree agree .value
  | _, .call callee arguments span type => by
      simp only [Expr.occurrences, List.flatMap_append, callee.errors_of_agree agree,
        Expr.errorsOfAll_of_agree agree arguments]
  | _, .grouping inner span type => inner.errors_of_agree agree .value
  | _, .literal value span type => rfl
  | use, .identifier name symbol type => by
      simp only [Expr.occurrences, List.flatMap_singleton,
        Occurrence.errors_of_agree source agree]

theorem Expr.errorsOfAll_of_agree
    (agree : Context.Agree Declaration.kind Declaration.kind context other) :
    (values : List Expr) →
      (Expr.occurrencesOfAll other values).flatMap (Occurrence.errors source) =
        (Expr.occurrencesOfAll context values).flatMap (Occurrence.errors source)
  | [] => rfl
  | first :: rest => by
      simp only [Expr.occurrencesOfAll, List.flatMap_append, first.errors_of_agree agree,
        Expr.errorsOfAll_of_agree agree rest]

end

theorem Leaf.scopeErrors_of_agree
    (agree : Context.Agree Declaration.kind Declaration.kind context other)
    (statement : LeafStatement) :
    Leaf.scopeErrors source ⟨other, statement⟩ = Leaf.scopeErrors source ⟨context, statement⟩ := by
  simp only [Leaf.scopeErrors, Leaf.occurrences, Leaf.callees, List.flatMap_assoc,
    Expr.errors_of_agree source agree]

mutual

theorem Stmt.scopeErrors_of_agree (returnType : WrittenType) : {context other : Context} →
    Context.Agree Declaration.kind Declaration.kind context other → (statement : Stmt) →
      (statement.leaves other returnType).flatMap (Leaf.scopeErrors source) =
        (statement.leaves context returnType).flatMap (Leaf.scopeErrors source)
  | _, _, agree, .expression _ _ => by
      simp only [Stmt.leaves, List.flatMap_singleton, Leaf.scopeErrors_of_agree source agree]
  | _, _, agree, .letDecl _ => by
      simp only [Stmt.leaves, List.flatMap_singleton, Leaf.scopeErrors_of_agree source agree]
  | _, _, agree, .block statements _ =>
      Stmt.scopeErrorsOfAll_of_agree returnType agree [] statements
  | _, _, agree, .returning _ _ => by
      simp only [Stmt.leaves, List.flatMap_singleton, Leaf.scopeErrors_of_agree source agree]

theorem Stmt.scopeErrorsOfAll_of_agree (returnType : WrittenType) : {outer other : Context} →
    Context.Agree Declaration.kind Declaration.kind outer other → (locals : List Declaration) →
      (statements : List Stmt) →
        (Stmt.leavesOfAll other returnType locals statements).flatMap (Leaf.scopeErrors source) =
          (Stmt.leavesOfAll outer returnType locals statements).flatMap (Leaf.scopeErrors source)
  | _, _, _, _, [] => rfl
  | _, _, agree, locals, first :: rest => by
      have entered := agree.enter_same (.block locals)
      simp only [Stmt.leavesOfAll, List.flatMap_append,
        first.scopeErrors_of_agree returnType entered,
        Stmt.scopeErrorsOfAll_of_agree returnType agree _ rest]

end

theorem FunDecl.scopeErrors_of_agree
    (agree : Context.Agree Declaration.kind Declaration.kind context other) (decl : FunDecl) :
    (decl.leaves other).flatMap (Leaf.scopeErrors source) =
      (decl.leaves context).flatMap (Leaf.scopeErrors source) :=
  Stmt.scopeErrorsOfAll_of_agree source decl.returnType
    (agree.enter_same (.parameters (decl.parameters.map Parameter.declaration)))
    [] decl.body.statements

theorem Decl.scopeErrorsOfAll_of_same {functions others : List Declaration}
    (same : ∀ key, (Declaration.first? others key).map Declaration.kind =
      (Declaration.first? functions key).map Declaration.kind) :
    (globals : List Declaration) → (declarations : List Decl) →
      (Decl.leavesOfAll others globals declarations).flatMap (Leaf.scopeErrors source) =
        (Decl.leavesOfAll functions globals declarations).flatMap (Leaf.scopeErrors source)
  | _, [] => rfl
  | globals, .funDecl decl :: rest => by
      have agree := Context.Agree.of_functions same globals
      simp only [Decl.leavesOfAll, List.flatMap_append, decl.scopeErrors_of_agree source agree,
        Decl.scopeErrorsOfAll_of_same same globals rest]
  | globals, .letDecl decl :: rest => by
      have agree := Context.Agree.of_functions same globals
      simp only [Decl.leavesOfAll, List.flatMap_cons, Leaf.scopeErrors_of_agree source agree,
        Decl.scopeErrorsOfAll_of_same same _ rest]

end Agreeing

namespace Declaration

/-- A name is refused as often as it is declared, but for the one time that is accepted. -/
theorem count_repetitions (key : Key) : (before declarations : List Declaration) →
    ((repetitions before declarations).map (·.2.name.key)).count key =
      (declarations.map (·.name.key)).count key -
        if key ∈ before.map (·.name.key) then 0 else 1
  | _, [] => by simp [repetitions]
  | before, declaration :: rest => by
      have others := count_repetitions key (before ++ [declaration]) rest
      simp only [List.map_append, List.map_singleton, List.mem_append, List.mem_singleton] at others
      rw [repetitions, List.map_append, List.count_append, others, List.map_cons, List.count_cons]
      cases found : first? before declaration.name.key with
      | none =>
          rw [first?_eq_none_iff] at found
          by_cases same : key = declaration.name.key
          · subst same
            simp [found]
          · simp [same, Ne.symm same]
      | some first =>
          have used : declaration.name.key ∈ before.map (·.name.key) := by
            by_contra unused
            rw [(first?_eq_none_iff _ _).mpr unused] at found
            cases found
          by_cases same : key = declaration.name.key
          · subst same
            simp [used, Nat.add_comm]
          · simp [same, Ne.symm same]

/-- The names that are refused do not depend on the order of the declarations. -/
theorem repetitions_perm {declarations others : List Declaration}
    (perm : declarations.Perm others) :
    ((repetitions [] declarations).map (·.2.name.key)).Perm
      ((repetitions [] others).map (·.2.name.key)) := by
  refine List.perm_iff_count.mpr fun key => ?_
  rw [count_repetitions, count_repetitions, (perm.map (·.name.key)).count_eq key]

theorem map_gist_repetitionError (source : SourceId)
    (repetitions : List (Declaration × Declaration)) :
    (repetitions.map (repetitionError source)).map ResolutionError.gist =
      (repetitions.map (·.2.name.key)).map fun key => .nameAlreadyUsed (some key) none := by
  rw [List.map_map, List.map_map]
  rfl

end Declaration

/-- The first function of a name is some function, if there is one. -/
theorem FunDecl.kind_first? (functions : List FunDecl) (key : Key) :
    (Declaration.first? (functions.map FunDecl.declaration) key).map Declaration.kind =
      if key ∈ functions.map (·.name.key) then some .function else none := by
  cases found : Declaration.first? (functions.map FunDecl.declaration) key with
  | none =>
      rw [Declaration.first?_eq_none_iff, List.map_map] at found
      exact (if_neg found).symm
  | some declaration =>
      rcases List.mem_map.mp (List.mem_of_find?_eq_some found) with ⟨decl, member, rfl⟩
      have named : decl.name.key = key := Declaration.key_of_first? found
      exact (if_pos (List.mem_map.mpr ⟨decl, member, named⟩)).symm

namespace Program

variable {position : Nat} {program : Program}

theorem globalDeclarations_exchange_perm
    (neighbours : Decl.Neighbours position program.declarations) :
    (program.exchange position).globalDeclarations.Perm program.globalDeclarations := by
  rw [globalDeclarations, globalDeclarations, globals_exchange neighbours]
  exact ((functions_exchange_perm position program).map _).append_right _

theorem leafErrors_exchange_perm (neighbours : Decl.Neighbours position program.declarations) :
    ((program.exchange position).leaves.flatMap (Leaf.scopeErrors program.source)).Perm
      (program.leaves.flatMap (Leaf.scopeErrors program.source)) := by
  have same : ∀ key,
      (Declaration.first? ((program.exchange position).functions.map FunDecl.declaration) key).map
          Declaration.kind =
        (Declaration.first? (program.functions.map FunDecl.declaration) key).map
          Declaration.kind := by
    intro key
    have names := (functions_exchange_perm position program).map (·.name.key)
    simp only [FunDecl.kind_first?, names.mem_iff]
  rw [leaves, Decl.scopeErrorsOfAll_of_same program.source same]
  exact (neighbours.leavesOfAll_perm _ _).flatMap_right _

theorem repetitions_exchange_perm (neighbours : Decl.Neighbours position program.declarations) :
    ((program.exchange position).repetitions.map (·.2.name.key)).Perm
      (program.repetitions.map (·.2.name.key)) := by
  rw [repetitions, repetitions, List.map_append, List.map_append]
  have parameters := (functions_exchange_perm position program).flatMap_right fun decl =>
    Declaration.repetitions [] (decl.parameters.map Parameter.declaration)
  exact (Declaration.repetitions_perm (globalDeclarations_exchange_perm neighbours)).append
    (parameters.map _)

/-- The errors in the names of a program say the same, whatever the order of neighbours. -/
theorem scopeErrors_exchange_perm (neighbours : Decl.Neighbours position program.declarations) :
    ((program.exchange position).scopeErrors.map ResolutionError.gist).Perm
      (program.scopeErrors.map ResolutionError.gist) := by
  have split (other : Program) : (other.scopeErrors.map ResolutionError.gist).Perm
      ((other.leaves.flatMap (Leaf.scopeErrors other.source)).map ResolutionError.gist ++
        (other.repetitions.map (·.2.name.key)).map fun key =>
          .nameAlreadyUsed (some key) none) := by
    rw [← Declaration.map_gist_repetitionError other.source, ← List.map_append]
    exact other.scopeErrors_perm.symm.map _
  refine (split _).trans (.trans ?_ (split program).symm)
  exact ((leafErrors_exchange_perm neighbours).map _).append
    ((repetitions_exchange_perm neighbours).map _)

end Program

end TypedLang
