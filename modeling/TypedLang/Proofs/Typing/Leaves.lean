import TypedLang.Proofs.Scope.Resolution
import TypedLang.Proofs.Typing.Expressions

/-!
# Checking leaves

While a program is checked, the declarations met so far have their types in the arena and those to
come do not. As every variable is declared ahead of its uses, and the signature of a function is
there from the beginning, this is all that a leaf needs: what the checker says of it is then the one
verdict of the typing rules.
-/

namespace TypedLang

/--
The arena has one symbol for every declaration. It holds the types of the declarations in `done`, and
none of those that are pending.
-/
structure Arena.Holds (arena : Arena) (done pending : List Declaration) : Prop where
  size_eq : arena.size = (done ++ pending).length
  distinct : ((done ++ pending).filterMap Declaration.symbol).Nodup
  typed : ∀ declaration ∈ done, ∃ id, declaration.symbol = some id ∧
    arena.get? id = some { declaration.entry with type := some declaration.type.type }
  untyped : ∀ declaration ∈ pending, ∃ id, declaration.symbol = some id ∧
    arena.get? id = some declaration.entry

/-- All that a context shows is known: variables are done already, functions have a signature. -/
structure Context.Ready (context : Context) (done known : List Declaration) : Prop where
  levels : ∀ level ∈ context.levels, ∀ declaration ∈ level.declarations,
    declaration.kind ≠ .function ∧ declaration ∈ done
  functions : ∀ declaration ∈ context.functions, declaration.kind = .function ∧
    declaration.signature ≠ none ∧ declaration ∈ known
  globals : ∀ declaration ∈ context.globals,
    declaration.kind ≠ .function ∧ declaration ∈ done

/-- Resolution found nothing wrong with a leaf. -/
structure Leaf.IsResolved (arena : Arena) (leaf : Leaf) : Prop where
  bound : leaf.IsBound arena
  allowed : ∀ occurrence ∈ leaf.occurrences, ∃ declaration,
    occurrence.declaration? = some declaration ∧ occurrence.use.Allows declaration.kind
  callees : ∀ callee ∈ leaf.callees, callee.isIdentifier

namespace Arena

theorem get?_set (arena : Arena) (id other : SymbolId) (symbol : Symbol) (known : id < arena.size) :
    Arena.get? ⟨arena.symbols.set id symbol⟩ other =
      if id = other then some symbol else arena.get? other := by
  simp only [get?]
  split
  · subst other
    exact List.getElem?_set_self known
  · rename_i different
    exact List.getElem?_set_ne different

namespace Holds

variable {arena : Arena} {done pending : List Declaration} {declaration : Declaration}

theorem reorder {others : List Declaration} (holds : arena.Holds done pending)
    (perm : pending.Perm others) : arena.Holds done others where
  size_eq := holds.size_eq.trans (perm.append_left done).length_eq
  distinct := ((perm.append_left done).filterMap _).nodup_iff.mp holds.distinct
  typed := holds.typed
  untyped := fun declaration member => holds.untyped declaration (perm.mem_iff.mpr member)

theorem signature_of_mem (holds : arena.Holds done pending)
    (member : declaration ∈ done ++ pending) {id : SymbolId} (bound : declaration.symbol = some id) :
    ∃ symbol, arena.get? id = some symbol ∧ symbol.signature = declaration.signature := by
  rcases List.mem_append.mp member with member | member
  · rcases holds.typed declaration member with ⟨own, own_eq, found⟩
    cases bound.symm.trans own_eq
    exact ⟨_, found, rfl⟩
  · rcases holds.untyped declaration member with ⟨own, own_eq, found⟩
    cases bound.symm.trans own_eq
    exact ⟨_, found, rfl⟩

/-- The next declaration gets its type, and all others keep theirs. -/
theorem declareType (source : SourceId) (span : Span)
    (holds : arena.Holds done (declaration :: pending)) :
    ∃ final, arena.declareType source declaration.symbol span declaration.type.type = .ok final ∧
      final.Holds (done ++ [declaration]) pending := by
  rcases holds.untyped declaration List.mem_cons_self with ⟨id, own, found⟩
  have known : id < arena.size := (List.getElem?_eq_some_iff.mp found).1
  have together : done ++ declaration :: pending = done ++ [declaration] ++ pending := by simp
  have distinct := holds.distinct
  rw [List.filterMap_append, List.filterMap_cons, own, List.nodup_append,
    List.nodup_cons] at distinct
  refine ⟨⟨arena.symbols.set id { declaration.entry with type := some declaration.type.type }⟩,
    ?_, ?_, ?_, ?_, ?_⟩
  · simp [Arena.declareType, own, Arena.assignType, found, Declaration.entry]
  · rw [← together, ← holds.size_eq]
    exact List.length_set
  · rw [← together]
    exact holds.distinct
  · intro other member
    rcases List.mem_append.mp member with member | member
    · rcases holds.typed other member with ⟨otherId, other_eq, otherFound⟩
      have different : id ≠ otherId := by
        intro same
        exact distinct.2.2 otherId (List.mem_filterMap.mpr ⟨other, member, other_eq⟩) id
          List.mem_cons_self same.symm
      exact ⟨otherId, other_eq, by rw [get?_set _ _ _ _ known, if_neg different, otherFound]⟩
    · cases List.mem_singleton.mp member
      exact ⟨id, own, by rw [get?_set _ _ _ _ known, if_pos rfl]⟩
  · intro other member
    rcases holds.untyped other (List.mem_cons_of_mem _ member) with ⟨otherId, other_eq, otherFound⟩
    have different : id ≠ otherId := by
      intro same
      exact distinct.2.1.1 (same ▸ List.mem_filterMap.mpr ⟨other, member, other_eq⟩)
    exact ⟨otherId, other_eq, by rw [get?_set _ _ _ _ known, if_neg different, otherFound]⟩

end Holds

end Arena

namespace Context

theorem mem_declarations_of_declaration? {context : Context} {key : Key} {declaration : Declaration}
    (found : context.declaration? key = some declaration) : declaration ∈ context.declarations := by
  simp only [declaration?, global?, Option.or_eq_some_iff] at found
  simp only [declarations, List.mem_append, List.mem_flatMap]
  rcases found with found | ⟨_, found | ⟨_, found⟩⟩
  · rcases List.exists_of_findSome?_eq_some found with ⟨level, member, found⟩
    refine .inl (.inl ⟨level, member, ?_⟩)
    cases level with
    | block declared => exact List.mem_reverse.mp (List.mem_of_find?_eq_some found)
    | parameters declared => exact List.mem_of_find?_eq_some found
  · exact .inl (.inr (List.mem_of_find?_eq_some found))
  · exact .inr (List.mem_of_find?_eq_some found)

namespace Ready

variable {context : Context} {done known : List Declaration} {declaration : Declaration}

theorem mono {more : List Declaration} (ready : context.Ready done known)
    (subset : done ⊆ more) : context.Ready more known where
  levels := by
    intro level levelMem declaration member
    rcases ready.levels level levelMem declaration member with ⟨isVariable, isDone⟩
    exact ⟨isVariable, subset isDone⟩
  functions := ready.functions
  globals := by
    intro declaration member
    rcases ready.globals declaration member with ⟨isVariable, isDone⟩
    exact ⟨isVariable, subset isDone⟩

theorem append (ready : context.Ready done known) (others : List Declaration) :
    context.Ready (done ++ others) known :=
  ready.mono (List.subset_append_left done others)

theorem enter (ready : context.Ready done known) (level : Level)
    (declared : ∀ declaration ∈ level.declarations,
      declaration.kind ≠ .function ∧ declaration ∈ done) :
    (context.enter level).Ready done known where
  levels := List.forall_mem_cons.mpr ⟨declared, ready.levels⟩
  functions := ready.functions
  globals := ready.globals

theorem mem_done (ready : context.Ready done known) (member : declaration ∈ context.declarations)
    (isVariable : declaration.kind ≠ .function) : declaration ∈ done := by
  simp only [declarations, List.mem_append, List.mem_flatMap] at member
  rcases member with (⟨level, levelMem, member⟩ | member) | member
  · exact (ready.levels level levelMem declaration member).2
  · exact absurd (ready.functions declaration member).1 isVariable
  · exact (ready.globals declaration member).2

theorem mem_known (ready : context.Ready done known) (member : declaration ∈ context.declarations)
    (isFunction : declaration.kind = .function) :
    declaration.signature ≠ none ∧ declaration ∈ known := by
  simp only [declarations, List.mem_append, List.mem_flatMap] at member
  rcases member with (⟨level, levelMem, member⟩ | member) | member
  · exact absurd isFunction (ready.levels level levelMem declaration member).1
  · exact (ready.functions declaration member).2
  · exact absurd isFunction (ready.globals declaration member).1

end Ready

end Context

mutual

theorem Expr.context_of_mem_occurrences {context : Context} {occurrence : Occurrence} :
    (use : Use) → (value : Expr) → occurrence ∈ value.occurrences context use →
      occurrence.context = context
  | _, .binary op left right span type, member => by
      rcases List.mem_append.mp member with member | member
      · exact left.context_of_mem_occurrences .value member
      · exact right.context_of_mem_occurrences .value member
  | _, .unary op operand span type, member => operand.context_of_mem_occurrences .value member
  | _, .call callee arguments span type, member => by
      rcases List.mem_append.mp member with member | member
      · exact callee.context_of_mem_occurrences .callee member
      · exact Expr.context_of_mem_occurrencesOfAll arguments member
  | _, .grouping inner span type, member => inner.context_of_mem_occurrences .value member
  | _, .literal value span type, member => by cases member
  | _, .identifier name symbol type, member => by
      cases List.mem_singleton.mp member
      rfl

theorem Expr.context_of_mem_occurrencesOfAll {context : Context} {occurrence : Occurrence} :
    (values : List Expr) → occurrence ∈ Expr.occurrencesOfAll context values →
      occurrence.context = context
  | [], member => by cases member
  | first :: rest, member => by
      rcases List.mem_append.mp member with member | member
      · exact first.context_of_mem_occurrences .value member
      · exact Expr.context_of_mem_occurrencesOfAll rest member

end

theorem Leaf.context_of_mem_occurrences {leaf : Leaf} {occurrence : Occurrence}
    (member : occurrence ∈ leaf.occurrences) : occurrence.context = leaf.context := by
  rcases List.mem_flatMap.mp member with ⟨value, _, valueMem⟩
  exact value.context_of_mem_occurrences .value valueMem

theorem Occurrence.isTyped_of_ready {base arena : Arena} {done pending : List Declaration}
    {occurrence : Occurrence} (ready : occurrence.context.Ready done (done ++ pending))
    (holds : arena.Holds done pending) (bound : occurrence.IsBound base)
    (allowed : ∃ declaration, occurrence.declaration? = some declaration ∧
      occurrence.use.Allows declaration.kind) :
    occurrence.IsTyped arena := by
  rcases allowed with ⟨declaration, means, allows⟩
  have member := Context.mem_declarations_of_declaration? means
  rcases occurrence with ⟨name, symbol, use, context⟩
  rw [Occurrence.IsBound, means] at bound
  cases bound with
  | some numbered =>
      cases use with
      | value =>
          rcases holds.typed declaration (ready.mem_done member allows) with ⟨id, own, found⟩
          cases numbered.1.symm.trans own
          exact .value means allows found rfl
      | callee =>
          rcases ready.mem_known member allows with ⟨isSigned, isKnown⟩
          rcases Option.ne_none_iff_exists'.mp isSigned with ⟨signature, signed⟩
          rcases holds.signature_of_mem isKnown numbered.1 with ⟨symbol, found, same⟩
          exact .callee means signed found (same.trans signed)

/-- The error of a leaf whose value has a type, if the leaf asks for another one. -/
def LeafStatement.error? (source : SourceId) (value : Expr) (type : Ty) :
    LeafStatement → Option TypeError
  | .expression _ => none
  | .letDecl decl =>
      if type.isAssignable decl.type.type then none
      else some (decl.type.mismatch source value.span type)
  | .returning _ returnType =>
      if type = returnType.type then none else some (returnType.mismatch source value.span type)

/-- What the checker finds out about a leaf. -/
def Leaf.verdict (source : SourceId) (arena : Arena) (leaf : Leaf) : Option TypeError :=
  leaf.statement.value?.bind fun value =>
    match value.verdict source arena with
    | .error error => some error
    | .ok type => leaf.statement.error? source value type

/-- The typing rules say something of a leaf, and nothing else. -/
def Leaf.HasOnlyVerdict (source : SourceId) (leaf : Leaf) (verdict : Option TypeError) : Prop :=
  leaf.HasVerdict source verdict ∧ ∀ other, leaf.HasVerdict source other → other = verdict

section Leaves

variable (source : SourceId) {arena : Arena} {leaf : Leaf}

theorem Leaf.verdict_of_error {value : Expr} {error : TypeError}
    (value_eq : leaf.statement.value? = some value)
    (found : value.verdict source arena = .error error) :
    leaf.verdict source arena = some error := by
  simp only [Leaf.verdict, value_eq, Option.bind_some, found]

theorem Leaf.verdict_of_ok {value : Expr} {type : Ty}
    (value_eq : leaf.statement.value? = some value)
    (found : value.verdict source arena = .ok type) :
    leaf.verdict source arena = leaf.statement.error? source value type := by
  simp only [Leaf.verdict, value_eq, Option.bind_some, found]

theorem LeafStatement.hasVerdict_error? {context : Context} {statement : LeafStatement}
    {value : Expr} {type : Ty} (value_eq : statement.value? = some value)
    (typed : value.HasType context type) :
    Leaf.HasVerdict source ⟨context, statement⟩ (statement.error? source value type) := by
  cases statement with
  | expression own =>
      cases value_eq
      exact .good (.expression typed)
  | letDecl decl =>
      rw [LeafStatement.error?]
      split
      · rename_i assignable
        exact .good (.initialized value_eq typed ((Ty.isAssignable_iff _ _).mp assignable))
      · rename_i notAssignable
        rw [Ty.isAssignable_iff] at notAssignable
        exact .bad (.initializer value_eq typed notAssignable)
  | returning own returnType =>
      cases value_eq
      rw [LeafStatement.error?]
      split
      · rename_i same
        exact .good (.returning (same ▸ typed))
      · rename_i different
        exact .bad (.returning typed different)

theorem Leaf.hasVerdict_verdict (typed : ∀ occurrence ∈ leaf.occurrences, occurrence.IsTyped arena)
    (callees : ∀ callee ∈ leaf.callees, callee.isIdentifier) :
    leaf.HasVerdict source (leaf.verdict source arena) := by
  simp only [Leaf.occurrences, Leaf.callees] at typed callees
  cases value_eq : leaf.statement.value? with
  | none =>
      simp only [Leaf.verdict, value_eq, Option.bind_none]
      rcases leaf with ⟨context, own | decl | ⟨value, returnType⟩⟩
      · cases value_eq
      · exact .good (.uninitialized value_eq)
      · cases value_eq
        exact .good .returningNothing
  | some value =>
      simp only [value_eq, Option.toList_some, List.flatMap_singleton] at typed callees
      have judged := value.judged_verdict source typed callees
      cases found : value.verdict source arena with
      | error error =>
          rw [found] at judged
          rw [Leaf.verdict_of_error source value_eq found]
          cases judged with
          | error violation => exact .bad (.value value_eq violation)
      | ok type =>
          rw [found] at judged
          rw [Leaf.verdict_of_ok source value_eq found]
          cases judged with
          | ok hasType => exact LeafStatement.hasVerdict_error? source value_eq hasType

theorem Leaf.eq_verdict (typed : ∀ occurrence ∈ leaf.occurrences, occurrence.IsTyped arena)
    (callees : ∀ callee ∈ leaf.callees, callee.isIdentifier) {verdict : Option TypeError}
    (hasVerdict : leaf.HasVerdict source verdict) : verdict = leaf.verdict source arena := by
  have ofType : ∀ {value : Expr} {type : Ty}, leaf.statement.value? = some value →
      value.HasType leaf.context type →
        leaf.verdict source arena = leaf.statement.error? source value type := by
    intro value type value_eq hasType
    simp only [Leaf.occurrences, Leaf.callees, value_eq, Option.toList_some,
      List.flatMap_singleton] at typed callees
    exact Leaf.verdict_of_ok source value_eq
      (value.verdict_of_hasType source typed callees hasType)
  cases hasVerdict with
  | good wellTyped =>
      cases wellTyped with
      | expression hasType => rw [ofType rfl hasType, LeafStatement.error?]
      | uninitialized value_eq =>
          simp only [Leaf.verdict, LeafStatement.value?, value_eq, Option.bind_none]
      | initialized value_eq hasType assignable =>
          rw [ofType value_eq hasType, LeafStatement.error?,
            if_pos ((Ty.isAssignable_iff _ _).mpr assignable)]
      | returningNothing => rfl
      | returning hasType => rw [ofType rfl hasType, LeafStatement.error?, if_pos rfl]
  | bad violation =>
      cases violation with
      | @value _ value error value_eq violation =>
          simp only [Leaf.occurrences, Leaf.callees, value_eq, Option.toList_some,
            List.flatMap_singleton] at typed callees
          rw [Leaf.verdict_of_error source value_eq
            (value.verdict_of_firstViolation source typed callees violation)]
      | initializer value_eq hasType notAssignable =>
          rw [← Ty.isAssignable_iff] at notAssignable
          rw [ofType value_eq hasType, LeafStatement.error?, if_neg notAssignable]
          rfl
      | returning hasType different =>
          rw [ofType rfl hasType, LeafStatement.error?, if_neg different]
          rfl

/-- The arena knows all that a resolved leaf names if the context of the leaf is ready. -/
theorem Leaf.isTyped_of_ready {base : Arena} {done pending : List Declaration}
    (ready : leaf.context.Ready done (done ++ pending)) (holds : arena.Holds done pending)
    (resolved : leaf.IsResolved base) :
    ∀ occurrence ∈ leaf.occurrences, occurrence.IsTyped arena := by
  intro occurrence member
  have context_eq := Leaf.context_of_mem_occurrences member
  exact Occurrence.isTyped_of_ready (context_eq ▸ ready) holds (resolved.bound occurrence member)
    (resolved.allowed occurrence member)

/-- What the checker says of a leaf in a context that is ready is the verdict of the rules. -/
theorem Leaf.hasOnlyVerdict {base : Arena} {done pending : List Declaration}
    (ready : leaf.context.Ready done (done ++ pending)) (holds : arena.Holds done pending)
    (resolved : leaf.IsResolved base) :
    leaf.HasOnlyVerdict source (leaf.verdict source arena) := by
  have typed := Leaf.isTyped_of_ready ready holds resolved
  exact ⟨leaf.hasVerdict_verdict source typed resolved.callees,
    fun _ hasVerdict => leaf.eq_verdict source typed resolved.callees hasVerdict⟩

end Leaves

end TypedLang
