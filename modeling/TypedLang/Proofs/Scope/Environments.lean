import TypedLang.Proofs.Scope.Calls

/-!
# Symbol tables as stacks of environments

What a name is bound to can be told from the calls on a table alone. A binding is in force as long as
its scope is open, and of the bindings of a name that are in force the last one in the innermost scope
counts. Nothing else that was done to the table shows.

The proof is by the number of calls. Behind a call that closes a scope the table has the scopes that
it had before the scope was opened, and the bindings that are in force are those that were so then.
-/

namespace TypedLang

namespace ScopeStack

theorem lookup_of_innermost {scopes : ScopeStack} {name : Key} {binding : Binding}
    (found : scopes.innermost.find? name = some binding) :
    scopes.lookup name = some binding := by
  simp [lookup, found]

theorem find?_bind (scopes : ScopeStack) (binding : Binding) (name : Key) :
    (scopes.bind binding).innermost.find? name =
      if binding.name = name then some binding else scopes.innermost.find? name := by
  simp [bind, Scope.find?_cons]

theorem lookup_bind (scopes : ScopeStack) (binding : Binding) (name : Key) :
    (scopes.bind binding).lookup name =
      if binding.name = name then some binding else scopes.lookup name := by
  by_cases name_eq : binding.name = name
  · simp [lookup, find?_bind, name_eq]
  · simp only [lookup, List.findSome?_cons, find?_bind, if_neg name_eq]
    rfl

end ScopeStack

namespace SymbolTable

/--
After some calls, the name of a symbol that was inserted behind `earlier` is bound to its number in
a scope that is still open.
-/
inductive Binds (arena : Arena) : (calls earlier : List Call) → Key → SymbolId → Prop where
  | intro {earlier later : List Call} {symbol : Symbol} {shadow : Bool} {id : SymbolId} :
      ((after arena earlier).answer (.insert symbol shadow)).1 = .inserted id →
      StaysOpen earlier (.insert symbol shadow :: later) →
      Binds arena (earlier ++ .insert symbol shadow :: later) earlier symbol.name id

namespace Binds

variable {arena : Arena} {calls earlier before inside : List Call} {name : Key} {id : SymbolId}

theorem depth_le (binds : Binds arena calls earlier name id) : depth earlier ≤ depth calls := by
  cases binds with
  | intro _ stays => exact stays.depth_le

theorem length_lt (binds : Binds arena calls earlier name id) : earlier.length < calls.length := by
  cases binds with
  | intro _ _ => simp

theorem append {later : List Call} (binds : Binds arena calls earlier name id)
    (stays : StaysOpen calls later) : Binds arena (calls ++ later) earlier name id := by
  cases binds with
  | intro answered stillOpen =>
      rw [List.append_assoc, List.cons_append]
      exact .intro answered (stillOpen.append stays)

/-- What is in force after one more call was in force before, or the call put it in force. -/
theorem concat_iff {call : Call} : Binds arena (calls ++ [call]) earlier name id ↔
    (Binds arena calls earlier name id ∧ depth earlier ≤ depth (calls ++ [call])) ∨
      earlier = calls ∧ ∃ symbol shadow, call = .insert symbol shadow ∧ name = symbol.name ∧
        ((after arena calls).answer call).1 = .inserted id := by
  constructor
  · intro binds
    have depth_le := binds.depth_le
    generalize both_eq : calls ++ [call] = both at binds depth_le
    cases binds with
    | @intro _ later symbol shadow _ answered stays =>
        rcases List.eq_nil_or_concat' later with rfl | ⟨later, last, rfl⟩
        · rcases List.append_inj' both_eq rfl with ⟨rfl, same⟩
          cases same
          exact .inr ⟨rfl, symbol, shadow, rfl, rfl, answered⟩
        · rw [← List.cons_append, ← List.append_assoc] at both_eq
          rcases List.append_inj' both_eq rfl with ⟨rfl, _⟩
          refine .inl ⟨.intro answered ?_, depth_le⟩
          rw [← List.cons_append] at stays
          exact stays.of_append
  · rintro (⟨binds, depth_le⟩ | ⟨rfl, symbol, shadow, rfl, rfl, answered⟩)
    · cases binds with
      | @intro _ later symbol shadow _ answered stays =>
          rw [List.append_assoc, List.cons_append]
          refine .intro answered ?_
          rw [← List.cons_append]
          exact stays.concat depth_le
    · refine .intro answered ?_
      exact (StaysOpen.nil _).concat (by simp [Call.depth])

/-- What is in force outside of a scope was so before the scope was opened. -/
theorem of_outside (stays : StaysOpen (before ++ [.enter]) inside)
    (binds : Binds arena (before ++ [.enter] ++ inside) earlier name id)
    (outside : depth earlier ≤ depth before) : Binds arena before earlier name id := by
  induction inside using List.reverseRecOn with
  | nil =>
      rw [List.append_nil] at binds
      rcases concat_iff.mp binds with ⟨binds, _⟩ | ⟨_, symbol, shadow, same, _⟩
      · exact binds
      · cases same
  | append_singleton inside call ih =>
      rw [← List.append_assoc] at binds
      rcases concat_iff.mp binds with ⟨binds, _⟩ | ⟨rfl, _⟩
      · exact ih stays.of_append binds
      · have deeper := stays.of_append.depth_le
        simp only [depth_concat, Call.depth] at deeper
        omega

/-- Closing a scope leaves in force what was so before the scope was opened. -/
theorem exit_iff (opened : OpenedBehind before inside calls) :
    Binds arena (calls ++ [.exit]) earlier name id ↔ Binds arena before earlier name id := by
  have around := opened.around_stays
  have closed : depth (calls ++ [.exit]) = depth before := by
    rw [depth_concat, opened.depth_eq]
    rfl
  rcases opened with ⟨rfl, stays, _⟩
  constructor
  · intro binds
    have outside := binds.depth_le
    rw [closed] at outside
    rcases concat_iff.mp binds with ⟨binds, _⟩ | ⟨_, symbol, shadow, same, _⟩
    · exact binds.of_outside stays outside
    · cases same
  · intro binds
    rw [List.append_assoc before] at closed ⊢
    rw [List.append_assoc before]
    apply binds.append
    apply around.concat
    exact Nat.le_of_eq closed.symm

/-- A call that inserts nothing and closes no scope leaves the bindings in force as they are. -/
theorem unchanged_iff {call : Call} (stillOpen : depth calls ≤ depth (calls ++ [call]))
    (none : ∀ id, ((after arena calls).answer call).1 ≠ .inserted id) :
    Binds arena (calls ++ [call]) earlier name id ↔ Binds arena calls earlier name id := by
  rw [concat_iff]
  constructor
  · rintro (⟨binds, _⟩ | ⟨_, _, _, _, _, answered⟩)
    · exact binds
    · exact absurd answered (none id)
  · intro binds
    exact .inl ⟨binds, Nat.le_trans binds.depth_le stillOpen⟩

end Binds

/--
Of the bindings of a name that are in force, at some depths, the symbol of the last one in the
innermost scope; none if there is no such binding.
-/
inductive Last (arena : Arena) (calls : List Call) (among : Nat → Prop) (name : Key) :
    Option SymbolId → Prop where
  | unbound :
      (∀ earlier id, Binds arena calls earlier name id → ¬ among (depth earlier)) →
      Last arena calls among name none
  | bound {earlier : List Call} {id : SymbolId} :
      Binds arena calls earlier name id → among (depth earlier) →
      (∀ other otherId, Binds arena calls other name otherId → among (depth other) →
        depth other < depth earlier ∨
          depth other = depth earlier ∧ other.length ≤ earlier.length) →
      Last arena calls among name (some id)

namespace Last

variable {arena : Arena} {calls others : List Call} {among : Nat → Prop} {name : Key}
  {id : Option SymbolId}

theorem congr (last : Last arena calls among name id)
    (same : ∀ earlier id, Binds arena others earlier name id ↔ Binds arena calls earlier name id) :
    Last arena others among name id := by
  cases last with
  | unbound free => exact .unbound fun earlier id binds => free earlier id ((same _ _).mp binds)
  | bound binds isAmong latest =>
      refine .bound ((same _ _).mpr binds) isAmong ?_
      intro other otherId otherBinds
      exact latest other otherId ((same _ _).mp otherBinds)

/-- An inserted symbol is the last one of its name, and of other names nothing changes. -/
theorem insert {symbol : Symbol} {shadow : Bool} {new : SymbolId}
    (answered : ((after arena calls).answer (.insert symbol shadow)).1 = .inserted new)
    (isAmong : among (depth calls)) (last : Last arena calls among name id) :
    Last arena (calls ++ [.insert symbol shadow]) among name
      (if symbol.name = name then some new else id) := by
  split
  · rename_i name_eq
    subst name_eq
    refine .bound (Binds.concat_iff.mpr (.inr ⟨rfl, symbol, shadow, rfl, rfl, answered⟩))
      isAmong ?_
    intro other otherId binds _
    rcases Binds.concat_iff.mp binds with ⟨binds, _⟩ | ⟨rfl, _⟩
    · have depth_le := binds.depth_le
      have length_lt := binds.length_lt
      omega
    · exact .inr ⟨rfl, Nat.le_refl _⟩
  · rename_i name_ne
    apply last.congr
    intro earlier id
    rw [Binds.concat_iff]
    constructor
    · rintro (⟨binds, _⟩ | ⟨_, _, _, same, name_eq, _⟩)
      · exact binds
      · cases same
        exact absurd name_eq.symm name_ne
    · intro binds
      refine .inl ⟨binds, ?_⟩
      rw [depth_concat]
      exact binds.depth_le

end Last

/-- What the scopes of a table hold is what the calls put in force. -/
structure Reflects (arena : Arena) (calls : List Call) (scopes : ScopeStack) : Prop where
  lookup : ∀ name, Last arena calls (fun _ => True) name ((scopes.lookup name).map Binding.id)
  innermost : ∀ name, Last arena calls (· = depth calls) name
    ((scopes.innermost.find? name).map Binding.id)

namespace Reflects

variable {arena : Arena} {calls before inside : List Call} {scopes : ScopeStack}

theorem nil (arena : Arena) : Reflects arena [] .empty := by
  have free : ∀ name earlier id, ¬ Binds arena [] earlier name id := by
    intro name earlier id binds
    exact absurd binds.length_lt (Nat.not_lt_zero _)
  exact ⟨fun name => .unbound fun earlier id binds => absurd binds (free name earlier id),
    fun name => .unbound fun earlier id binds => absurd binds (free name earlier id)⟩

theorem congr {others : List Call} (reflects : Reflects arena calls scopes)
    (same : ∀ earlier name id,
      Binds arena others earlier name id ↔ Binds arena calls earlier name id)
    (depth_eq : depth others = depth calls) : Reflects arena others scopes := by
  refine ⟨fun name => (reflects.lookup name).congr fun earlier id => same earlier name id, ?_⟩
  rw [depth_eq]
  exact fun name => (reflects.innermost name).congr fun earlier id => same earlier name id

theorem enter (reflects : Reflects arena calls scopes) :
    Reflects arena (calls ++ [.enter]) scopes.enter := by
  have depth_eq : depth (calls ++ [.enter]) = depth calls + 1 := depth_concat _ _
  have same : ∀ earlier name id,
      Binds arena (calls ++ [.enter]) earlier name id ↔ Binds arena calls earlier name id := by
    intro earlier name id
    exact Binds.unchanged_iff (by omega) (fun id answered => by cases answered)
  constructor
  · intro name
    exact (reflects.lookup name).congr fun earlier id => same earlier name id
  · intro name
    apply Last.unbound
    intro earlier id binds atDepth
    have depth_le := ((same earlier name id).mp binds).depth_le
    omega

theorem insert {symbol : Symbol} {shadow : Bool} {binding : Binding}
    (answered : ((after arena calls).answer (.insert symbol shadow)).1 = .inserted binding.id)
    (name_eq : binding.name = symbol.name) (reflects : Reflects arena calls scopes) :
    Reflects arena (calls ++ [.insert symbol shadow]) (scopes.bind binding) := by
  constructor
  · intro name
    rw [ScopeStack.lookup_bind, apply_ite (Option.map Binding.id), name_eq]
    exact (reflects.lookup name).insert answered trivial
  · intro name
    rw [ScopeStack.find?_bind, apply_ite (Option.map Binding.id), name_eq, depth_concat]
    exact (reflects.innermost name).insert answered rfl

end Reflects

/-- The scopes of a table hold what the calls on it put in force. -/
theorem reflects_after (arena : Arena) (calls : List Call) :
    Reflects arena calls (after arena calls).scopes := by
  rcases List.eq_nil_or_concat' calls with rfl | ⟨calls, call, rfl⟩
  · exact Reflects.nil arena
  have reflects := reflects_after arena calls
  have length_eq := length_enclosing_after arena calls
  rcases answers_after arena calls call with ⟨answer, answered, answers⟩
  generalize after arena (calls ++ [call]) = next at answered answers
  -- Where nothing is inserted and the depth is the same, nothing changes.
  have unchanged (depth_eq : depth (calls ++ [call]) = depth calls)
      (none : ∀ id, answer ≠ .inserted id) :
      Reflects arena (calls ++ [call]) (after arena calls).scopes := by
    apply reflects.congr _ depth_eq
    intro earlier name id
    apply Binds.unchanged_iff (Nat.le_of_eq depth_eq.symm)
    rw [answered]
    exact none
  cases answers with
  | enter => exact reflects.enter
  | exit enclosing =>
      have inner : depth calls ≠ 0 := by
        simp [← length_eq, enclosing]
      rcases exists_openedBehind calls inner with ⟨before, inside, opened⟩
      have shorter : before.length < calls.length + 1 := by
        have length_eq := congrArg List.length opened.calls_eq
        simp only [List.length_append, List.length_singleton] at length_eq
        omega
      have restored := reflects_after arena before
      rw [opened.answer_exit arena] at answered
      rw [← congrArg SymbolTable.scopes (Prod.mk.inj answered).2]
      apply restored.congr
      · intro earlier name id
        exact Binds.exit_iff opened
      · rw [depth_concat, opened.depth_eq]
        rfl
  | stay enclosing =>
      apply unchanged _ (fun id => by simp)
      simp [Call.depth, ← length_eq, enclosing]
  | insert _ => exact reflects.insert (congrArg Prod.fst answered) rfl
  | refuse _ _ => exact unchanged (depth_concat _ _) (fun id => by simp)
  | lookup => exact unchanged (depth_concat _ _) (fun id => by simp)
termination_by calls.length
decreasing_by
  all_goals subst_vars
  all_goals simp only [List.length_append, List.length_singleton]
  all_goals omega

/-- A declaration is refused: its name has a symbol in the innermost scope, and nothing changes. -/
structure Refuses (arena : Arena) (calls : List Call) (symbol : Symbol) (conflict : Redeclaration)
    (next : SymbolTable) : Prop where
  unchanged : next = after arena calls
  conflict_eq : ∃ id bound, Last arena calls (· = depth calls) symbol.name (some id) ∧
    (after arena calls).find? symbol.name = some id ∧
    (after arena calls).arena.get? id = some bound ∧
    conflict = ⟨symbol.name, bound.span, symbol.span⟩

/-- A symbol is added under a number that was not given before, and its name means it from now on. -/
structure Inserts (table : SymbolTable) (symbol : Symbol) (id : SymbolId) (next : SymbolTable) :
    Prop where
  fresh : table.arena.get? id = none
  added : next.arena.symbols = table.arena.symbols ++ [symbol]
  known : next.arena.get? id = some symbol
  bound : next.find? symbol.name = some id
  others : ∀ name, name ≠ symbol.name → next.find? name = table.find? name
  isGlobal_eq : next.scopes.isGlobal = table.scopes.isGlobal

/--
What a table does after some calls. A name means the symbol bound to it last in the innermost open
scope that binds it; closing a scope brings back what held before it was opened; and a symbol is
refused only where its own scope binds the name already and must not bind it again.
-/
structure ActsAsEnvironments (arena : Arena) (calls : List Call) : Prop where
  lookup : ∀ name, ∃ id, Last arena calls (fun _ => True) name id ∧
    (after arena calls).answer (.lookup name) = (.found id, after arena calls)
  isGlobal : (after arena calls).scopes.isGlobal = true ↔ depth calls = 0
  exit_global : depth calls = 0 →
    (after arena calls).answer .exit = (.fault .exitGlobalScope, after arena calls)
  exit_inner : depth calls ≠ 0 → ∃ before inside, OpenedBehind before inside calls
  exit_restores : ∀ before inside, OpenedBehind before inside calls →
    ∃ outer, (after arena calls).answer .exit = (.done, outer) ∧
      (∀ name, outer.find? name = (after arena before).find? name) ∧
      outer.scopes.isGlobal = (after arena before).scopes.isGlobal ∧
      outer.arena = (after arena calls).arena
  refuses_iff : ∀ symbol shadow,
    (∃ conflict, ((after arena calls).answer (.insert symbol shadow)).1 = .refused conflict) ↔
      shadow = false ∧
        ∃ earlier id, Binds arena calls earlier symbol.name id ∧ depth earlier = depth calls
  insert : ∀ symbol shadow,
    (∃ conflict next, (after arena calls).answer (.insert symbol shadow) =
        (.refused conflict, next) ∧ Refuses arena calls symbol conflict next) ∨
      ∃ id next, (after arena calls).answer (.insert symbol shadow) = (.inserted id, next) ∧
        Inserts (after arena calls) symbol id next

section

variable (arena : Arena) (calls : List Call)

theorem isGlobal_after : (after arena calls).scopes.isGlobal = true ↔ depth calls = 0 := by
  rw [ScopeStack.isGlobal, List.isEmpty_iff_length_eq_zero, length_enclosing_after]

theorem declare_inserts (table : SymbolTable) (symbol : Symbol) :
    Inserts table symbol table.arena.size (table.declare symbol).2 where
  fresh := List.getElem?_eq_none (Nat.le_refl _)
  added := rfl
  known := Arena.get?_add_size table.arena symbol
  bound := by
    simp [find?, declare, Arena.add, ScopeStack.lookup_bind]
  others := by
    intro name name_ne
    simp [find?, declare, Arena.add, ScopeStack.lookup_bind, name_ne.symm]
  isGlobal_eq := rfl

theorem innermost_binds_iff (name : Key) :
    (∃ binding, (after arena calls).scopes.innermost.find? name = some binding) ↔
      ∃ earlier id, Binds arena calls earlier name id ∧ depth earlier = depth calls := by
  have last := (reflects_after arena calls).innermost name
  cases found : (after arena calls).scopes.innermost.find? name with
  | none =>
      rw [found] at last
      cases last with
      | unbound free =>
          constructor
          · rintro ⟨binding, impossible⟩
            cases impossible
          · rintro ⟨earlier, id, binds, atDepth⟩
            exact absurd atDepth (free earlier id binds)
  | some binding =>
      rw [found] at last
      cases last with
      | bound binds atDepth _ => exact ⟨fun _ => ⟨_, _, binds, atDepth⟩, fun _ => ⟨_, rfl⟩⟩

/-- Whatever is done to a table, it acts as a stack of environments. -/
theorem acts_as_environments : ActsAsEnvironments arena calls where
  lookup name := ⟨_, (reflects_after arena calls).lookup name, rfl⟩
  isGlobal := isGlobal_after arena calls
  exit_global global := by
    have length_eq := length_enclosing_after arena calls
    rw [global] at length_eq
    simp only [answer, exit, ScopeStack.exit, List.eq_nil_of_length_eq_zero length_eq]
    rfl
  exit_inner := exists_openedBehind calls
  exit_restores before inside opened :=
    ⟨_, opened.answer_exit arena, fun _ => rfl, rfl, rfl⟩
  refuses_iff symbol shadow := by
    rw [← innermost_binds_iff]
    rcases answers_after arena calls (.insert symbol shadow) with ⟨answer, answered, answers⟩
    rw [answered]
    generalize after arena (calls ++ [.insert symbol shadow]) = next at answers
    cases answers with
    | insert free =>
        constructor
        · rintro ⟨conflict, impossible⟩
          cases impossible
        · rintro ⟨rfl, binding, found⟩
          rcases free with impossible | notFound
          · cases impossible
          · cases found.symm.trans notFound
    | refuse found _ => exact ⟨fun _ => ⟨rfl, _, found⟩, fun _ => ⟨_, rfl⟩⟩
  insert symbol shadow := by
    rcases answers_after arena calls (.insert symbol shadow) with ⟨answer, answered, answers⟩
    rw [answered]
    generalize after arena (calls ++ [.insert symbol shadow]) = next at answers
    cases answers with
    | insert _ => exact .inr ⟨_, _, rfl, declare_inserts _ symbol⟩
    | @refuse _ bound binding found known =>
        have last := (reflects_after arena calls).innermost symbol.name
        rw [found] at last
        have found_eq : (after arena calls).find? symbol.name = some binding.id := by
          rw [find?, ScopeStack.lookup_of_innermost found]
          rfl
        exact .inl ⟨_, _, rfl, rfl, binding.id, bound, last, found_eq, known, rfl⟩

end

/-- A name that is taken over in a scope has its earlier meaning behind the scope. -/
example :
    let outer : Symbol := { name := 7, span := .single 0, kind := .globalVariable }
    let inner : Symbol := { name := 7, span := .single 1, kind := .localVariable }
    let table := after .empty [.insert outer false, .enter, .insert inner true]
    table.find? 7 = some 1 ∧ (table.answer .exit).2.find? 7 = some 0 := by
  decide

end SymbolTable

end TypedLang
