import Mathlib.Data.List.Forall2
import TypedLang.Proofs.Scope.Arena
import TypedLang.Proofs.Scope.Violations

/-!
# Binding of identifiers

The scopes of the symbol table are an image of the context at the place that resolution has reached:
one scope for every level, in which each name is bound to the symbol of the declaration that the level
gives it. From this agreement follows what resolution does to a piece of a tree. It binds every
identifier to the declaration that it means, adds one symbol for every declaration, and reports the
violations of the scope rules.
-/

namespace TypedLang

/-- A binding stands for a declaration, whose symbol is in the arena. -/
structure Binding.StandsFor (arena : Arena) (binding : Binding) (declaration : Declaration) :
    Prop where
  symbol : declaration.symbol = some binding.id
  name : binding.name = declaration.name.key
  span : binding.span = declaration.name.span
  kind : binding.kind = declaration.kind
  entry : arena.get? binding.id = some declaration.entry

/-- A scope binds every name just as some declarations give it a meaning. -/
def Scope.Shows (arena : Arena) (scope : Scope) (meaning : Key → Option Declaration) : Prop :=
  ∀ key, Option.Rel (Binding.StandsFor arena) (scope.find? key) (meaning key)

/-- The meanings of names by the levels of a context, the global ones last. -/
def Context.meanings (context : Context) : List (Key → Option Declaration) :=
  context.levels.map Level.declaration? ++ [context.global?]

/-- The open scopes show a context, level by level. -/
def SymbolTable.Shows (table : SymbolTable) (context : Context) : Prop :=
  List.Forall₂ (Scope.Shows table.arena) (table.scopes.innermost :: table.scopes.enclosing)
    context.meanings

namespace Declaration

theorem first?_concat (declarations : List Declaration) (declaration : Declaration) (key : Key) :
    first? (declarations ++ [declaration]) key =
      (first? declarations key).or (if declaration.isNamed key then some declaration else none) := by
  rw [first?, List.find?_append, List.find?_singleton]
  rfl

theorem latest?_concat (declarations : List Declaration) (declaration : Declaration) (key : Key) :
    latest? (declarations ++ [declaration]) key =
      if declaration.isNamed key then some declaration else latest? declarations key := by
  rw [latest?, List.reverse_append, List.reverse_singleton, List.singleton_append, List.find?_cons]
  cases declaration.isNamed key <;> rfl

theorem first?_append (declarations others : List Declaration) (key : Key) :
    first? (declarations ++ others) key = (first? declarations key).or (first? others key) :=
  List.find?_append

end Declaration

theorem Scope.find?_cons (binding : Binding) (scope : Scope) (key : Key) :
    Scope.find? (binding :: scope) key =
      if binding.name == key then some binding else scope.find? key := by
  rw [Scope.find?, List.find?_cons]
  cases binding.name == key <;> rfl

namespace Scope.Shows

variable {arena : Arena} {scope : Scope} {binding : Binding} {declaration : Declaration}
  {declared : List Declaration}

/-- Adding symbols to the arena leaves all bindings as they are. -/
theorem later {meaning : Key → Option Declaration} {final : Arena} {added : List Declaration}
    (shows : scope.Shows arena meaning) (records : arena.Records added final) :
    scope.Shows final meaning := by
  intro key
  have found := shows key
  generalize scope.find? key = binding? at found ⊢
  generalize meaning key = declaration? at found ⊢
  cases found with
  | some standsFor =>
      exact .some { standsFor with entry := records.get?_of_get? standsFor.entry }
  | none => exact .none

theorem empty_first : Scope.Shows arena [] (Declaration.first? []) :=
  fun _ => .none

theorem empty_latest : Scope.Shows arena [] (Declaration.latest? []) :=
  fun _ => .none

/-- A new name is the first of its name. -/
theorem cons_first (shows : scope.Shows arena (Declaration.first? declared))
    (unused : Declaration.first? declared declaration.name.key = none)
    (standsFor : binding.StandsFor arena declaration) :
    Scope.Shows arena (binding :: scope) (Declaration.first? (declared ++ [declaration])) := by
  intro key
  rw [Scope.find?_cons, Declaration.first?_concat, Declaration.isNamed, standsFor.name]
  by_cases same : declaration.name.key = key
  · subst same
    simpa [unused] using standsFor
  · simpa [same] using shows key

/-- A name that is used already keeps its meaning. -/
theorem refused_first (shows : scope.Shows arena (Declaration.first? declared))
    {earlier : Declaration}
    (used : Declaration.first? declared declaration.name.key = some earlier) :
    Scope.Shows arena scope (Declaration.first? (declared ++ [declaration])) := by
  intro key
  rw [Declaration.first?_concat, Declaration.isNamed]
  by_cases same : declaration.name.key = key
  · subst same
    simpa [used] using shows declaration.name.key
  · simpa [same] using shows key

/-- A name that may be taken over means its latest declaration. -/
theorem cons_latest (shows : scope.Shows arena (Declaration.latest? declared))
    (standsFor : binding.StandsFor arena declaration) :
    Scope.Shows arena (binding :: scope) (Declaration.latest? (declared ++ [declaration])) := by
  intro key
  rw [Scope.find?_cons, Declaration.latest?_concat, Declaration.isNamed, standsFor.name]
  by_cases same : declaration.name.key = key
  · simpa [same] using standsFor
  · simpa [same] using shows key

end Scope.Shows

/-- The first scope that binds a name belongs to the first level that gives it a meaning. -/
theorem Scope.Shows.findSome? {arena : Arena} {scopes : List Scope}
    {meanings : List (Key → Option Declaration)}
    (shows : List.Forall₂ (Scope.Shows arena) scopes meanings) (key : Key) :
    Option.Rel (Binding.StandsFor arena) (scopes.findSome? fun scope => scope.find? key)
      (meanings.findSome? fun meaning => meaning key) := by
  induction shows with
  | nil => exact .none
  | @cons scope meaning scopes meanings head _ ih =>
      have found := head key
      rw [List.findSome?_cons, List.findSome?_cons]
      generalize scope.find? key = binding? at found ⊢
      generalize meaning key = declaration? at found ⊢
      cases found with
      | some standsFor => exact .some standsFor
      | none => exact ih

theorem Context.declaration?_eq_findSome? (context : Context) (key : Key) :
    context.declaration? key = context.meanings.findSome? fun meaning => meaning key := by
  rw [Context.declaration?, Context.meanings, List.findSome?_append, List.findSome?_map,
    List.findSome?_singleton]
  rfl

namespace SymbolTable.Shows

variable {table : SymbolTable} {context : Context}

/-- A name is bound just as its context gives it a meaning. -/
theorem lookup (shows : table.Shows context) (key : Key) :
    Option.Rel (Binding.StandsFor table.arena) (table.scopes.lookup key)
      (context.declaration? key) := by
  rw [ScopeStack.lookup, Context.declaration?_eq_findSome?]
  exact Scope.Shows.findSome? shows key

theorem later {final : Arena} {added : List Declaration} (shows : table.Shows context)
    (records : table.arena.Records added final) :
    SymbolTable.Shows { table with arena := final } context :=
  shows.imp fun _ _ scopeShows => scopeShows.later records

theorem enter_block (shows : table.Shows context) : table.enter.Shows (context.enter (.block [])) :=
  .cons .empty_latest shows

theorem enter_parameters (shows : table.Shows context) :
    table.enter.Shows (context.enter (.parameters [])) :=
  .cons .empty_first shows

theorem isGlobal (shows : table.Shows context) :
    table.scopes.isGlobal = context.levels.isEmpty := by
  have lengths := shows.length_eq
  simp only [Context.meanings, List.length_cons, List.length_append, List.length_map,
    List.length_nil] at lengths
  rw [ScopeStack.isGlobal, Bool.eq_iff_iff, List.isEmpty_iff_length_eq_zero,
    List.isEmpty_iff_length_eq_zero]
  omega

end SymbolTable.Shows

end TypedLang
