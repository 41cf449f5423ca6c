import Mathlib.Data.List.Induction
import TypedLang.Proofs.Scope.Guard

/-!
# Calls on a symbol table

A table is asked to open a scope, to close one, to insert a symbol or to look a name up. Which scopes
are open can be told from the calls alone: a scope is open as long as the number of open scopes has
not fallen below the one with it. While it is open, the scopes around it stay as they are, so that
closing it gives back the scopes that were open before.
-/

namespace TypedLang

namespace SymbolTable

/-- What a table may be asked for. -/
inductive Call where
  | enter
  | exit
  | insert (symbol : Symbol) (shadow : Bool)
  | lookup (name : Key)
  deriving Repr, DecidableEq

/-- What a table answers. -/
inductive Answer where
  | done
  | inserted (id : SymbolId)
  | refused (conflict : Redeclaration)
  | found (id : Option SymbolId)
  | fault (fault : Fault)
  deriving Repr, DecidableEq

/-- The symbol that a name is bound to. -/
def find? (table : SymbolTable) (name : Key) : Option SymbolId :=
  (table.scopes.lookup name).map Binding.id

/-- What a table answers to a call, and the table behind it. A fault leaves the table as it was. -/
def answer (table : SymbolTable) : Call → Answer × SymbolTable
  | .enter => (.done, table.enter)
  | .exit =>
      match table.exit with
      | .ok outer => (.done, outer)
      | .error fault => (.fault fault, table)
  | .insert symbol shadow =>
      match table.tryInsert symbol shadow with
      | .ok (.ok id, next) => (.inserted id, next)
      | .ok (.error conflict, next) => (.refused conflict, next)
      | .error fault => (.fault fault, table)
  | .lookup name => (.found (table.find? name), table)

/-- A new table over an arena, after some calls. -/
def after (arena : Arena) (calls : List Call) : SymbolTable :=
  calls.foldl (fun table call => (table.answer call).2) (ofArena arena)

@[simp]
theorem after_nil (arena : Arena) : after arena [] = ofArena arena :=
  rfl

@[simp]
theorem after_concat (arena : Arena) (calls : List Call) (call : Call) :
    after arena (calls ++ [call]) = ((after arena calls).answer call).2 := by
  simp [after]

/-- All that a table may do in answer to a call. -/
inductive Answers (table : SymbolTable) : Call → Answer → SymbolTable → Prop where
  | enter : Answers table .enter .done table.enter
  | exit {outer : Scope} {rest : List Scope} : table.scopes.enclosing = outer :: rest →
      Answers table .exit .done ⟨table.arena, ⟨outer, rest⟩⟩
  | stay : table.scopes.enclosing = [] → Answers table .exit (.fault .exitGlobalScope) table
  | insert {symbol : Symbol} {shadow : Bool} :
      shadow = true ∨ table.scopes.innermost.find? symbol.name = none →
      Answers table (.insert symbol shadow) (.inserted table.arena.size) (table.declare symbol).2
  | refuse {symbol bound : Symbol} {binding : Binding} :
      table.scopes.innermost.find? symbol.name = some binding →
      table.arena.get? binding.id = some bound →
      Answers table (.insert symbol false) (.refused ⟨symbol.name, bound.span, symbol.span⟩) table
  | lookup {name : Key} : Answers table (.lookup name) (.found (table.find? name)) table

theorem Sound.answers {table : SymbolTable} (sound : table.Sound) (call : Call) :
    table.Answers call (table.answer call).1 (table.answer call).2 := by
  cases call with
  | enter => exact .enter
  | exit =>
      simp only [answer, SymbolTable.exit, ScopeStack.exit]
      rcases enclosing : table.scopes.enclosing with _ | ⟨outer, rest⟩
      · exact .stay enclosing
      · exact .exit enclosing
  | insert symbol shadow =>
      rcases bound : table.scopes.innermost.find? symbol.name with _ | binding
      · cases shadow <;> simp only [answer, tryInsert, bound] <;> exact .insert (.inr bound)
      · cases shadow with
        | true => exact .insert (.inl rfl)
        | false =>
            rcases sound _ List.mem_cons_self binding (List.mem_of_find?_eq_some bound) with
              ⟨symbol, known, _⟩
            simp only [answer, tryInsert, bound, Arena.get_of_get? known]
            exact .refuse bound known
  | lookup name => exact .lookup

theorem Answers.sound {table next : SymbolTable} {call : Call} {answer : Answer}
    (answers : table.Answers call answer next) (sound : table.Sound) : next.Sound := by
  cases answers with
  | enter => exact sound.enter
  | exit enclosing =>
      intro scope member
      apply sound
      rw [enclosing]
      exact List.mem_cons_of_mem _ member
  | insert _ => exact sound.declare _
  | stay _ | refuse _ _ | lookup => exact sound

theorem sound_after (arena : Arena) (calls : List Call) : (after arena calls).Sound := by
  induction calls using List.reverseRecOn with
  | nil => exact Sound.ofArena arena
  | append_singleton calls call ih =>
      rw [after_concat]
      exact (ih.answers call).sound ih

/-- A call is answered in one of the ways in which a table may answer. -/
theorem answers_after (arena : Arena) (calls : List Call) (call : Call) :
    ∃ answer, (after arena calls).answer call = (answer, after arena (calls ++ [call])) ∧
      (after arena calls).Answers call answer (after arena (calls ++ [call])) := by
  rw [after_concat]
  exact ⟨_, rfl, (sound_after arena calls).answers call⟩

/-- The number of open scopes around the innermost one, before and after a call. -/
def Call.depth : Call → Nat → Nat
  | enter, depth => depth + 1
  | exit, depth => depth - 1
  | insert _ _, depth => depth
  | lookup _, depth => depth

/-- The number of scopes around the innermost one after some calls. The global one stays open. -/
def depth (calls : List Call) : Nat :=
  calls.foldl (fun depth call => call.depth depth) 0

@[simp]
theorem depth_concat (calls : List Call) (call : Call) :
    depth (calls ++ [call]) = call.depth (depth calls) := by
  simp [depth]

theorem length_enclosing_after (arena : Arena) (calls : List Call) :
    (after arena calls).scopes.enclosing.length = depth calls := by
  induction calls using List.reverseRecOn with
  | nil => rfl
  | append_singleton calls call ih =>
      rcases answers_after arena calls call with ⟨answer, _, answers⟩
      generalize after arena (calls ++ [call]) = next at answers ⊢
      rw [depth_concat, ← ih]
      cases answers with
      | enter => rfl
      | exit enclosing => simp [Call.depth, enclosing]
      | stay enclosing => simp [Call.depth, enclosing]
      | insert _ | refuse _ _ | lookup => rfl

/-- The scope that is innermost after some calls stays open during later ones. -/
def StaysOpen (earlier later : List Call) : Prop :=
  ∀ reached, reached <+: later → depth earlier ≤ depth (earlier ++ reached)

namespace StaysOpen

variable {earlier middle later : List Call}

theorem nil (calls : List Call) : StaysOpen calls [] := by
  intro reached isPrefix
  simp [List.prefix_nil.mp isPrefix]

theorem depth_le (stays : StaysOpen earlier later) : depth earlier ≤ depth (earlier ++ later) :=
  stays later (List.prefix_refl later)

theorem of_append (stays : StaysOpen earlier (middle ++ later)) : StaysOpen earlier middle :=
  fun reached isPrefix => stays reached (isPrefix.trans (List.prefix_append _ _))

theorem append (stays : StaysOpen earlier middle) (others : StaysOpen (earlier ++ middle) later) :
    StaysOpen earlier (middle ++ later) := by
  intro reached isPrefix
  rcases List.prefix_or_prefix_of_prefix isPrefix (List.prefix_append middle later) with
    inside | ⟨further, rfl⟩
  · exact stays reached inside
  · rw [← List.append_assoc]
    apply Nat.le_trans stays.depth_le
    apply others
    exact (List.prefix_append_right_inj middle).mp isPrefix

theorem concat (stays : StaysOpen earlier later) {call : Call}
    (stillOpen : depth earlier ≤ depth (earlier ++ later ++ [call])) :
    StaysOpen earlier (later ++ [call]) := by
  intro reached isPrefix
  rcases List.prefix_concat_iff.mp isPrefix with rfl | inside
  · rwa [← List.append_assoc]
  · exact stays reached inside

end StaysOpen

/-- The scope that is innermost after some calls was opened by the call behind `before`. -/
structure OpenedBehind (before inside calls : List Call) : Prop where
  calls_eq : calls = before ++ [.enter] ++ inside
  stays : StaysOpen (before ++ [.enter]) inside
  depth_eq : depth calls = depth before + 1

namespace OpenedBehind

variable {before inside calls : List Call}

theorem concat (opened : OpenedBehind before inside calls) {call : Call}
    (same : depth (calls ++ [call]) = depth calls) :
    OpenedBehind before (inside ++ [call]) (calls ++ [call]) := by
  rcases opened with ⟨rfl, stays, depth_eq⟩
  refine ⟨List.append_assoc _ _ _, ?_, by rw [same, depth_eq]⟩
  apply stays.concat
  rw [same, depth_eq, depth_concat]
  exact Nat.le_refl _

/-- While a scope is open, the scope around it stays open. -/
theorem around_stays (opened : OpenedBehind before inside calls) :
    StaysOpen before ([.enter] ++ inside) := by
  apply StaysOpen.append
  · exact (StaysOpen.nil before).concat (by simp [Call.depth])
  · intro reached isPrefix
    have deeper := opened.stays reached isPrefix
    have opening : depth (before ++ [.enter]) = depth before + 1 := depth_concat _ _
    omega

/-- When a scope is closed again, the one that was innermost before is so again. -/
theorem close {outerBefore outerInside : List Call} (opened : OpenedBehind before inside calls)
    (outer : OpenedBehind outerBefore outerInside before) :
    OpenedBehind outerBefore (outerInside ++ ([.enter] ++ inside) ++ [.exit])
      (calls ++ [.exit]) := by
  have around := opened.around_stays
  rcases opened with ⟨rfl, stays, depth_eq⟩
  have closed : depth (before ++ [.enter] ++ inside ++ [.exit]) = depth outerBefore + 1 := by
    rw [depth_concat, depth_eq, outer.depth_eq]
    rfl
  rcases outer with ⟨rfl, outerStays, _⟩
  refine ⟨by simp only [List.append_assoc], ?_, closed⟩
  apply (outerStays.append around).concat
  simp only [List.append_assoc] at closed ⊢
  rw [closed, depth_concat]
  exact Nat.le_refl _

end OpenedBehind

/-- Any scope but the global one was opened by a call. -/
theorem exists_openedBehind (calls : List Call) (inner : depth calls ≠ 0) :
    ∃ before inside, OpenedBehind before inside calls := by
  rcases List.eq_nil_or_concat' calls with rfl | ⟨earlier, call, rfl⟩
  · exact absurd rfl inner
  rw [depth_concat] at inner
  cases call with
  | enter => exact ⟨earlier, [], by simp, .nil _, depth_concat _ _⟩
  | exit =>
      have deeper : depth earlier ≠ 0 := by
        intro global
        simp [Call.depth, global] at inner
      rcases exists_openedBehind earlier deeper with ⟨before, inside, opened⟩
      have still : depth before ≠ 0 := by
        have depth_eq := opened.depth_eq
        simp only [Call.depth] at inner
        omega
      have shorter : before.length < earlier.length := by
        have length_eq := congrArg List.length opened.calls_eq
        simp only [List.length_append, List.length_singleton] at length_eq
        omega
      rcases exists_openedBehind before still with ⟨outerBefore, outerInside, outer⟩
      exact ⟨_, _, opened.close outer⟩
  | insert symbol shadow =>
      rcases exists_openedBehind earlier inner with ⟨before, inside, opened⟩
      exact ⟨_, _, opened.concat (depth_concat _ _)⟩
  | lookup name =>
      rcases exists_openedBehind earlier inner with ⟨before, inside, opened⟩
      exact ⟨_, _, opened.concat (depth_concat _ _)⟩
termination_by calls.length
decreasing_by
  all_goals subst_vars
  all_goals simp only [List.length_append, List.length_singleton]
  all_goals omega

/-- While a scope stays open, the scopes around it stay as they are. -/
theorem enclosing_suffix (arena : Arena) {earlier later : List Call}
    (stays : StaysOpen earlier later) :
    (after arena earlier).scopes.enclosing <:+
      (after arena (earlier ++ later)).scopes.enclosing := by
  induction later using List.reverseRecOn with
  | nil => simp
  | append_singleton later call ih =>
      have stillOpen := stays.depth_le
      have isSuffix := ih stays.of_append
      have length_eq := length_enclosing_after arena earlier
      have length_next_eq := length_enclosing_after arena (earlier ++ later ++ [call])
      rcases answers_after arena (earlier ++ later) call with ⟨answer, _, answers⟩
      rw [← List.append_assoc] at stillOpen ⊢
      generalize after arena (earlier ++ later ++ [call]) = next at *
      cases answers with
      | enter => exact isSuffix.trans (List.suffix_cons _ _)
      | exit enclosing =>
          rw [enclosing] at isSuffix
          rcases List.suffix_cons_iff.mp isSuffix with same | isSuffix
          · -- The scope around would have been closed as well.
            have lengths := congrArg List.length same
            simp only [List.length_cons] at lengths length_next_eq
            omega
          · exact isSuffix
      | stay _ | insert _ | refuse _ _ | lookup => exact isSuffix

namespace OpenedBehind

variable {before inside calls : List Call}

/-- Around a scope stand the scopes that were open when it was opened, as they were then. -/
theorem enclosing_eq (opened : OpenedBehind before inside calls) (arena : Arena) :
    (after arena calls).scopes.enclosing =
      (after arena before).scopes.innermost :: (after arena before).scopes.enclosing := by
  have isSuffix := enclosing_suffix arena opened.stays
  rw [← opened.calls_eq] at isSuffix
  have same := isSuffix.eq_of_length (by
    rw [length_enclosing_after, length_enclosing_after, opened.depth_eq, depth_concat]
    rfl)
  rw [← same, after_concat]
  rfl

/-- Closing a scope gives back the scopes that were open before it was opened. -/
theorem answer_exit (opened : OpenedBehind before inside calls) (arena : Arena) :
    (after arena calls).answer .exit =
      (.done, ⟨(after arena calls).arena, (after arena before).scopes⟩) := by
  simp only [answer, SymbolTable.exit, ScopeStack.exit, opened.enclosing_eq arena]
  rfl

end OpenedBehind

end SymbolTable

end TypedLang
