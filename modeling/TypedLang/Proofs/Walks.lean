import TypedLang.Proofs.Walks.Entering

/-!
# Walks

A visitor that records the parts of a program and fails at one of them shows how far its walk got:
up to that part and no further. Otherwise its record has all parts, each of them once, in preorder.
-/

namespace TypedLang

variable {Error Value : Type}

namespace Part

/-- Records a part behind those that were entered before it, then fails if the record says so. -/
def record (failure? : List Part → Option Error) (part : Part) :
    ExceptT Error (StateM (List Part)) Unit := do
  modify (· ++ [part])
  match failure? (← get) with
  | some failure => throw failure
  | none => pure ()

/-- Fails when a number of parts is recorded. -/
def failAt (count : Nat) (failure : Error) (record : List Part) : Option Error :=
  if record.length = count then some failure else none

/-- Fails when a part is recorded that is a node of some kind. -/
def failOn (kind : NodeKind) (failure : Error) (record : List Part) : Option Error :=
  if record.getLast?.any (·.node.kind = kind) then some failure else none

variable {failure? : List Part → Option Error} {before rest : List Part} {part : Part}

theorem run_record (failure? : List Part → Option Error) (part : Part) (before : List Part) :
    (record failure? part).run.run before =
      (match failure? (before ++ [part]) with
        | some failure => .error failure
        | none => .ok (), before ++ [part]) := by
  change StateT.run (ExceptT.run (match failure? (before ++ [part]) with
    | some failure => throw failure
    | none => pure ())) (before ++ [part]) = _
  cases failure? (before ++ [part]) <;> rfl

theorem run_forM_cons_of_none (quiet : failure? (before ++ [part]) = none) :
    (forM (part :: rest) (record failure?)).run.run before =
      (forM rest (record failure?)).run.run (before ++ [part]) := by
  rw [List.forM_cons, ExceptT.run_bind, StateT.run_bind, run_record, quiet]
  rfl

theorem run_forM_cons_of_some {failure : Error}
    (fails : failure? (before ++ [part]) = some failure) :
    (forM (part :: rest) (record failure?)).run.run before =
      (.error failure, before ++ [part]) := by
  rw [List.forM_cons, ExceptT.run_bind, StateT.run_bind, run_record, fails]
  rfl

/-- A record that is no reason to fail at any part becomes complete. -/
theorem run_forM_of_none (before : List Part) {listed : List Part}
    (quiet : ∀ index < listed.length, failure? (before ++ listed.take (index + 1)) = none) :
    (forM listed (record failure?)).run.run before = (.ok (), before ++ listed) := by
  induction listed generalizing before with
  | nil =>
      rw [List.append_nil]
      rfl
  | cons part rest ih =>
      rw [run_forM_cons_of_none (quiet 0 (Nat.succ_pos _)), ih, List.append_assoc,
        List.singleton_append]
      intro index lt
      simpa using quiet (index + 1) (Nat.succ_lt_succ lt)

/-- The first record that is a reason to fail is the last one. -/
theorem run_forM_of_some (before : List Part) {listed : List Part} {index : Nat} {failure : Error}
    (index_lt : index < listed.length)
    (quiet : ∀ earlier < index, failure? (before ++ listed.take (earlier + 1)) = none)
    (fails : failure? (before ++ listed.take (index + 1)) = some failure) :
    (forM listed (record failure?)).run.run before =
      (.error failure, before ++ listed.take (index + 1)) := by
  induction listed generalizing before index with
  | nil => cases index_lt
  | cons part rest ih =>
      cases index with
      | zero => exact run_forM_cons_of_some fails
      | succ index =>
          rw [run_forM_cons_of_none (quiet 0 (Nat.succ_pos _)), ih, List.append_assoc]
          · rfl
          · exact Nat.lt_of_succ_lt_succ index_lt
          · intro earlier lt
            simpa using quiet (earlier + 1) (Nat.succ_lt_succ lt)
          · simpa using fails

end Part

namespace Program

/-- How a visit of a program that records its parts ends, and the record. -/
def trace (failure? : List Part → Option Error) (value : Value) (program : Program) :
    Except Error Value × List Part :=
  (program.accept (.entering (Part.record failure?) value)).run.run []

variable {program : Program} {listed : List Part} {failure? : List Part → Option Error}
  {value : Value}

theorem exists_preorder (program : Program) :
    ∃ listed, Part.Preorder [.program program] listed := by
  have pass : Part → ExceptT Unit Id Unit := fun _ => pure ()
  obtain ⟨listed, ordered, _⟩ := program.accept_enters pass ()
  exact ⟨listed, ordered⟩

/-- The parts of a program in preorder are the nodes of its tree. -/
theorem map_node (program : Program) (ordered : Part.Preorder [.program program] listed) :
    listed.map Part.node = program.tree.nodes := by
  have nodes_eq := ordered.map_node
  simpa [NodeTree.nodesOfAll, Part.tree] using nodes_eq

theorem trace_eq (ordered : Part.Preorder [.program program] listed) :
    program.trace failure? value = (do
      forM listed (Part.record failure?)
      pure value : ExceptT Error (StateM (List Part)) Value).run.run [] := by
  obtain ⟨others, orderedOthers, accept_eq⟩ :=
    program.accept_enters (Part.record failure?) value
  rw [trace, accept_eq, orderedOthers.unique ordered]

theorem trace_of_none (ordered : Part.Preorder [.program program] listed)
    (quiet : ∀ index < listed.length, failure? (listed.take (index + 1)) = none) :
    program.trace failure? value = (.ok value, listed) := by
  have recorded := Part.run_forM_of_none [] quiet
  rw [trace_eq ordered, ExceptT.run_bind, StateT.run_bind, recorded]
  rfl

theorem trace_of_some (ordered : Part.Preorder [.program program] listed) {index : Nat}
    {failure : Error} (index_lt : index < listed.length)
    (quiet : ∀ earlier < index, failure? (listed.take (earlier + 1)) = none)
    (fails : failure? (listed.take (index + 1)) = some failure) :
    program.trace failure? value = (.error failure, listed.take (index + 1)) := by
  have recorded := Part.run_forM_of_some [] index_lt quiet fails
  rw [trace_eq ordered, ExceptT.run_bind, StateT.run_bind, recorded]
  rfl

/-- A visit that fails at a given number of parts enters that many, if there are as many. -/
theorem trace_failAt (ordered : Part.Preorder [.program program] listed) (count : Nat)
    (failure : Error) :
    program.trace (Part.failAt count failure) value =
      if 0 < count ∧ count ≤ listed.length then (.error failure, listed.take count)
      else (.ok value, listed) := by
  have failAt_take : ∀ index < listed.length,
      Part.failAt count failure (listed.take (index + 1)) =
        if index + 1 = count then some failure else none := by
    intro index lt
    rw [Part.failAt, List.length_take_of_le lt]
  split
  · rename_i bounds
    rcases Nat.exists_eq_succ_of_ne_zero (Nat.ne_of_gt bounds.1) with ⟨index, rfl⟩
    have index_lt : index < listed.length := bounds.2
    refine trace_of_some ordered index_lt (fun earlier lt => ?_) ?_
    · rw [failAt_take earlier (Nat.lt_trans lt index_lt), if_neg (by omega)]
    · rw [failAt_take index index_lt, if_pos rfl]
  · refine trace_of_none ordered fun index lt => ?_
    rw [failAt_take index lt, if_neg (by omega)]

/-- A visit that fails at a kind of nodes stops at the first one of that kind. -/
theorem trace_failOn (ordered : Part.Preorder [.program program] listed) (kind : NodeKind)
    (failure : Error) :
    program.trace (Part.failOn kind failure) value =
      match listed.findIdx? (·.node.kind = kind) with
      | some index => (.error failure, listed.take (index + 1))
      | none => (.ok value, listed) := by
  have failOn_take : ∀ index (lt : index < listed.length),
      Part.failOn kind failure (listed.take (index + 1)) =
        if listed[index].node.kind = kind then some failure else none := by
    intro index lt
    rw [Part.failOn, ← List.take_append_getElem lt, List.getLast?_concat]
    simp only [Option.any_some, decide_eq_true_eq]
  split
  · rename_i index found
    rcases List.findIdx?_eq_some_iff_getElem.mp found with ⟨index_lt, isKind, others⟩
    refine trace_of_some ordered index_lt (fun earlier lt => ?_) ?_
    · rw [failOn_take earlier (Nat.lt_trans lt index_lt), if_neg (by simpa using others earlier lt)]
    · rw [failOn_take index index_lt, if_pos (by simpa using isKind)]
  · rename_i missing
    refine trace_of_none ordered fun index lt => ?_
    have other := List.findIdx?_eq_none_iff.mp missing _ (List.getElem_mem lt)
    rw [failOn_take index lt, if_neg (by simpa using other)]

end Program

/-- The type of a variable comes before its initializer. -/
theorem LetDecl.exists_order {decl : LetDecl} {below : List Part}
    (ordered : Part.Preorder (Part.letDecl decl).children below) :
    ∃ initializer, Part.Preorder (decl.initializer.toList.map .expression) initializer ∧
      below = .type decl.type :: initializer := by
  cases ordered with
  | cons inside initializer =>
      cases inside
      exact ⟨_, initializer, rfl⟩

/-- The parameters of a function come before its return type, and that comes before its body. -/
theorem FunDecl.exists_order {decl : FunDecl} {below : List Part}
    (ordered : Part.Preorder (Part.funDecl decl).children below) :
    ∃ parameters body, Part.Preorder (decl.parameters.map .parameter) parameters ∧
      Part.Preorder [.block decl.body] body ∧
      below = parameters ++ .type decl.returnType :: body := by
  obtain ⟨parameters, others, orderedParameters, orderedOthers, rfl⟩ := ordered.of_append
  cases orderedOthers with
  | cons inside body =>
      cases inside
      exact ⟨parameters, _, orderedParameters, body, rfl⟩

/-- The callee of a call comes before the arguments. -/
theorem Expr.exists_order_call {callee : Expr} {arguments : List Expr} {span : Span}
    {type : Option Ty} {below : List Part}
    (ordered : Part.Preorder (Part.call callee arguments span type).children below) :
    ∃ first others, Part.Preorder [.expression callee] first ∧
      Part.Preorder (arguments.map .expression) others ∧ below = first ++ others := by
  have both : Part.Preorder ([.expression callee] ++ arguments.map .expression) below := ordered
  obtain ⟨first, others, orderedFirst, orderedOthers, rfl⟩ := both.of_append
  exact ⟨first, others, orderedFirst, orderedOthers, rfl⟩

/--
A visit of a program that records the parts enters each of them once, in preorder: the type of a
variable before its initializer, the parameters of a function before its return type and that before
its body, the callee of a call before its arguments. These are the nodes of the tree of the program.
If the visit fails at a given number of parts or at the first node of some kind, then the record
ends there and the visit gives this failure; otherwise it succeeds. In a program that was parsed from
a text the starts of the nodes never descend.
-/
theorem Program.accept_shortCircuits (program : Program) (failure : Error) (value : Value) :
    let full := program.trace (fun _ => (none : Option Error)) value
    full.1 = .ok value ∧ Part.Preorder [.program program] full.2 ∧
    full.2.map Part.node = program.tree.nodes ∧
    (∀ decl, .letDecl decl ∈ full.2 → ∃ initializer,
      Part.Preorder (decl.initializer.toList.map .expression) initializer ∧
      .letDecl decl :: .type decl.type :: initializer <:+: full.2) ∧
    (∀ decl, .funDecl decl ∈ full.2 → ∃ parameters body,
      Part.Preorder (decl.parameters.map .parameter) parameters ∧
      Part.Preorder [.block decl.body] body ∧
      .funDecl decl :: (parameters ++ .type decl.returnType :: body) <:+: full.2) ∧
    (∀ callee arguments span type, .call callee arguments span type ∈ full.2 → ∃ first others,
      Part.Preorder [.expression callee] first ∧
      Part.Preorder (arguments.map .expression) others ∧
      .call callee arguments span type :: (first ++ others) <:+: full.2) ∧
    (∀ count, program.trace (Part.failAt count failure) value =
      if 0 < count ∧ count ≤ full.2.length then (.error failure, full.2.take count) else full) ∧
    (∀ kind, program.trace (Part.failOn kind failure) value =
      match full.2.findIdx? (·.node.kind = kind) with
      | some index => (.error failure, full.2.take (index + 1))
      | none => full) ∧
    ∀ source text interner, ((Parsed.ofTokens source
      ((Lexer.ofText source text interner).tokenize).1).program.trace
        (fun _ => (none : Option Error)) value).2.Pairwise
          fun part later => part.node.span.start ≤ later.node.span.start := by
  intro full
  obtain ⟨listed, ordered⟩ := program.exists_preorder
  have full_eq : full = (.ok value, listed) := trace_of_none ordered fun _ _ => rfl
  rw [full_eq]
  refine ⟨rfl, ordered, program.map_node ordered, ?ofVariable, ?ofFunction, ?ofCall,
    fun count => trace_failAt ordered count failure,
    fun kind => trace_failOn ordered kind failure, ?ofText⟩
  case ofVariable =>
    intro decl member
    obtain ⟨below, orderedBelow, stretch⟩ := ordered.behind member
    obtain ⟨initializer, orderedInitializer, rfl⟩ := LetDecl.exists_order orderedBelow
    exact ⟨initializer, orderedInitializer, stretch⟩
  case ofFunction =>
    intro decl member
    obtain ⟨below, orderedBelow, stretch⟩ := ordered.behind member
    obtain ⟨parameters, body, orderedParameters, orderedBody, rfl⟩ :=
      FunDecl.exists_order orderedBelow
    exact ⟨parameters, body, orderedParameters, orderedBody, stretch⟩
  case ofCall =>
    intro callee arguments span type member
    obtain ⟨below, orderedBelow, stretch⟩ := ordered.behind member
    obtain ⟨first, others, orderedFirst, orderedOthers, rfl⟩ := Expr.exists_order_call orderedBelow
    exact ⟨first, others, orderedFirst, orderedOthers, stretch⟩
  case ofText =>
    intro source text interner
    have ascending := Lexer.ascending_tokenize source text interner
    have nested := (Parsed.ofTokens_occupies source ascending).nested ascending
    obtain ⟨parts, orderedParts⟩ := Program.exists_preorder
      (Parsed.ofTokens source ((Lexer.ofText source text interner).tokenize).1).program
    have starts := nested.starts_ascend
    rw [← map_node _ orderedParts, List.pairwise_map] at starts
    rw [trace_of_none orderedParts fun _ _ => rfl]
    exact starts

end TypedLang
