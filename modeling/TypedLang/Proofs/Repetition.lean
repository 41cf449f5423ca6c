import TypedLang.Proofs.Parsing.Fresh
import TypedLang.Proofs.Scope.Repetition
import TypedLang.Proofs.Typing.Repetition

/-!
# Resolution can be repeated

The symbols that a run of resolution leaves in a tree do no harm to the next run. It reports the same
errors, adds the same symbols to the arena once more, and binds the tree to the new ones, which the
checker then types like the old ones. It makes no difference whether the tree was checked in between.
-/

namespace TypedLang

/-- The numbers behind an arena, pushed on; those of the arena itself stay. -/
def Arena.push (arena : Arena) (distance id : Nat) : Nat :=
  if id < arena.size then id else id + distance

theorem Arena.push_injective (arena : Arena) (distance : Nat) :
    (arena.push distance).Injective := by
  intro id other same
  simp only [push] at same
  split at same <;> split at same <;> omega

theorem Arena.push_shifts {arena middle : Arena} {distance : Nat}
    (size_eq : middle.size = arena.size + distance) :
    arena.Shifts middle (arena.push distance) := by
  intro added
  rw [push, if_neg (Nat.not_lt.mpr (Nat.le_add_right _ _)), size_eq]
  exact Nat.add_right_comm _ _ _

theorem Arena.add_shifts {arena middle : Arena} {distance : Nat}
    (size_eq : middle.size = arena.size + distance) : arena.Shifts middle (· + distance) := by
  intro added
  rw [size_eq]
  exact Nat.add_right_comm _ _ _

/-- Behind both runs the symbols of the first one stand at the numbers of the second one as well. -/
theorem Arena.mirroredIn_push {arena middle : Arena} {added : List Symbol}
    (size_eq : middle.size = arena.size + added.length)
    (kept : ∀ id < arena.size, middle.get? id = arena.get? id) :
    Arena.MirroredIn (arena.push added.length) ⟨arena.symbols ++ added⟩
      ⟨middle.symbols ++ added⟩ := by
  intro (id : Nat)
  rw [push]
  split
  · rename_i below
    have belowMiddle : id < middle.size := by omega
    rw [get?, get?, List.getElem?_append_left below, List.getElem?_append_left belowMiddle]
    exact kept id below
  · rename_i above
    have aboveMiddle : middle.size ≤ id + added.length := by omega
    rw [get?, get?, List.getElem?_append_right (Nat.le_of_not_lt above),
      List.getElem?_append_right aboveMiddle]
    congr 1
    simp only [size] at size_eq
    omega

/-- The symbols that declarations add have no type yet. -/
theorem Arena.Records.exists_added {arena final : Arena} {declarations : List Declaration}
    (records : arena.Records declarations final) :
    ∃ added, final.symbols = arena.symbols ++ added ∧ ∀ symbol ∈ added, symbol.type = none := by
  induction records with
  | nil => exact ⟨[], (List.append_nil _).symm, nofun⟩
  | refused _ _ ih => exact ih
  | @accepted arena final declaration rest _ _ ih =>
      rcases ih with ⟨added, symbols_eq, untyped⟩
      refine ⟨declaration.entry :: added, ?_, ?_⟩
      · rw [symbols_eq]
        exact List.append_assoc _ _ _
      · exact List.forall_mem_cons.mpr ⟨rfl, untyped⟩

theorem Program.check_eq_checkKnown {program : Program} {arena : Arena}
    (known : ∀ id ∈ program.symbols, id < arena.size) :
    program.check arena = .ok (program.checkKnown arena) := by
  rw [check, if_pos]
  simpa only [List.all_eq_true, decide_eq_true_eq] using known

/--
A program that was resolved is resolved again, over the arena as it is by then. The errors are those
of the first run, the symbols that the first run added are added once more, and all symbols of the
tree are moved on by their number; what the checker reports then is what it reported before.
-/
structure Resolution.RepeatedBy (first : Resolution) (added : List Symbol)
    (typeErrors : List TypeError) (program : Program) (arena : Arena) (second : Resolution)
    (rechecked : Checked Program) : Prop where
  resolves : program.tryResolve arena = .ok second
  errors : second.errors = first.errors
  arena : second.arena.symbols = arena.symbols ++ added
  program : second.program = program.renumber (· + added.length)
  checks : second.program.check second.arena = .ok rechecked
  typeErrors : rechecked.errors = typeErrors

namespace Program

/-- A program that was resolved, with or without types by now, is resolved and checked again. -/
theorem resolve_repeated {program again : Program} {arena middle : Arena} {added : List Symbol}
    (fresh : program.symbols = [])
    (symbols_eq : (program.resolve arena).arena.symbols = arena.symbols ++ added)
    (known : ∀ id ∈ (program.resolve arena).program.symbols, id < arena.size + added.length)
    (same : again.withoutTypes = (program.resolve arena).program.withoutTypes)
    (size_eq : middle.size = arena.size + added.length)
    (kept : ∀ id < arena.size, middle.get? id = arena.get? id) :
    ∃ second rechecked, (program.resolve arena).RepeatedBy added
      ((program.resolve arena).program.checkKnown (program.resolve arena).arena).errors
      again middle second rechecked := by
  rcases tryResolve_again (Arena.add_shifts size_eq) fresh same with ⟨_, added_eq, resolves⟩
  cases List.append_cancel_left (added_eq.symm.trans symbols_eq)
  -- The numbering that leaves the symbols of the first arena alone does the same to the tree.
  rcases tryResolve_again (Arena.push_shifts size_eq) fresh same with ⟨_, added_eq, pushes⟩
  cases List.append_cancel_left (added_eq.symm.trans symbols_eq)
  have pushed : again.renumber (· + added.length) = again.renumber (arena.push added.length) := by
    have same := resolves.symm.trans pushes
    simp only [Except.ok.injEq, Resolution.mk.injEq] at same
    exact same.1
  have symbols_again : again.symbols = (program.resolve arena).program.symbols := by
    rw [← again.symbols_withoutTypes, same, symbols_withoutTypes]
  have knownAgain : ∀ id ∈ (again.renumber (· + added.length)).symbols,
      id < Arena.size ⟨middle.symbols ++ added⟩ := by
    rw [symbols_renumber, symbols_again]
    intro id member
    rcases List.mem_map.mp member with ⟨number, numberMem, rfl⟩
    rw [Arena.size, List.length_append]
    apply Nat.add_lt_add_right
    exact Nat.lt_of_lt_of_eq (known number numberMem) size_eq.symm
  have mirrored := Arena.mirroredIn_push size_eq kept
  rw [← symbols_eq] at mirrored
  have checked := checkKnown_mirroredIn (arena.push_injective _) mirrored again
  have untyped := congrArg Prod.snd (again.checkKnown_withoutTypes (program.resolve arena).arena)
  have firstUntyped := congrArg Prod.snd
    ((program.resolve arena).program.checkKnown_withoutTypes (program.resolve arena).arena)
  rw [same] at untyped
  refine ⟨_, _, resolves, rfl, rfl, rfl, check_eq_checkKnown knownAgain, ?_⟩
  rw [pushed, checked.errors]
  exact untyped.symm.trans firstUntyped

end Program

/--
Resolution of a parsed program can be repeated, over any arena, before or after the program is
checked. The second run reports the same errors, adds the same symbols without types, and moves all
symbols of the tree on by their number; the types are checked with the same errors as before.
-/
theorem Program.resolve_repeats (source : SourceId) (tokens : List Token) (arena : Arena) :
    let program := (Parsed.ofTokens source tokens).program
    ∃ first added checked, program.tryResolve arena = .ok first ∧
      first.arena.symbols = arena.symbols ++ added ∧ (∀ symbol ∈ added, symbol.type = none) ∧
      first.program.check first.arena = .ok checked ∧
      (∃ second rechecked, first.RepeatedBy added checked.errors first.program first.arena second
        rechecked) ∧
      ∃ second rechecked, first.RepeatedBy added checked.errors checked.piece checked.arena second
        rechecked := by
  intro program
  have fresh : program.symbols = [] := Parsed.symbols_eq_nil source tokens
  rcases program.resolve_conforms arena fresh with ⟨records, bound, _⟩
  rcases records.exists_added with ⟨added, symbols_eq, untyped⟩
  have size_eq : (program.resolve arena).arena.size = arena.size + added.length := by
    rw [Arena.size, symbols_eq, List.length_append]
    rfl
  have known : ∀ id ∈ (program.resolve arena).program.symbols, id < arena.size + added.length := by
    intro id member
    rw [← size_eq]
    exact lt_size_of_mem_symbols records bound member
  have kept : ∀ id < arena.size, (program.resolve arena).arena.get? id = arena.get? id := by
    intro id below
    rw [Arena.get?, symbols_eq, List.getElem?_append_left below]
    rfl
  have writes := (program.resolve arena).program.checkKnown_writesOnly (program.resolve arena).arena
  have checks : (program.resolve arena).program.check (program.resolve arena).arena =
      .ok ((program.resolve arena).program.checkKnown (program.resolve arena).arena) := by
    apply check_eq_checkKnown
    rw [size_eq]
    exact known
  refine ⟨_, added, _, program.tryResolve_eq arena fresh, symbols_eq, untyped, checks, ?_, ?_⟩
  · exact resolve_repeated fresh symbols_eq known rfl size_eq kept
  · apply resolve_repeated fresh symbols_eq known
    · exact withoutTypes_checkKnown _ _
    · rw [writes.size_eq, size_eq]
    · intro id below
      rw [writes.kept id, kept id below]
      intro member
      rcases List.mem_map.mp member with ⟨declaration, declarationMem, own⟩
      have above := records.size_le_of_symbol
        ((allDeclarations_perm _).mem_iff.mpr declarationMem) own
      omega

end TypedLang
