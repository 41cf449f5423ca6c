import Mathlib.Data.List.Basic
import TypedLang.Proofs.Scope.Visibility

/-!
# Growth of the arena

Resolution only ever adds symbols at the end of the arena, one for every declaration that it accepts,
and writes the number of the new symbol on the declaration. `Arena.Records` states this for a list of
declarations in the order of their symbols; everything else about symbol numbers follows from it.
-/

namespace TypedLang

namespace Arena

theorem size_add (arena : Arena) (symbol : Symbol) : (arena.add symbol).2.size = arena.size + 1 := by
  simp [add, size]

theorem get?_add_size (arena : Arena) (symbol : Symbol) :
    (arena.add symbol).2.get? arena.size = some symbol := by
  simp [add, get?, size]

theorem get?_add_of_get? {arena : Arena} {id : SymbolId} {known : Symbol} (symbol : Symbol)
    (found : arena.get? id = some known) : (arena.add symbol).2.get? id = some known := by
  simp only [add, get?] at found ⊢
  rw [List.getElem?_append_left (List.getElem?_eq_some_iff.mp found).1, found]

theorem lt_size_of_get? {arena : Arena} {id : SymbolId} {symbol : Symbol}
    (found : arena.get? id = some symbol) : id < arena.size :=
  (List.getElem?_eq_some_iff.mp found).1

/--
The arena `final` is `arena` with the symbols of some declarations added. A refused declaration has
no symbol; an accepted one carries the number of its own.
-/
inductive Records : Arena → List Declaration → Arena → Prop where
  | nil {arena : Arena} : Records arena [] arena
  | refused {arena final : Arena} {declaration : Declaration} {rest : List Declaration} :
      declaration.symbol = none → Records arena rest final →
      Records arena (declaration :: rest) final
  | accepted {arena final : Arena} {declaration : Declaration} {rest : List Declaration} :
      declaration.symbol = some arena.size →
      Records (arena.add declaration.entry).2 rest final →
      Records arena (declaration :: rest) final

namespace Records

variable {arena middle final : Arena} {declarations others : List Declaration}

theorem append (first : Records arena declarations middle)
    (second : Records middle others final) : Records arena (declarations ++ others) final := by
  induction first with
  | nil => exact second
  | refused unbound _ ih => exact .refused unbound (ih second)
  | accepted bound _ ih => exact .accepted bound (ih second)

theorem get?_of_get? (records : Records arena declarations final) {id : SymbolId}
    {symbol : Symbol} (found : arena.get? id = some symbol) : final.get? id = some symbol := by
  induction records with
  | nil => exact found
  | refused _ _ ih => exact ih found
  | accepted _ _ ih => exact ih (get?_add_of_get? _ found)

/-- An accepted declaration finds its own entry under its number. -/
theorem get?_of_symbol (records : Records arena declarations final) {declaration : Declaration}
    (member : declaration ∈ declarations) {id : SymbolId} (bound : declaration.symbol = some id) :
    final.get? id = some declaration.entry := by
  induction records with
  | nil => simp at member
  | refused unbound _ ih =>
      rcases List.mem_cons.mp member with rfl | member
      · simp [unbound] at bound
      · exact ih member
  | @accepted arena final head rest own records ih =>
      rcases List.mem_cons.mp member with rfl | member
      · have same : id = arena.size := by simpa [own] using bound.symm
        rw [same]
        exact records.get?_of_get? (get?_add_size arena declaration.entry)
      · exact ih member

theorem size_le_of_symbol (records : Records arena declarations final)
    {declaration : Declaration} (member : declaration ∈ declarations) {id : SymbolId}
    (bound : declaration.symbol = some id) : arena.size ≤ id := by
  induction records with
  | nil => simp at member
  | refused unbound _ ih =>
      rcases List.mem_cons.mp member with rfl | member
      · simp [unbound] at bound
      · exact ih member
  | @accepted arena final head rest own _ ih =>
      rcases List.mem_cons.mp member with rfl | member
      · have same : id = arena.size := by simpa [own] using bound.symm
        exact Nat.le_of_eq same.symm
      · have later := ih member
        rw [size_add] at later
        omega

/-- The numbers that are given count on from the size of the arena, without a gap. -/
theorem symbols_eq_range (records : Records arena declarations final) :
    declarations.filterMap Declaration.symbol =
      List.range' arena.size (declarations.filterMap Declaration.symbol).length := by
  induction records with
  | nil => rfl
  | refused unbound _ ih => simpa [List.filterMap_cons, unbound] using ih
  | accepted own _ ih =>
      rw [size_add] at ih
      simp only [List.filterMap_cons, own, List.length_cons, List.range'_succ]
      exact congrArg _ ih

/-- The symbols that were there before stay as they are. -/
theorem symbols_prefix (records : Records arena declarations final) :
    arena.symbols <+: final.symbols := by
  induction records with
  | nil => exact List.prefix_refl _
  | refused _ _ ih => exact ih
  | accepted _ _ ih => exact (List.prefix_append _ _).trans ih

/-- No two declarations share a number. -/
theorem symbols_nodup (records : Records arena declarations final) :
    (declarations.filterMap Declaration.symbol).Nodup := by
  induction records with
  | nil => exact List.nodup_nil
  | refused unbound _ ih => simpa [List.filterMap_cons, unbound] using ih
  | @accepted arena final head rest own records ih =>
      simp only [List.filterMap_cons, own, List.nodup_cons]
      refine ⟨?_, ih⟩
      intro member
      rcases List.mem_filterMap.mp member with ⟨declaration, declarationMem, bound⟩
      have later := records.size_le_of_symbol declarationMem bound
      rw [size_add] at later
      omega

theorem size_eq (records : Records arena declarations final) :
    final.size = arena.size + (declarations.filterMap Declaration.symbol).length := by
  induction records with
  | nil => rfl
  | refused unbound _ ih => simpa [List.filterMap_cons, unbound] using ih
  | accepted own _ ih =>
      rw [size_add] at ih
      simp only [List.filterMap_cons, own, List.length_cons]
      omega

end Records

end Arena

end TypedLang
