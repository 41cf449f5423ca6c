import TypedLang.Proofs.Parsing.Fresh
import TypedLang.Proofs.Scope.Coverage
import TypedLang.Proofs.Scope.Guard

/-!
# Correctness of name resolution

The main results about resolution: in a tree of the parser it binds every identifier as the rules of
visibility say, and reports exactly the violations of the scope rules. Guarded resolution, which is
what a run does, gives the same.
-/

namespace TypedLang

/--
Resolution of a parsed program changes nothing but symbols. Every identifier gets the symbol of the
declaration that it means, or none if it means nothing, and no two declarations share a symbol.
-/
theorem Program.resolve_binds_identifiers (source : SourceId) (tokens : List Token)
    (arena : Arena) :
    let program := (Parsed.ofTokens source tokens).program
    let resolution := program.resolve arena
    program.tryResolve arena = .ok resolution ∧
      resolution.program.withoutSymbols = program ∧
      resolution.program.occurrences.map Occurrence.node =
        Node.identifiers resolution.program.tree.nodes ∧
      (∀ occurrence ∈ resolution.program.occurrences, occurrence.IsBound resolution.arena) ∧
      (resolution.program.allDeclarations.filterMap Declaration.symbol).Nodup := by
  intro program resolution
  have fresh : program.symbols = [] := Parsed.symbols_eq_nil source tokens
  rcases program.resolve_conforms arena fresh with ⟨records, bound, _⟩
  refine ⟨program.tryResolve_eq arena fresh, ?_, resolution.program.map_node_occurrences, ?_,
    records.symbols_nodup⟩
  · rw [program.withoutSymbols_resolve arena, program.withoutSymbols_of_fresh fresh]
  · intro occurrence member
    exact Occurrence.isBound_of_mem bound member

/--
Resolution of a parsed program reports exactly the violations of the scope rules, in some order, so
it reports none just if the program keeps the rules.
-/
theorem Program.resolve_reports_violations (source : SourceId) (tokens : List Token)
    (arena : Arena) :
    let program := (Parsed.ofTokens source tokens).program
    let resolution := program.resolve arena
    program.tryResolve arena = .ok resolution ∧ resolution.errors.Perm program.scopeErrors ∧
      (resolution.errors = [] ↔ program.WellScoped) := by
  intro program resolution
  have fresh : program.symbols = [] := Parsed.symbols_eq_nil source tokens
  have perm : resolution.errors.Perm program.scopeErrors := resolve_errors_perm arena fresh
  refine ⟨program.tryResolve_eq arena fresh, perm, ?_⟩
  rw [← program.scopeErrors_eq_nil_iff]
  constructor
  · intro none
    exact List.nil_perm.mp (none ▸ perm)
  · intro none
    exact List.perm_nil.mp (none ▸ perm)

end TypedLang
