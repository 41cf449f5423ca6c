import TypedLang.Proofs.Reports.Reportable
import TypedLang.Proofs.Scope.Guard
import TypedLang.Proofs.Stages
import TypedLang.Proofs.Typing.Programs

/-!
# Compilation never fails

Whatever bytes a text has, a run ends with an outcome: no stage meets a fault, and all reports can be
built. A stage that reports errors is behind stages that found none, so what it points to is in a
program that was parsed without errors, where the marks stand apart.
-/

namespace TypedLang

mutual

theorem Stmt.length_declarations_le : (statement : Stmt) →
    statement.declarations.length ≤ statement.marks.length
  | .expression _ _ => Nat.zero_le _
  | .letDecl _ => Nat.succ_le_succ (Nat.zero_le _)
  | .block statements _ => Stmt.length_declarationsOfAll_le statements
  | .returning _ _ => Nat.zero_le _

theorem Stmt.length_declarationsOfAll_le : (statements : List Stmt) →
    (Stmt.declarationsOfAll statements).length ≤ (Stmt.marksOfAll statements).length
  | [] => Nat.le_refl _
  | first :: rest => by
      rw [Stmt.declarationsOfAll, Stmt.marksOfAll, List.length_append, List.length_append]
      exact Nat.add_le_add first.length_declarations_le (Stmt.length_declarationsOfAll_le rest)

end

theorem Decl.length_typings_le (decl : Decl) : decl.typings.length ≤ decl.marks.length := by
  cases decl with
  | funDecl decl =>
      have body := Stmt.length_declarationsOfAll_le decl.body.statements
      simp only [Decl.typings, FunDecl.declarations, Decl.marks, FunDecl.marks, List.length_cons,
        List.length_append, List.length_map]
      omega
  | letDecl decl => exact Nat.succ_le_succ (Nat.zero_le _)

/-- Every declaration has a mark of its own. -/
theorem Program.length_allDeclarations_le (program : Program) :
    program.allDeclarations.length ≤ program.marks.length := by
  rw [program.allDeclarations_perm.length_eq, marks]
  induction program.declarations with
  | nil => exact Nat.le_refl _
  | cons decl rest ih =>
      rw [List.flatMap_cons, List.flatMap_cons, List.length_append, List.length_append]
      exact Nat.add_le_add decl.length_typings_le ih

theorem Program.marks_resolve (program : Program) (arena : Arena) (fresh : program.symbols = []) :
    (program.resolve arena).program.marks = program.marks := by
  rw [← Program.marks_withoutSymbols, program.withoutSymbols_resolve arena,
    program.withoutSymbols_of_fresh fresh]

/-- The last two stages meet no fault in a tree that is not bound yet. -/
theorem Program.exists_analyze_eq_ok {program : Program} (fresh : program.symbols = []) :
    ∃ analysis, program.analyze .empty = .ok analysis := by
  rw [analyze, program.tryResolve_eq .empty fresh]
  simp only [Bind.bind, Except.bind]
  by_cases clean : (program.resolve .empty).errors = []
  · rw [clean, (program.check_follows fresh clean).1]
    exact ⟨_, rfl⟩
  · rw [if_neg (by simpa using clean)]
    exact ⟨_, rfl⟩

/-- What the last two stages owe to a program: errors that can be reported, and few symbols. -/
structure Analysis.Sound (registry : Registry) (interner : Interner) (program : Program)
    (analysis : Analysis) : Prop where
  resolutionErrors : ∀ error ∈ analysis.resolutionErrors, error.Reportable registry interner
  typeErrors : ∀ error ∈ analysis.typeErrors, error.Reportable registry
  size_le : analysis.arena.size ≤ program.marks.length

/-- What the last two stages find in a parsed tree can be reported. -/
theorem Program.analyze_isOk {registry : Registry} {interner : Interner} (program : Program)
    (fresh : program.symbols = []) (known : registry.contains program.source)
    (ordered : program.marks.Pairwise Mark.Before)
    (keys : ∀ mark ∈ program.marks, ∀ key ∈ mark.keys, key < interner.size) :
    ∃ analysis, program.analyze .empty = .ok analysis ∧
      analysis.Sound registry interner program := by
  rw [← program.marks_resolve .empty fresh] at ordered keys
  have few := (program.resolve .empty).program.length_allDeclarations_le
  rw [program.marks_resolve .empty fresh] at few
  rcases exists_analyze_eq_ok fresh with ⟨analysis, analyzed⟩
  refine ⟨analysis, analyzed, ?_⟩
  rcases analyze_cases fresh analyzed with ⟨unclean, rfl⟩ | ⟨checked, clean, checks, rfl⟩
  · rcases program.resolve_conforms .empty fresh with ⟨records, _, errors, _⟩
    refine ⟨?_, by simp, ?_⟩
    · intro error member
      have knownAfter : registry.contains (program.resolve .empty).program.source := known
      exact Program.scopeErrors_reportable knownAfter ordered keys error (errors.mem_iff.mp member)
    · apply Nat.le_trans (Nat.le_of_eq records.size_eq)
      have accepted := List.length_filterMap_le Declaration.symbol
        (program.resolve .empty).program.allDeclarations
      change 0 + _ ≤ _
      omega
  · rcases program.check_follows fresh clean with ⟨checksKnown, follows⟩
    cases checksKnown.symm.trans checks
    refine ⟨by simp, ?_, ?_⟩
    · intro error member
      rcases follows.errors with ⟨verdicts, judged, errors_eq⟩
      rw [errors_eq] at member
      rcases Leaf.exists_of_mem_reduceOption judged member with ⟨leaf, leafMem, violation⟩
      have marked := (program.resolve .empty).program.leaves_isMarked leaf leafMem
      exact (Leaf.placed_of_firstViolation marked violation).reportable known ordered
    · apply Nat.le_trans (Nat.le_of_eq follows.holds.size_eq)
      rw [List.append_nil, ← (program.resolve .empty).program.allDeclarations_perm.length_eq]
      exact few

theorem Failure.source_error (source : SourceId) (failure : Failure) :
    (failure.error source).source = source := by
  rw [error]
  split
  · rfl
  · split <;> rfl

/-- The outcome of a run on tokens that stand one behind the other and whose names are known. -/
theorem Output.ofTokens_isOk {registry : Registry} {interner : Interner} {source : SourceId}
    {tokens : List Token} (known : registry.contains source)
    (ascending : Span.Ascending (tokens.map Token.span))
    (keys : ∀ token ∈ tokens, ∀ key, token.lexeme = .identifier key → key < interner.size) :
    ∃ output, Output.ofTokens registry interner source tokens = .ok output ∧
      (∀ report ∈ output.diagnostics, report.LabelsApart) ∧ output.arena.size ≤ tokens.length := by
  rw [Output.ofTokens]
  by_cases noErrors : (Parsed.ofTokens source tokens).errors = []
  · have marked := Parsed.marked source tokens noErrors
    have markKeys : ∀ mark ∈ (Parsed.ofTokens source tokens).program.marks, ∀ key ∈ mark.keys,
        key < interner.size := by
      intro mark markMem key keyMem
      rcases (marked.coveredBy_of_mem markMem).keys key keyMem with ⟨token, tokenMem, lexeme_eq⟩
      exact keys token tokenMem key lexeme_eq
    rcases (Parsed.ofTokens source tokens).program.analyze_isOk
      (Parsed.symbols_eq_nil source tokens) known (marked.pairwise_before ascending) markKeys with
      ⟨analysis, analyzed, sound⟩
    rcases Report.mapM_isOk fun error member =>
      ResolutionError.report_isOk (sound.resolutionErrors error member) with
      ⟨resolutionReports, resolutionReported, resolutionApart⟩
    rcases Report.mapM_isOk fun error member =>
      TypeError.report_isOk (sound.typeErrors error member) with
      ⟨typeReports, typeReported, typeApart⟩
    simp only [Parsed.success, noErrors, List.isEmpty_nil, ↓reduceIte, analyzed, Bind.bind,
      Except.bind, resolutionReported, typeReported]
    refine ⟨_, rfl, ?_, Nat.le_trans sound.size_le marked.length_le⟩
    intro report member
    rcases List.mem_append.mp member with member | member
    · exact resolutionApart report member
    · exact typeApart report member
  · have each : ∀ error ∈ (Parsed.ofTokens source tokens).errors,
        ∃ built, error.report registry = .ok built ∧ built.LabelsApart := by
      intro error member
      rcases List.mem_map.mp member with ⟨failure, _, rfl⟩
      apply ParseError.report_isOk
      rw [failure.source_error]
      exact known
    rcases Report.mapM_isOk each with ⟨reports, reported, apart⟩
    have failed : (Parsed.ofTokens source tokens).success = false := by
      simpa [Parsed.success] using noErrors
    simp only [failed, Bool.false_eq_true, ↓reduceIte, reported, Bind.bind, Except.bind]
    exact ⟨_, rfl, apart, Nat.zero_le _⟩

theorem Registry.contains_of_get {registry : Registry} {id : SourceId} {source : Source}
    (found : registry.get id = .ok source) : registry.contains id := by
  rw [get] at found
  split at found
  · rename_i source_eq
    exact decide_eq_true (List.getElem?_eq_some_iff.mp source_eq).1
  · cases found

/-- A run on a known source ends, and takes at most one key and one symbol for each byte. -/
theorem compile_isOk {registry : Registry} {id : SourceId} {source : Source}
    (found : registry.get id = .ok source) (interner : Interner) :
    ∃ output final, compile registry id interner = .ok (output, final) ∧
      final.size ≤ interner.size + source.text.length ∧
      output.arena.size ≤ source.text.length ∧
      ∀ report ∈ output.diagnostics, report.LabelsApart := by
  have known := Registry.contains_of_get found
  have fewItems := Item.length_listFrom_le 0 0 source.text
  have itemsAscending := Item.ascending_listFrom 0 0 source.text
  rw [compile, Lexer.ofSource, found]
  simp only [Bind.bind, Except.bind, Pure.pure, Except.pure]
  have yields := (Lexer.ofText id source.text interner).tokensOf_yields (Item.list source.text)
  rcases scanned : (Lexer.ofText id source.text interner).tokenize with ⟨tokens, final⟩
  change (Lexer.ofText id source.text interner).Yields _ (Lexer.tokenize _).1 (Lexer.tokenize _).2
    at yields
  rw [scanned] at yields
  have fewKeys : final.interner.size ≤ interner.size + source.text.length :=
    Nat.le_trans yields.le_size (Nat.add_le_add_left fewItems _)
  by_cases noErrors : final.errors = []
  · have fewTokens : tokens.length ≤ source.text.length := by
      have fewer := yields.spans.length_le
      rw [List.length_map, List.length_map] at fewer
      exact Nat.le_trans fewer fewItems
    rcases Output.ofTokens_isOk known (itemsAscending.sublist yields.spans) yields.keys with
      ⟨output, made, apart, size_le⟩
    refine ⟨output, final.interner, ?_, fewKeys, Nat.le_trans size_le fewTokens, apart⟩
    simp [noErrors, made]
  · have each : ∀ error ∈ final.errors,
        ∃ built, error.report registry = .ok built ∧ built.LabelsApart := by
      intro error member
      have source_eq := yields.errors (by simp [Lexer.ofText]) error member
      apply error.report_isOk
      rw [source_eq]
      exact known
    rcases Report.mapM_isOk each with ⟨reports, reported, apart⟩
    refine ⟨⟨.empty id, .empty, some .lexing, reports⟩, final.interner, ?_, fewKeys, Nat.zero_le _,
      apart⟩
    simp [noErrors, reported]

/--
Every text can be compiled, under every name: no stage meets a fault, and the labels of every report
are apart. Keys and symbols are no more than bytes, so a text below `2 ^ 32` bytes has few enough.
-/
theorem compileText_isOk (text name : Bytes) :
    ∃ compilation, compileText text name = .ok compilation ∧
      compilation.interner.size ≤ text.length ∧
      compilation.output.arena.size ≤ text.length ∧
      ∀ report ∈ compilation.output.diagnostics, report.LabelsApart := by
  rcases added : Registry.empty.add name text with ⟨id, registry⟩
  have found : registry.get id = .ok ⟨name, text⟩ := by
    cases added
    rfl
  rcases compile_isOk found .empty with ⟨output, final, compiled, fewKeys, fewSymbols, apart⟩
  rw [show Interner.empty.size = 0 from rfl, Nat.zero_add] at fewKeys
  refine ⟨⟨registry, final, id, output⟩, ?_, fewKeys, fewSymbols, apart⟩
  rw [compileText, added]
  simp only [compiled, Bind.bind, Except.bind]
  rfl

/-- A run on a text alone is a run on the only source of a registry. -/
theorem compileText_of_compile {text name : Bytes} {final : Interner} {output : Output}
    (compiled : compile ⟨[⟨name, text⟩]⟩ 0 .empty = .ok (output, final)) :
    compileText text name = .ok ⟨⟨[⟨name, text⟩]⟩, final, 0, output⟩ := by
  rw [compileText]
  change compile ⟨[⟨name, text⟩]⟩ 0 .empty >>= _ = _
  rw [compiled]
  rfl

/-- A run on a text alone ends in one of the stages. -/
theorem exists_endsRun_compileText (text name : Bytes) :
    ∃ compilation, compileText text name = .ok compilation ∧
      compilation.output.EndsRun compilation.registry compilation.source text .empty
        compilation.interner := by
  have found : Registry.get ⟨[⟨name, text⟩]⟩ 0 = .ok ⟨name, text⟩ := rfl
  rcases compile_isOk found .empty with ⟨output, final, compiled, _⟩
  exact ⟨_, compileText_of_compile compiled, Output.endsRun_of_compile found compiled⟩

end TypedLang
