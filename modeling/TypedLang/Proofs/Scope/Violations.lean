import Mathlib.Data.List.Nodup
import TypedLang.Proofs.Scope.Erasure

/-!
# Violations of the scope rules

Three things can be wrong with the names of a program: an identifier means nothing or something that
its use does not allow, a callee is no identifier, a declaration repeats a name where none may be
repeated. Each is stated here for the tree alone, with the error that tells about it.
-/

namespace TypedLang

/-- The kinds of symbols that a use allows: a callee is a function, a value is none. -/
def Use.Allows : Use → SymbolKind → Prop
  | .value, kind => kind ≠ .function
  | .callee, kind => kind = .function

instance (use : Use) (kind : SymbolKind) : Decidable (use.Allows kind) :=
  match use with
  | .value => inferInstanceAs (Decidable (kind ≠ .function))
  | .callee => inferInstanceAs (Decidable (kind = .function))

theorem Use.suits_iff_allows (use : Use) (kind : SymbolKind) :
    use.suits kind = true ↔ use.Allows kind := by
  cases use <;> cases kind <;> simp [Use.suits, Use.Allows, SymbolKind.isVariable]

/-- The error of an identifier, judged by the declaration that it means. -/
def Occurrence.errors (source : SourceId) (occurrence : Occurrence) : List ResolutionError :=
  match occurrence.declaration? with
  | none => [⟨source, occurrence.name.span, .symbolNotFound (some occurrence.name.key)⟩]
  | some declaration =>
      if occurrence.use.Allows declaration.kind then []
      else
        [⟨source, occurrence.name.span,
          .kindMismatch (some occurrence.name.key) occurrence.use.needed declaration.kind.name⟩]

/-- Whether an expression is nothing but a name. -/
def Expr.isIdentifier : Expr → Bool
  | .identifier _ _ _ => true
  | _ => false

/-- The error of a callee that is no name. -/
def Expr.callError (source : SourceId) (callee : Expr) : ResolutionError :=
  ⟨source, callee.span, .kindMismatch none "function" "an expression"⟩

/-- The errors of those of some callees that are no names. -/
def Expr.callErrors (source : SourceId) (callees : List Expr) : List ResolutionError :=
  (callees.filter fun callee => !callee.isIdentifier).map (Expr.callError source)

namespace Declaration

/--
The declarations that repeat a name, each behind the first declaration of that name. The declarations
in `before` come before all others.
-/
def repetitions (before : List Declaration) : List Declaration → List (Declaration × Declaration)
  | [] => []
  | declaration :: rest =>
      ((first? before declaration.name.key).map (·, declaration)).toList ++
        repetitions (before ++ [declaration]) rest

/-- The error of a declaration that repeats the name of an earlier one. -/
def repetitionError (source : SourceId) (repetition : Declaration × Declaration) :
    ResolutionError :=
  ⟨source, repetition.2.name.span,
    .nameAlreadyUsed (some repetition.2.name.key) (some repetition.1.name.span)⟩

end Declaration

/-- The errors of the names in a leaf. -/
def Leaf.scopeErrors (source : SourceId) (leaf : Leaf) : List ResolutionError :=
  leaf.occurrences.flatMap (Occurrence.errors source) ++ Expr.callErrors source leaf.callees

namespace Program

/-- The global names of a program: those of functions, which come first, and of variables. -/
def globalDeclarations (program : Program) : List Declaration :=
  program.functions.map FunDecl.declaration ++
    program.globals.map (LetDecl.declaration .globalVariable)

/-- The declarations of a program that repeat a global name or that of a parameter. -/
def repetitions (program : Program) : List (Declaration × Declaration) :=
  Declaration.repetitions [] program.globalDeclarations ++
    program.functions.flatMap fun decl =>
      Declaration.repetitions [] (decl.parameters.map Parameter.declaration)

/-- All errors of the names in a program. -/
def scopeErrors (program : Program) : List ResolutionError :=
  program.occurrences.flatMap (Occurrence.errors program.source) ++
    Expr.callErrors program.source program.callees ++
    program.repetitions.map (Declaration.repetitionError program.source)

/-- The scope rules: all names mean something fit for their use, and no name is repeated. -/
structure WellScoped (program : Program) : Prop where
  bound : ∀ occurrence ∈ program.occurrences, ∃ declaration,
    occurrence.declaration? = some declaration ∧ occurrence.use.Allows declaration.kind
  callees : ∀ callee ∈ program.callees, callee.isIdentifier
  globals : (program.globalDeclarations.map (·.name.key)).Nodup
  parameters : ∀ decl ∈ program.functions, (decl.parameters.map (·.name.key)).Nodup

end Program

theorem Occurrence.errors_eq_nil_iff (source : SourceId) (occurrence : Occurrence) :
    occurrence.errors source = [] ↔ ∃ declaration,
      occurrence.declaration? = some declaration ∧ occurrence.use.Allows declaration.kind := by
  rw [Occurrence.errors]
  cases occurrence.declaration? with
  | none => simp
  | some declaration => simp

namespace Declaration

theorem first?_eq_none_iff (declarations : List Declaration) (key : Key) :
    first? declarations key = none ↔ key ∉ declarations.map (·.name.key) := by
  simp [first?, isNamed]

theorem repetitions_append : (before declarations others : List Declaration) →
    repetitions before (declarations ++ others) =
      repetitions before declarations ++ repetitions (before ++ declarations) others
  | before, [], others => by simp [repetitions]
  | before, declaration :: rest, others => by
      simp only [List.cons_append, repetitions, repetitions_append, List.append_assoc,
        List.nil_append]

theorem repetitions_eq_nil_iff : (before declarations : List Declaration) →
    (before.map (·.name.key)).Nodup →
      (repetitions before declarations = [] ↔
        ((before ++ declarations).map (·.name.key)).Nodup)
  | before, [], distinct => by simpa [repetitions] using distinct
  | before, declaration :: rest, distinct => by
      have rest_iff := repetitions_eq_nil_iff (before ++ [declaration]) rest
      have together : ((before ++ [declaration]).map (·.name.key)).Nodup ↔
          declaration.name.key ∉ before.map (·.name.key) := by
        rw [List.map_append, List.map_singleton, ← List.concat_eq_append, List.nodup_concat]
        exact ⟨And.left, fun unused => ⟨unused, distinct⟩⟩
      rw [List.append_assoc, List.singleton_append] at rest_iff
      simp only [repetitions, List.append_eq_nil_iff, Option.toList_eq_nil_iff,
        Option.map_eq_none_iff, first?_eq_none_iff]
      constructor
      · rintro ⟨unused, others⟩
        exact (rest_iff (together.mpr unused)).mp others
      · intro nodup
        have unused : declaration.name.key ∉ before.map (·.name.key) := by
          rw [List.map_append, List.nodup_append] at nodup
          intro member
          exact nodup.2.2 _ member _ List.mem_cons_self rfl
        exact ⟨unused, (rest_iff (together.mpr unused)).mpr nodup⟩

end Declaration

/-- A program has no violation just if it keeps the scope rules. -/
theorem Program.scopeErrors_eq_nil_iff (program : Program) :
    program.scopeErrors = [] ↔ program.WellScoped := by
  have repetitions_iff := fun declarations =>
    Declaration.repetitions_eq_nil_iff [] declarations List.nodup_nil
  simp only [List.nil_append] at repetitions_iff
  simp only [scopeErrors, repetitions, Expr.callErrors, List.append_eq_nil_iff, List.flatMap_eq_nil_iff,
    List.map_eq_nil_iff, List.filter_eq_nil_iff, Occurrence.errors_eq_nil_iff, repetitions_iff,
    List.map_map]
  constructor
  · rintro ⟨⟨bound, callees⟩, globals, parameters⟩
    exact ⟨bound, fun callee member => by simpa using callees callee member, globals, parameters⟩
  · rintro ⟨bound, callees, globals, parameters⟩
    exact ⟨⟨bound, fun callee member => by simpa using callees callee member⟩, globals, parameters⟩

theorem Occurrence.errors_withoutSymbols (source : SourceId) (occurrence : Occurrence) :
    occurrence.withoutSymbols.errors source = occurrence.errors source := by
  simp only [Occurrence.errors, Occurrence.declaration?, Occurrence.withoutSymbols,
    Context.declaration?_withoutSymbols]
  cases occurrence.context.declaration? occurrence.name.key with
  | none => rfl
  | some declaration => rfl

theorem Expr.isIdentifier_withoutSymbols (value : Expr) :
    value.withoutSymbols.isIdentifier = value.isIdentifier := by
  cases value <;> rfl

theorem Expr.callError_withoutSymbols (source : SourceId) (callee : Expr) :
    callee.withoutSymbols.callError source = callee.callError source := by
  cases callee <;> rfl

theorem Expr.callErrors_withoutSymbols (source : SourceId) (callees : List Expr) :
    Expr.callErrors source (callees.map Expr.withoutSymbols) = Expr.callErrors source callees := by
  simp only [Expr.callErrors, List.filter_map, List.map_map, Function.comp_def, Expr.isIdentifier_withoutSymbols,
    Expr.callError_withoutSymbols]

theorem Declaration.repetitions_withoutSymbols : (before declarations : List Declaration) →
    Declaration.repetitions (before.map Declaration.withoutSymbol)
        (declarations.map Declaration.withoutSymbol) =
      (Declaration.repetitions before declarations).map
        fun (first, again) => (first.withoutSymbol, again.withoutSymbol)
  | _, [] => rfl
  | before, declaration :: rest => by
      have others := Declaration.repetitions_withoutSymbols (before ++ [declaration]) rest
      rw [List.map_append] at others
      simp only [List.map_cons, Declaration.repetitions, List.map_append, ← others]
      congr 1
      change ((Declaration.first? _ declaration.name.key).map _).toList = _
      rw [Declaration.first?_withoutSymbol]
      cases Declaration.first? before declaration.name.key with
      | none => rfl
      | some first => rfl

theorem Declaration.repetitionErrors_withoutSymbols (source : SourceId)
    (declarations : List Declaration) :
    (Declaration.repetitions [] (declarations.map Declaration.withoutSymbol)).map
        (Declaration.repetitionError source) =
      (Declaration.repetitions [] declarations).map (Declaration.repetitionError source) := by
  have erased := Declaration.repetitions_withoutSymbols [] declarations
  rw [List.map_nil] at erased
  rw [erased, List.map_map]
  rfl

namespace Program

theorem occurrences_withoutSymbols (program : Program) :
    program.withoutSymbols.occurrences = program.occurrences.map Occurrence.withoutSymbols := by
  simp only [occurrences, leaves_withoutSymbols, List.flatMap_map, List.map_flatMap,
    Leaf.occurrences_withoutSymbols]

theorem callees_withoutSymbols (program : Program) :
    program.withoutSymbols.callees = program.callees.map Expr.withoutSymbols := by
  simp only [callees, leaves_withoutSymbols, List.flatMap_map, List.map_flatMap,
    Leaf.callees_withoutSymbols]

theorem globalDeclarations_withoutSymbols (program : Program) :
    program.withoutSymbols.globalDeclarations =
      program.globalDeclarations.map Declaration.withoutSymbol := by
  simp only [globalDeclarations, functions_withoutSymbols, globals_withoutSymbols, List.map_append,
    List.map_map, Function.comp_def, FunDecl.declaration_withoutSymbols,
    LetDecl.declaration_withoutSymbols]

theorem repetitionErrors_withoutSymbols (program : Program) :
    program.withoutSymbols.repetitions.map (Declaration.repetitionError program.source) =
      program.repetitions.map (Declaration.repetitionError program.source) := by
  have parameters : ∀ decl : FunDecl,
      decl.withoutSymbols.parameters.map Parameter.declaration =
        (decl.parameters.map Parameter.declaration).map Declaration.withoutSymbol := by
    intro decl
    simp only [FunDecl.withoutSymbols, List.map_map, Function.comp_def,
      Parameter.declaration_withoutSymbol]
  simp only [repetitions, globalDeclarations_withoutSymbols, functions_withoutSymbols,
    List.map_append, Declaration.repetitionErrors_withoutSymbols, List.flatMap_map,
    List.map_flatMap, parameters]

/-- Erasing symbols changes nothing about the violations in a program. -/
theorem scopeErrors_withoutSymbols (program : Program) :
    program.withoutSymbols.scopeErrors = program.scopeErrors := by
  have same : program.withoutSymbols.source = program.source := rfl
  simp only [scopeErrors, same, occurrences_withoutSymbols, callees_withoutSymbols,
    repetitionErrors_withoutSymbols, Expr.callErrors_withoutSymbols, List.flatMap_map,
    Occurrence.errors_withoutSymbols]

end Program

end TypedLang
