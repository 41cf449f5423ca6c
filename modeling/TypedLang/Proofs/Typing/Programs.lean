import Mathlib.Data.List.ReduceOption
import TypedLang.Proofs.Parsing.Fresh
import TypedLang.Proofs.Scope.Coverage
import TypedLang.Proofs.Scope.Guard
import TypedLang.Proofs.Typing.Erasure
import TypedLang.Proofs.Typing.Untyped

/-!
# Checking programs

The checker walks a program from leaf to leaf. Whatever it finds in a leaf, the declarations up to
there have their types, so no leaf depends on the verdicts on the leaves before it. The leaves of the
checked tree are those of the given one, each with types in its value.
-/

namespace TypedLang

/--
What the checker owes to a piece of a program: the types of the declarations up to its end, the
errors of its leaves in order, and the types in the leaves that result.
-/
structure Checked.Follows {Piece : Type} (source : SourceId) (checked : Checked Piece)
    (done pending : List Declaration) (leaves results : List Leaf) : Prop where
  holds : checked.arena.Holds done pending
  errors : ∃ verdicts, List.Forall₂ (Leaf.HasOnlyVerdict source) leaves verdicts ∧
    checked.errors = verdicts.reduceOption
  annotated : (∀ leaf ∈ leaves, leaf.IsUntyped) → ∀ result ∈ results, result.Annotated source

namespace Checked.Follows

variable {Piece Other : Type} {source : SourceId} {done middle pending others : List Declaration}
  {leaves results otherLeaves otherResults : List Leaf}

theorem map {checked : Checked Piece} (convert : Piece → Other)
    (follows : checked.Follows source done pending leaves results) :
    (checked.map convert).Follows source done pending leaves results :=
  ⟨follows.holds, follows.errors, follows.annotated⟩

/-- A piece and the one behind it follow together. -/
theorem after {first : Checked Piece} {rest : Checked Other}
    (firstFollows : first.Follows source middle others leaves results)
    (restFollows : rest.Follows source done pending otherLeaves otherResults) :
    (rest.after first.errors).Follows source done pending (leaves ++ otherLeaves)
      (results ++ otherResults) where
  holds := restFollows.holds
  errors := by
    rcases firstFollows.errors with ⟨verdicts, judged, errors_eq⟩
    rcases restFollows.errors with ⟨otherVerdicts, otherJudged, otherErrors_eq⟩
    refine ⟨verdicts ++ otherVerdicts, List.rel_append judged otherJudged, ?_⟩
    rw [List.reduceOption_append, ← errors_eq, ← otherErrors_eq]
    rfl
  annotated := by
    intro untyped
    rw [List.forall_mem_append] at untyped ⊢
    exact ⟨firstFollows.annotated untyped.1, restFollows.annotated untyped.2⟩

theorem nil {arena : Arena} (piece : Piece) (holds : arena.Holds done pending) :
    Follows source ⟨piece, arena, []⟩ done pending [] [] :=
  ⟨holds, ⟨[], .nil, rfl⟩, fun _ => List.forall_mem_nil _⟩

theorem leaf {base arena : Arena} {leaf result : Leaf} (piece : Piece)
    (ready : leaf.context.Ready done (done ++ pending)) (holds : arena.Holds done pending)
    (resolved : leaf.IsResolved base) (checks : leaf.ChecksTo source arena result)
    {errors : List TypeError} (errors_eq : errors = (leaf.verdict source arena).toList) :
    Follows source ⟨piece, arena, errors⟩ done pending [leaf] [result] where
  holds := holds
  errors := by
    refine ⟨[leaf.verdict source arena],
      .cons (leaf.hasOnlyVerdict source ready holds resolved) .nil, ?_⟩
    cases verdict_eq : leaf.verdict source arena <;> simp [errors_eq, verdict_eq]
  annotated := by
    simp only [List.forall_mem_singleton]
    exact checks.annotated ready holds resolved

end Checked.Follows

section Statements

variable (source : SourceId) {base : Arena}

theorem LetDecl.check_follows (kind : SymbolKind) {context : Context} {arena : Arena}
    (done pending : List Declaration) (decl : LetDecl)
    (holds : arena.Holds done (decl.declaration kind :: pending))
    (ready : context.Ready done (done ++ decl.declaration kind :: pending))
    (resolved : Leaf.IsResolved base ⟨context, .letDecl decl⟩) :
    (decl.check source arena).Follows source (done ++ [decl.declaration kind]) pending
      [⟨context, .letDecl decl⟩] [⟨context, .letDecl (decl.check source arena).piece⟩] := by
  rcases holds.declareType source decl.name.span with ⟨final, declared, finalHolds⟩
  have finalReady : context.Ready (done ++ [decl.declaration kind])
      (done ++ [decl.declaration kind] ++ pending) := by
    rw [List.append_assoc]
    exact ready.append _
  change arena.declareType source decl.symbol decl.name.span decl.type.type = _ at declared
  simp only [LetDecl.check, declared]
  cases value_eq : decl.initializer with
  | none =>
      apply Checked.Follows.leaf _ finalReady finalHolds resolved
      · exact ⟨rfl, by simp only [LeafStatement.value?, value_eq, Option.map_none]⟩
      · simp only [Leaf.verdict, LeafStatement.value?, value_eq, Option.bind_none,
          Option.toList_none]
  | some value =>
      have leafValue_eq : (Leaf.mk context (.letDecl decl)).statement.value? = some value := value_eq
      have span_eq := value.span_check source final
      dsimp only
      rcases checked : value.check source final with ⟨annotated, error | type⟩
      · apply Checked.Follows.leaf _ finalReady finalHolds resolved
        · exact ⟨rfl, by rw [leafValue_eq, Option.map_some, checked]; rfl⟩
        · rw [Leaf.verdict_of_error source leafValue_eq (congrArg Prod.snd checked)]
          rfl
      · apply Checked.Follows.leaf _ finalReady finalHolds resolved
        · exact ⟨rfl, by rw [leafValue_eq, Option.map_some, checked]; rfl⟩
        · rw [checked] at span_eq
          rw [Leaf.verdict_of_ok source leafValue_eq (congrArg Prod.snd checked),
            LeafStatement.error?, ← span_eq]
          split <;> rfl

theorem Stmt.forall_declares {P : Declaration → Prop} (statement : Stmt)
    (holds : ∀ declaration ∈ statement.declarations, P declaration) :
    ∀ declaration ∈ statement.declares, declaration.kind ≠ .function ∧ P declaration := by
  cases statement with
  | letDecl decl =>
      intro declaration member
      cases List.mem_singleton.mp member
      exact ⟨SymbolKind.noConfusion, holds _ List.mem_cons_self⟩
  | _ => simp [Stmt.declares]

mutual

theorem Stmt.check_follows (returnType : WrittenType) : (context : Context) → (arena : Arena) →
    (done pending : List Declaration) → (statement : Stmt) →
      arena.Holds done (statement.declarations ++ pending) →
      context.Ready done (done ++ (statement.declarations ++ pending)) →
      (∀ leaf ∈ statement.leaves context returnType, leaf.IsResolved base) →
        (statement.check source returnType arena).Follows source (done ++ statement.declarations)
          pending (statement.leaves context returnType)
          ((statement.check source returnType arena).piece.leaves context returnType)
  | context, arena, done, pending, .expression value span, holds, ready, resolved => by
      have leafResolved := resolved _ List.mem_cons_self
      simp only [Stmt.check, Stmt.declarations, Stmt.leaves, List.append_nil]
      apply Checked.Follows.leaf _ ready holds leafResolved
      · exact ⟨rfl, rfl⟩
      · rcases checked : value.check source arena with ⟨annotated, error | type⟩
        · rw [Leaf.verdict_of_error source rfl (congrArg Prod.snd checked)]
          rfl
        · rw [Leaf.verdict_of_ok source rfl (congrArg Prod.snd checked)]
          rfl
  | context, arena, done, pending, .letDecl decl, holds, ready, resolved => by
      have leafResolved := resolved _ List.mem_cons_self
      simp only [Stmt.check, Stmt.declarations, Stmt.leaves]
      exact (decl.check_follows source .localVariable done pending holds ready leafResolved).map _
  | context, arena, done, pending, .block statements span, holds, ready, resolved => by
      have inside := Stmt.checkAll_follows returnType context arena done pending [] statements holds
        ready (by simp) resolved
      simp only [Stmt.check, Stmt.declarations, Stmt.leaves]
      exact inside.map _
  | context, arena, done, pending, .returning none span, holds, ready, resolved => by
      have leafResolved := resolved _ List.mem_cons_self
      simp only [Stmt.check, Stmt.declarations, Stmt.leaves, List.append_nil]
      exact Checked.Follows.leaf _ ready holds leafResolved ⟨rfl, rfl⟩ rfl
  | context, arena, done, pending, .returning (some value) span, holds, ready, resolved => by
      have leafResolved := resolved _ List.mem_cons_self
      have span_eq := value.span_check source arena
      simp only [Stmt.check, Stmt.declarations, Stmt.leaves, List.append_nil]
      apply Checked.Follows.leaf _ ready holds leafResolved
      · exact ⟨rfl, rfl⟩
      · rcases checked : value.check source arena with ⟨annotated, error | type⟩
        · rw [Leaf.verdict_of_error source rfl (congrArg Prod.snd checked)]
          rfl
        · rw [checked] at span_eq
          rw [Leaf.verdict_of_ok source rfl (congrArg Prod.snd checked), LeafStatement.error?,
            ← span_eq]
          simp only [WrittenType.returnErrors]
          split <;> rfl

/-- The statements of a block, behind those that declared some variables. -/
theorem Stmt.checkAll_follows (returnType : WrittenType) : (outer : Context) → (arena : Arena) →
    (done pending locals : List Declaration) → (statements : List Stmt) →
      arena.Holds done (Stmt.declarationsOfAll statements ++ pending) →
      outer.Ready done (done ++ (Stmt.declarationsOfAll statements ++ pending)) →
      (∀ declaration ∈ locals, declaration.kind ≠ .function ∧ declaration ∈ done) →
      (∀ leaf ∈ Stmt.leavesOfAll outer returnType locals statements, leaf.IsResolved base) →
        (Stmt.checkAll source returnType arena statements).Follows source
          (done ++ Stmt.declarationsOfAll statements) pending
          (Stmt.leavesOfAll outer returnType locals statements)
          (Stmt.leavesOfAll outer returnType locals
            (Stmt.checkAll source returnType arena statements).piece)
  | outer, arena, done, pending, locals, [], holds, _, _, _ => by
      rw [Stmt.declarationsOfAll, List.append_nil]
      exact Checked.Follows.nil _ holds
  | outer, arena, done, pending, locals, first :: rest, holds, ready, localsDone, resolved => by
      simp only [Stmt.declarationsOfAll, Stmt.leavesOfAll, List.append_assoc,
        List.forall_mem_append] at holds ready resolved ⊢
      have firstFollows := first.check_follows returnType (outer.enter (.block locals)) arena done
        (Stmt.declarationsOfAll rest ++ pending) holds (ready.enter (.block locals) localsDone) resolved.1
      have moreReady := ready.append first.declarations
      rw [← List.append_assoc done] at moreReady
      have declaresDone := first.forall_declares fun declaration member =>
        List.mem_append_right done member
      have moreDone : ∀ declaration ∈ locals ++ first.declares,
          declaration.kind ≠ .function ∧ declaration ∈ done ++ first.declarations := by
        intro declaration member
        rcases List.mem_append.mp member with member | member
        · exact ⟨(localsDone declaration member).1,
            List.mem_append_left _ (localsDone declaration member).2⟩
        · exact declaresDone declaration member
      have restFollows := Stmt.checkAll_follows returnType outer
        (first.check source returnType arena).arena (done ++ first.declarations) pending
        (locals ++ first.declares) rest firstFollows.holds moreReady moreDone resolved.2
      rw [← List.append_assoc done, Stmt.leavesOfAll_checkAll_cons]
      exact firstFollows.after (restFollows.map _)

end

theorem Parameter.declareTypes_holds {pending : List Declaration} : (arena : Arena) →
    (done : List Declaration) → (parameters : List Parameter) →
      arena.Holds done (parameters.map Parameter.declaration ++ pending) →
        ∃ final, Parameter.declareTypes source arena parameters = (final, none) ∧
          final.Holds (done ++ parameters.map Parameter.declaration) pending
  | arena, done, [], holds => ⟨arena, rfl, by simpa using holds⟩
  | arena, done, first :: rest, holds => by
      rcases holds.declareType source first.name.span with ⟨middle, declared, middleHolds⟩
      change arena.declareType source first.symbol first.name.span first.type.type = _ at declared
      rcases Parameter.declareTypes_holds middle _ rest middleHolds with
        ⟨final, restDeclared, finalHolds⟩
      refine ⟨final, ?_, ?_⟩
      · simp only [Parameter.declareTypes, declared, restDeclared]
      · rw [List.append_assoc] at finalHolds
        exact finalHolds

theorem FunDecl.check_follows {context : Context} {arena : Arena}
    {done pending : List Declaration} (decl : FunDecl)
    (holds : arena.Holds done (decl.declaration :: decl.declarations ++ pending))
    (ready : context.Ready done (done ++ (decl.declaration :: decl.declarations ++ pending)))
    (resolved : ∀ leaf ∈ decl.leaves context, leaf.IsResolved base) :
    (decl.check source arena).Follows source (done ++ decl.declaration :: decl.declarations) pending
      (decl.leaves context) ((decl.check source arena).piece.leaves context) := by
  rcases holds.declareType source decl.name.span with ⟨middle, declared, middleHolds⟩
  change arena.declareType source decl.symbol decl.name.span decl.returnType.type = _ at declared
  change middle.Holds _ (decl.declarations ++ pending) at middleHolds
  rw [FunDecl.declarations, List.append_assoc] at middleHolds
  rcases Parameter.declareTypes_holds source middle _ _ middleHolds with
    ⟨final, parametersDeclared, finalHolds⟩
  have parametersDone : ∀ declaration ∈ decl.parameters.map Parameter.declaration,
      declaration.kind ≠ .function ∧ declaration ∈
        done ++ [decl.declaration] ++ decl.parameters.map Parameter.declaration := by
    intro declaration member
    refine ⟨?_, List.mem_append_right _ member⟩
    rcases List.mem_map.mp member with ⟨parameter, _, rfl⟩
    exact SymbolKind.noConfusion
  have bodyReady := (ready.append ([decl.declaration] ++
    decl.parameters.map Parameter.declaration))
  have together : ∀ others, done ++ (decl.declaration :: decl.declarations ++ others) =
      done ++ [decl.declaration] ++ decl.parameters.map Parameter.declaration ++
        (Stmt.declarationsOfAll decl.body.statements ++ others) := by
    intro others
    simp only [FunDecl.declarations, List.append_assoc, List.cons_append, List.nil_append]
  rw [together pending, ← List.append_assoc] at bodyReady
  have body := Stmt.checkAll_follows source decl.returnType _ final _ pending [] _ finalHolds
    (bodyReady.enter (.parameters _) parametersDone) (by simp) resolved
  have done_eq := together []
  simp only [List.append_nil] at done_eq
  simp only [FunDecl.check, declared, parametersDeclared]
  rw [done_eq]
  exact body.map _

theorem Decl.checkAll_follows (functions : List Declaration) :
    (arena : Arena) → (done globals : List Declaration) → (declarations : List Decl) →
      arena.Holds done (declarations.flatMap Decl.typings) →
      Context.Ready { functions := functions, globals := globals } done
        (done ++ declarations.flatMap Decl.typings) →
      (∀ leaf ∈ Decl.leavesOfAll functions globals declarations, leaf.IsResolved base) →
        (Checked.all (Decl.check source) arena declarations).Follows source
          (done ++ declarations.flatMap Decl.typings) []
          (Decl.leavesOfAll functions globals declarations)
          (Decl.leavesOfAll functions globals
            (Checked.all (Decl.check source) arena declarations).piece)
  | arena, done, globals, [], holds, _, _ => by
      rw [List.flatMap_nil, List.append_nil]
      exact Checked.Follows.nil _ holds
  | arena, done, globals, .funDecl decl :: rest, holds, ready, resolved => by
      simp only [List.flatMap_cons, Decl.leavesOfAll, List.forall_mem_append] at holds ready resolved ⊢
      have firstFollows := decl.check_follows source holds ready resolved.1
      have moreReady := ready.append (decl.declaration :: decl.declarations)
      rw [← List.append_assoc done] at moreReady
      have restFollows := Decl.checkAll_follows functions (decl.check source arena).arena _ globals
        rest firstFollows.holds moreReady resolved.2
      rw [← List.append_assoc done]
      exact firstFollows.after (restFollows.map _)
  | arena, done, globals, .letDecl decl :: rest, holds, ready, resolved => by
      simp only [List.flatMap_cons, Decl.leavesOfAll, List.forall_mem_cons] at holds ready resolved ⊢
      have firstFollows := decl.check_follows source .globalVariable done
        (rest.flatMap Decl.typings) holds ready resolved.1
      have moreReady := ready.append [decl.declaration .globalVariable]
      rw [← List.append_assoc done] at moreReady
      have globalsDone : ∀ declaration ∈ globals ++ [decl.declaration .globalVariable],
          declaration.kind ≠ .function ∧
            declaration ∈ done ++ [decl.declaration .globalVariable] := by
        intro declaration member
        rcases List.mem_append.mp member with member | member
        · exact moreReady.globals declaration member
        · cases List.mem_singleton.mp member
          exact ⟨SymbolKind.noConfusion, List.mem_append_right done List.mem_cons_self⟩
      have restFollows := Decl.checkAll_follows functions (decl.check source arena).arena _
        (globals ++ [decl.declaration .globalVariable]) rest firstFollows.holds
        ⟨moreReady.levels, moreReady.functions, globalsDone⟩ resolved.2
      rw [← List.append_assoc done, Decl.leavesOfAll_check_letDecl]
      exact firstFollows.after (restFollows.map _)

end Statements

/-- A resolved program is checked leaf by leaf. -/
theorem Program.checkKnown_follows {program : Program} {arena : Arena}
    (records : Arena.empty.Records program.allDeclarations arena)
    (accepted : ∀ declaration ∈ program.allDeclarations, declaration.symbol ≠ none)
    (resolved : ∀ leaf ∈ program.leaves, leaf.IsResolved arena) :
    (program.checkKnown arena).Follows program.source
      (program.declarations.flatMap Decl.typings) [] program.leaves
      (program.checkKnown arena).piece.leaves := by
  have holds : arena.Holds [] program.allDeclarations := by
    refine ⟨?_, records.symbols_nodup, by simp, ?_⟩
    · rw [records.size_eq, List.nil_append, List.length_filterMap_eq_countP, List.countP_eq_length.mpr]
      · exact Nat.zero_add _
      · intro declaration member
        exact Option.isSome_iff_ne_none.mpr (accepted declaration member)
    · intro declaration member
      rcases Option.ne_none_iff_exists'.mp (accepted declaration member) with ⟨id, own⟩
      exact ⟨id, own, records.get?_of_symbol member own⟩
  have ready : Context.Ready
      { functions := program.functions.map FunDecl.declaration, globals := [] } []
      (program.declarations.flatMap Decl.typings) := by
    refine ⟨by simp, ?_, by simp⟩
    intro declaration member
    have known := program.allDeclarations_perm.mem_iff.mp (List.mem_append_left _ member)
    rcases List.mem_map.mp member with ⟨decl, _, rfl⟩
    exact ⟨rfl, Option.some_ne_none _, known⟩
  have follows := Decl.checkAll_follows program.source _ arena [] [] program.declarations
    (holds.reorder program.allDeclarations_perm) ready resolved
  have declarations_eq := program.functionDeclarations_checkKnown arena
  rw [Program.leaves, Program.leaves, declarations_eq]
  exact follows.map _

theorem Program.leaf_isResolved {program : Program} {arena : Arena}
    (bound : ∀ leaf ∈ program.leaves, leaf.IsBound arena) (wellScoped : program.WellScoped) :
    ∀ leaf ∈ program.leaves, leaf.IsResolved arena := by
  intro leaf leafMem
  refine ⟨bound leaf leafMem, ?_, ?_⟩
  · intro occurrence member
    exact wellScoped.bound occurrence (List.mem_flatMap.mpr ⟨leaf, leafMem, member⟩)
  · intro callee member
    exact wellScoped.callees callee (List.mem_flatMap.mpr ⟨leaf, leafMem, member⟩)

/-- There are no errors just if all leaves keep the rules. -/
theorem Leaf.reduceOption_eq_nil_iff {source : SourceId} {leaves : List Leaf}
    {verdicts : List (Option TypeError)}
    (judged : List.Forall₂ (Leaf.HasOnlyVerdict source) leaves verdicts) :
    verdicts.reduceOption = [] ↔ ∀ leaf ∈ leaves, leaf.WellTyped := by
  induction judged with
  | nil => simp [List.reduceOption]
  | @cons leaf _ _ _ head _ ih =>
      rw [List.forall_mem_cons, ← ih]
      rcases head with ⟨hasVerdict, only⟩
      cases hasVerdict with
      | good wellTyped => simp [List.reduceOption_cons_of_none, wellTyped]
      | bad violation =>
          have notWellTyped : ¬ leaf.WellTyped := by
            intro wellTyped
            cases only none (.good wellTyped)
          simp [List.reduceOption_cons_of_some, notWellTyped]

/-- Every error is the first violation in a leaf. -/
theorem Leaf.exists_of_mem_reduceOption {source : SourceId} {leaves : List Leaf}
    {verdicts : List (Option TypeError)}
    (judged : List.Forall₂ (Leaf.HasOnlyVerdict source) leaves verdicts) {error : TypeError}
    (member : error ∈ verdicts.reduceOption) :
    ∃ leaf ∈ leaves, leaf.FirstViolation source error := by
  induction judged with
  | nil => cases member
  | @cons leaf _ _ _ head _ ih =>
      rcases head with ⟨hasVerdict, _⟩
      cases hasVerdict with
      | good _ =>
          rw [List.reduceOption_cons_of_none] at member
          rcases ih member with ⟨other, otherMem, violation⟩
          exact ⟨other, List.mem_cons_of_mem _ otherMem, violation⟩
      | bad violation =>
          rw [List.reduceOption_cons_of_some] at member
          rcases List.mem_cons.mp member with rfl | member
          · exact ⟨leaf, List.mem_cons_self, violation⟩
          · rcases ih member with ⟨other, otherMem, violation⟩
            exact ⟨other, List.mem_cons_of_mem _ otherMem, violation⟩

/-- The checker accepts what resolution made of a tree of the parser, if it found no error. -/
theorem Program.check_follows (program : Program) (fresh : program.symbols = [])
    (noErrors : (program.resolve .empty).errors = []) :
    let resolution := program.resolve .empty
    resolution.program.check resolution.arena =
        .ok (resolution.program.checkKnown resolution.arena) ∧
      (resolution.program.checkKnown resolution.arena).Follows program.source
        (resolution.program.declarations.flatMap Decl.typings) [] resolution.program.leaves
        (resolution.program.checkKnown resolution.arena).piece.leaves := by
  intro resolution
  rcases program.resolve_conforms .empty fresh with ⟨records, bound, _⟩
  rcases Program.resolve_accepts fresh noErrors with ⟨wellScoped, accepted⟩
  constructor
  · rw [Program.check, if_pos]
    rw [List.all_eq_true]
    intro id member
    exact decide_eq_true (Program.lt_size_of_mem_symbols records bound member)
  · exact Program.checkKnown_follows records accepted (Program.leaf_isResolved bound wellScoped)

/--
After a resolution without errors, the checker reports the first violation of every ill-typed leaf in
order, and nothing else; so it reports nothing just if all leaves keep the typing rules.
-/
theorem Program.check_reports_first_violations (source : SourceId) (tokens : List Token) :
    let program := (Parsed.ofTokens source tokens).program
    let resolution := program.resolve .empty
    program.tryResolve .empty = .ok resolution ∧ (resolution.errors = [] → ∃ checked,
      resolution.program.check resolution.arena = .ok checked ∧
        (∃ verdicts, List.Forall₂ (Leaf.HasOnlyVerdict source) resolution.program.leaves verdicts ∧
          checked.errors = verdicts.reduceOption) ∧
        (checked.errors = [] ↔ ∀ leaf ∈ resolution.program.leaves, leaf.WellTyped)) := by
  intro program resolution
  have fresh := Parsed.symbols_eq_nil source tokens
  refine ⟨program.tryResolve_eq .empty fresh, fun noErrors => ?_⟩
  rcases Program.check_follows _ fresh noErrors with ⟨accepted, follows⟩
  rcases follows.errors with ⟨verdicts, judged, errors_eq⟩
  refine ⟨_, accepted, ⟨verdicts, judged, errors_eq⟩, ?_⟩
  rw [errors_eq]
  exact Leaf.reduceOption_eq_nil_iff judged

/-- The one violation in a number for a truth value. -/
theorem Program.check_reports_mismatch :
    let tokens : List Token :=
      [⟨.keyword .letWord, .single 0⟩, ⟨.identifier 0, .single 1⟩, ⟨.punct .atSign, .single 2⟩,
        ⟨.typeName .bool, .single 3⟩, ⟨.punct .equal, .single 4⟩, ⟨.integer 1, .single 5⟩,
        ⟨.punct .semicolon, .single 6⟩]
    let resolution := (Parsed.ofTokens 0 tokens).program.resolve .empty
    resolution.errors = [] ∧ ∃ checked,
      resolution.program.check resolution.arena = .ok checked ∧
        (∃ verdicts, List.Forall₂ (Leaf.HasOnlyVerdict 0) resolution.program.leaves verdicts ∧
          checked.errors = verdicts.reduceOption) ∧
        (checked.errors = [] ↔ ∀ leaf ∈ resolution.program.leaves, leaf.WellTyped) :=
  ⟨by decide, (Program.check_reports_first_violations 0 _).2 (by decide)⟩

/--
After a resolution without errors, checking adds types to the tree and changes nothing else, whether
or not it reports errors. Each type that stands in the checked tree is the one that the typing rules
give to its node, all nodes of a well-typed leaf have theirs, and no node has one in which a rule is
violated, at the node or below it.
-/
theorem Program.check_annotates (source : SourceId) (tokens : List Token) :
    let program := (Parsed.ofTokens source tokens).program
    let resolution := program.resolve .empty
    program.tryResolve .empty = .ok resolution ∧ (resolution.errors = [] → ∃ checked,
      resolution.program.check resolution.arena = .ok checked ∧
        checked.piece.withoutTypes = resolution.program.withoutTypes ∧
        ∀ leaf ∈ checked.piece.leaves, leaf.Annotated source) := by
  intro program resolution
  have fresh := Parsed.symbols_eq_nil source tokens
  refine ⟨program.tryResolve_eq .empty fresh, fun noErrors => ?_⟩
  rcases Program.check_follows _ fresh noErrors with ⟨accepted, follows⟩
  have untyped := Program.leaves_isUntyped_resolve .empty (Parsed.leaves_isUntyped source tokens)
  exact ⟨_, accepted, Program.withoutTypes_checkKnown _ _, follows.annotated untyped⟩

/-- The types beside a truth value in a sum. -/
theorem Program.check_annotates_sum :
    let tokens : List Token :=
      [⟨.keyword .letWord, .single 0⟩, ⟨.identifier 0, .single 1⟩, ⟨.punct .atSign, .single 2⟩,
        ⟨.typeName .u8, .single 3⟩, ⟨.punct .equal, .single 4⟩, ⟨.integer 1, .single 5⟩,
        ⟨.punct .plus, .single 6⟩, ⟨.boolean true, .single 7⟩, ⟨.punct .semicolon, .single 8⟩]
    let resolution := (Parsed.ofTokens 0 tokens).program.resolve .empty
    resolution.errors = [] ∧ ∃ checked,
      resolution.program.check resolution.arena = .ok checked ∧
        checked.piece.withoutTypes = resolution.program.withoutTypes ∧
        ∀ leaf ∈ checked.piece.leaves, leaf.Annotated 0 :=
  ⟨by decide, (Program.check_annotates 0 _).2 (by decide)⟩

end TypedLang
