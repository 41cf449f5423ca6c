import TypedLang.Proofs.Compilation
import TypedLang.Proofs.Listing.Readable
import TypedLang.Proofs.Reports.Plain

/-!
# Listings are faithful

Two compiled programs without decimals have the same listing if and only if they are alike. Every
name of such a program is a word of its text, and every span that a listing leaves out follows from
the grammar. The annotations of the later stages change neither names nor spans, so that this holds
of programs at any stage.
-/

namespace TypedLang

variable {interner : Interner}

mutual

theorem Expr.names_withoutSymbols : (value : Expr) → value.withoutSymbols.names = value.names
  | .binary _ left right _ _ => by
      simp only [Expr.withoutSymbols, Expr.names, left.names_withoutSymbols,
        right.names_withoutSymbols]
  | .unary _ operand _ _ => operand.names_withoutSymbols
  | .call callee arguments _ _ => by
      simp only [Expr.withoutSymbols, Expr.names, callee.names_withoutSymbols,
        Expr.namesOfAll_withoutSymbols arguments]
  | .grouping inner _ _ => inner.names_withoutSymbols
  | .literal _ _ _ => rfl
  | .identifier _ _ _ => rfl

theorem Expr.namesOfAll_withoutSymbols : (values : List Expr) →
    Expr.namesOfAll (Expr.withoutSymbolsOfAll values) = Expr.namesOfAll values
  | [] => rfl
  | first :: rest => by
      simp only [Expr.withoutSymbolsOfAll, Expr.namesOfAll, first.names_withoutSymbols,
        Expr.namesOfAll_withoutSymbols rest]

end

mutual

theorem Expr.names_withoutTypes : (value : Expr) → value.withoutTypes.names = value.names
  | .binary _ left right _ _ => by
      simp only [Expr.withoutTypes, Expr.names, left.names_withoutTypes, right.names_withoutTypes]
  | .unary _ operand _ _ => operand.names_withoutTypes
  | .call callee arguments _ _ => by
      simp only [Expr.withoutTypes, Expr.names, callee.names_withoutTypes,
        Expr.namesOfAll_withoutTypes arguments]
  | .grouping inner _ _ => inner.names_withoutTypes
  | .literal _ _ _ => rfl
  | .identifier _ _ _ => rfl

theorem Expr.namesOfAll_withoutTypes : (values : List Expr) →
    Expr.namesOfAll (Expr.withoutTypesOfAll values) = Expr.namesOfAll values
  | [] => rfl
  | first :: rest => by
      simp only [Expr.withoutTypesOfAll, Expr.namesOfAll, first.names_withoutTypes,
        Expr.namesOfAll_withoutTypes rest]

end

/-- Parts that may be missing have the names of the parts that they were made from. -/
theorem Expr.names_map {convert : Expr → Expr}
    (names : ∀ value, (convert value).names = value.names) (value : Option Expr) :
    (value.map convert).toList.flatMap Expr.names = value.toList.flatMap Expr.names := by
  cases value with
  | none => rfl
  | some value => simpa using names value

theorem LetDecl.names_withoutSymbols (decl : LetDecl) : decl.withoutSymbols.names = decl.names :=
  congrArg (decl.name :: ·) (Expr.names_map Expr.names_withoutSymbols decl.initializer)

theorem LetDecl.names_withoutTypes (decl : LetDecl) : decl.withoutTypes.names = decl.names :=
  congrArg (decl.name :: ·) (Expr.names_map Expr.names_withoutTypes decl.initializer)

mutual

theorem Stmt.names_withoutSymbols : (piece : Stmt) → piece.withoutSymbols.names = piece.names
  | .expression value _ => value.names_withoutSymbols
  | .letDecl decl => decl.names_withoutSymbols
  | .block statements _ => Stmt.namesOfAll_withoutSymbols statements
  | .returning value _ => Expr.names_map Expr.names_withoutSymbols value

theorem Stmt.namesOfAll_withoutSymbols : (statements : List Stmt) →
    Stmt.namesOfAll (Stmt.withoutSymbolsOfAll statements) = Stmt.namesOfAll statements
  | [] => rfl
  | first :: rest => by
      simp only [Stmt.withoutSymbolsOfAll, Stmt.namesOfAll, first.names_withoutSymbols,
        Stmt.namesOfAll_withoutSymbols rest]

end

mutual

theorem Stmt.names_withoutTypes : (piece : Stmt) → piece.withoutTypes.names = piece.names
  | .expression value _ => value.names_withoutTypes
  | .letDecl decl => decl.names_withoutTypes
  | .block statements _ => Stmt.namesOfAll_withoutTypes statements
  | .returning value _ => Expr.names_map Expr.names_withoutTypes value

theorem Stmt.namesOfAll_withoutTypes : (statements : List Stmt) →
    Stmt.namesOfAll (Stmt.withoutTypesOfAll statements) = Stmt.namesOfAll statements
  | [] => rfl
  | first :: rest => by
      simp only [Stmt.withoutTypesOfAll, Stmt.namesOfAll, first.names_withoutTypes,
        Stmt.namesOfAll_withoutTypes rest]

end

theorem Decl.names_withoutSymbols (decl : Decl) : decl.withoutSymbols.names = decl.names := by
  cases decl with
  | letDecl decl => exact decl.names_withoutSymbols
  | funDecl decl =>
      have parameters : (decl.parameters.map Parameter.withoutSymbol).map Parameter.name =
          decl.parameters.map Parameter.name := by
        simp [Parameter.withoutSymbol]
      simp only [Decl.withoutSymbols, Decl.names, FunDecl.withoutSymbols, parameters,
        Stmt.namesOfAll_withoutSymbols]

theorem Decl.names_withoutTypes (decl : Decl) : decl.withoutTypes.names = decl.names := by
  cases decl with
  | letDecl decl => exact decl.names_withoutTypes
  | funDecl decl =>
      simp only [Decl.withoutTypes, Decl.names, FunDecl.withoutTypes, Stmt.namesOfAll_withoutTypes]

theorem Decl.isRegular_withoutSymbols (decl : Decl) :
    decl.withoutSymbols.IsRegular ↔ decl.IsRegular := by
  cases decl with
  | letDecl decl => exact Iff.rfl
  | funDecl decl =>
      constructor
      · rintro ⟨parameters, stop_eq⟩
        exact ⟨List.forall_mem_map.mp parameters, stop_eq⟩
      · rintro ⟨parameters, stop_eq⟩
        exact ⟨List.forall_mem_map.mpr parameters, stop_eq⟩

theorem Decl.isRegular_withoutTypes (decl : Decl) :
    decl.withoutTypes.IsRegular ↔ decl.IsRegular := by
  cases decl with
  | letDecl decl => exact Iff.rfl
  | funDecl decl => exact ⟨fun ⟨parameters, stop_eq⟩ => ⟨parameters, stop_eq⟩,
      fun ⟨parameters, stop_eq⟩ => ⟨parameters, stop_eq⟩⟩

namespace Program

/-- Whether a program can be read depends on its declarations one by one. -/
theorem isReadable_iff {program : Program} : program.IsReadable interner ↔
    ∀ decl ∈ program.declarations,
      (∀ name ∈ decl.names, (interner.textOf name.key).IsLine) ∧ decl.IsRegular := by
  constructor
  · rintro ⟨isLine, isRegular⟩ decl member
    rw [names, List.forall_mem_flatMap] at isLine
    exact ⟨isLine decl member, isRegular decl member⟩
  · intro each
    refine ⟨?_, fun decl member => (each decl member).2⟩
    rw [names, List.forall_mem_flatMap]
    exact fun decl member => (each decl member).1

theorem isReadable_withoutSymbols (program : Program) :
    program.withoutSymbols.IsReadable interner ↔ program.IsReadable interner := by
  simp only [isReadable_iff, withoutSymbols, List.forall_mem_map, Decl.names_withoutSymbols,
    Decl.isRegular_withoutSymbols]

theorem isReadable_withoutTypes (program : Program) :
    program.withoutTypes.IsReadable interner ↔ program.IsReadable interner := by
  simp only [isReadable_iff, withoutTypes, List.forall_mem_map, Decl.names_withoutTypes,
    Decl.isRegular_withoutTypes]

theorem isReadable_resolve (program : Program) (arena : Arena) :
    (program.resolve arena).program.IsReadable interner ↔ program.IsReadable interner := by
  rw [← isReadable_withoutSymbols, withoutSymbols_resolve, isReadable_withoutSymbols]

theorem isReadable_checkKnown (program : Program) (arena : Arena) :
    (program.checkKnown arena).piece.IsReadable interner ↔ program.IsReadable interner := by
  rw [← isReadable_withoutTypes, withoutTypes_checkKnown, isReadable_withoutTypes]

end Program

/-- The spans of a declared function that are not listed follow from its grammar. -/
theorem Decl.Spelled.isRegular {recovered : Prop} {tokens : List Token} {decl : Decl}
    (spelled : decl.Spelled recovered tokens)
    (ascending : Span.Ascending (tokens.map Token.span)) : decl.IsRegular := by
  cases spelled with
  | letDecl spelled => trivial
  | @funDecl keyword _ _ opening close _ _ _ _ _ _ _ parameters =>
      rcases parameters with ⟨pieces, rfl, _, parametersSpelled⟩
      constructor
      · rintro parameter member
        rcases List.mem_map.mp member with ⟨⟨parameterTokens, _⟩, pieceMem, rfl⟩
        cases parametersSpelled _ pieceMem
        rfl
      · have before := (List.pairwise_cons.mp ascending.pairwise).1
          ⟨.punct .leftBrace, opening⟩ (by simp)
        have nonempty := opening.start_le_stop
        simp only [Span.combine] at before ⊢
        omega

theorem Parsed.isReadable_ofTokens (source : SourceId) {tokens : List Token}
    (ascending : Span.Ascending (tokens.map Token.span))
    (names : ∀ token ∈ tokens, ∀ key, token.lexeme = .identifier key →
      (interner.textOf key).IsLine) : (ofTokens source tokens).program.IsReadable interner := by
  have liesOn := program_liesOn source tokens ascending
  constructor
  · intro name member
    exact names name.token (liesOn.names.subset (List.mem_map_of_mem member)) name.key rfl
  · rcases liesOn.spelled with ⟨pieces, declarations_eq, spliced, spelled⟩
    rw [declarations_eq, List.forall_mem_map]
    intro piece member
    have inside : piece.1 ∈ pieces.map Prod.fst := List.mem_map_of_mem member
    exact (spelled piece member).isRegular
      (ascending.of_sublist ((List.sublist_flatten_of_mem inside).trans spliced.flatten_sublist))

theorem Interner.textOf_of_resolve {key : Key} {text : Bytes}
    (resolved : interner.resolve key = .ok text) : interner.textOf key = text := by
  rw [resolve_eq_ok_iff] at resolved
  rw [textOf, List.getD_eq_getElem?_getD, resolved, Option.getD_some]

namespace Outcome

theorem isReadable_ofTokens (source : SourceId) {tokens : List Token}
    (isReadable : (Parsed.ofTokens source tokens).program.IsReadable interner) :
    (ofTokens source tokens).program.IsReadable interner := by
  rw [ofTokens]
  split
  · exact isReadable
  · split
    · exact (Program.isReadable_resolve _ _).mpr isReadable
    · rw [Program.isReadable_checkKnown, Program.isReadable_resolve]
      exact isReadable

/-- What a run finds in a text can be read, also when more texts have been interned. -/
theorem isReadable_ofText (id : SourceId) (text : Bytes) {before : Interner}
    (grown : ((Lexer.ofText id text before).tokenize).2.interner.texts <+: interner.texts) :
    (ofText id text before).program.IsReadable interner := by
  rw [ofText]
  split
  · exact ⟨by simp [Program.empty, Program.names], by simp [Program.empty]⟩
  · refine isReadable_ofTokens id (Parsed.isReadable_ofTokens id
      (Lexer.ascending_tokenize id text before) fun token member key isIdentifier => ?_)
    rcases Lexer.exists_name_of_mem_tokenize member isIdentifier with ⟨word, resolved, isName⟩
    rw [Interner.textOf_of_resolve (Interner.resolve_of_extends grown resolved)]
    exact isName.isLine

end Outcome

theorem Program.isReadable_of_compile {registry : Registry} {id : SourceId}
    {before final : Interner} {output : Output}
    (compiled : compile registry id before = .ok (output, final))
    (grown : final.texts <+: interner.texts) : output.program.IsReadable interner := by
  rcases found : registry.get id with fault | source
  · rw [compile, Lexer.ofSource, found] at compiled
    cases compiled
  · rcases (Output.endsRun_of_compile found compiled).tells with ⟨tells, rfl⟩
    rw [tells.program_eq]
    exact Outcome.isReadable_ofText id source.text grown

/--
Listings are faithful. Two runs on any sources give programs; none has a decimal literal. Printed at
the end of the runs or later, these programs have the same listing if and only if they are alike:
they are the same in all but their keys and the starts of function bodies, and keys in the same
place stand for the same text.
-/
theorem Program.listing_eq_iff_alike {registry otherRegistry : Registry} {id otherId : SourceId}
    {before final reader otherBefore otherFinal otherReader : Interner} {output other : Output}
    (compiled : compile registry id before = .ok (output, final))
    (otherCompiled : compile otherRegistry otherId otherBefore = .ok (other, otherFinal))
    (grown : final.texts <+: reader.texts) (otherGrown : otherFinal.texts <+: otherReader.texts)
    (noDecimal : output.program.HasNoDecimal) (otherNoDecimal : other.program.HasNoDecimal) :
    Listing.program reader output.program = Listing.program otherReader other.program ↔
      output.program.Alike reader otherReader other.program := by
  constructor
  · have isReadable := isReadable_of_compile compiled grown
    have otherIsReadable := isReadable_of_compile otherCompiled otherGrown
    exact Listing.program_inj isReadable otherIsReadable noDecimal otherNoDecimal
  · exact Listing.program_of_alike

/-- Two functions whose bodies start at different places behind the type. -/
theorem Program.listing_eq_iff_alike_moved :
    ∃ output final other otherFinal,
      compile ⟨[⟨"first", "fun f(a @u8) @u8 { return a; }"⟩]⟩ 0 .empty = .ok (output, final) ∧
      compile ⟨[⟨"second", "fun f(a @u8) @u8  {return a; }"⟩]⟩ 0 ⟨["other"]⟩ =
        .ok (other, otherFinal) ∧
      output.program.HasNoDecimal ∧ other.program.HasNoDecimal ∧
      Listing.program final output.program = Listing.program otherFinal other.program ∧
      output.program.functions.map (·.body.span.start) = [17] ∧
      other.program.functions.map (·.body.span.start) = [18] ∧
      output.program.Alike final otherFinal other.program := by
  let first : Registry := ⟨[⟨"first", "fun f(a @u8) @u8 { return a; }"⟩]⟩
  let second : Registry := ⟨[⟨"second", "fun f(a @u8) @u8  {return a; }"⟩]⟩
  let listing (run : Output × Interner) := Listing.program run.2 run.1.program
  let hasNoDecimal (run : Output × Interner) : Bool := run.1.program.HasNoDecimal
  let starts (run : Output × Interner) := run.1.program.functions.map (·.body.span.start)
  rcases compile_isOk (rfl : first.get 0 = _) .empty with ⟨output, final, compiled, _⟩
  rcases compile_isOk (rfl : second.get 0 = _) ⟨["other"]⟩ with
    ⟨other, otherFinal, otherCompiled, _⟩
  have same : (compile first 0 .empty).map listing =
      (compile second 0 ⟨["other"]⟩).map listing := by decide +kernel
  have free : (compile first 0 .empty).map hasNoDecimal = .ok true ∧
      (compile second 0 ⟨["other"]⟩).map hasNoDecimal = .ok true := by decide +kernel
  have bodies : (compile first 0 .empty).map starts = .ok [17] ∧
      (compile second 0 ⟨["other"]⟩).map starts = .ok [18] := by decide +kernel
  rw [compiled, otherCompiled] at same free bodies
  have listing_eq := Except.ok.inj same
  have noDecimal := of_decide_eq_true (Except.ok.inj free.1)
  have otherNoDecimal := of_decide_eq_true (Except.ok.inj free.2)
  refine ⟨output, final, other, otherFinal, compiled, otherCompiled, noDecimal, otherNoDecimal,
    listing_eq, Except.ok.inj bodies.1, Except.ok.inj bodies.2, ?_⟩
  exact (listing_eq_iff_alike compiled otherCompiled (List.prefix_refl _) (List.prefix_refl _)
    noDecimal otherNoDecimal).mp listing_eq

end TypedLang
