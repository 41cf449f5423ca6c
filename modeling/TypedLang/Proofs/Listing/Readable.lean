import TypedLang.Proofs.Listing.Programs

/-!
# Listings can be read back

A printed listing is read back line by line if none of its lines is broken by a newline. Strings are
written with escapes, and all other words but names are fixed, so that only a name could break a
line. A program whose names have no newline is therefore told by its printed listing.
-/

namespace TypedLang

namespace Listing

variable {interner : Interner}

theorem isLine_spanText (span : Span) : (spanText span).IsLine := by
  have words : Bytes.IsLine " span=" ∧ Bytes.IsLine ".." := by decide
  simp [spanText, words, Bytes.isLine_ofNat]

theorem isLine_symbolText (symbol : Option SymbolId) : (symbolText symbol).IsLine := by
  have words : Bytes.IsLine " symbol=#" := by decide
  cases symbol <;> simp [symbolText, words, Bytes.isLine_ofNat]

theorem isLine_nameText {key : Key} (isLine : (interner.textOf key).IsLine) :
    (nameText interner key).IsLine := by
  have quote : Byte.quote ≠ Byte.newline := by decide
  simp [nameText_eq, quote, isLine]

theorem isLine_literalText (interner : Interner) {value : Literal}
    (noDecimal : ¬ value.IsDecimal) : (literalText interner value).IsLine := by
  have words : Bytes.IsLine "kind=Integer value=" ∧ Bytes.IsLine "kind=String value=" ∧
      Bytes.IsLine "kind=Boolean value=" := by decide
  have quote : Byte.quote ≠ Byte.newline := by decide
  cases value with
  | integer value => simp [literalText, words, Bytes.isLine_ofNat]
  | decimal value => exact absurd trivial noDecimal
  | string key => simp [literalText, words, quotedText_eq, quote, isLine_flatMap_escape]
  | boolean value =>
      have isLine : (booleanText value).IsLine := by cases value <;> decide
      simp [literalText, words, isLine]

theorem isHeading_numberText {word : Bytes} (isHeading : word.IsHeading) (index : Nat) :
    (numberText word index).IsHeading := by
  have bracket : Bytes.IsLine "]" := by decide
  exact isHeading.append (by simp [bracket, Bytes.isLine_ofNat])

theorem isHeading_label (interner : Interner) {value : Expr} (noDecimal : ¬ value.IsDecimal)
    (names : ∀ name ∈ value.names, (interner.textOf name.key).IsLine) :
    (label interner value).IsHeading := by
  cases value with
  | binary op left right span type =>
      have all : ∀ op : BinaryOp, Bytes.IsHeading
        (Bytes.concat [op.levelName, " op=", op.spelling]) := by decide +kernel
      exact all op
  | unary op operand span type =>
      have both : Bytes.IsHeading (Bytes.concat ["Unary op=", UnaryOp.negate.spelling]) ∧
        Bytes.IsHeading (Bytes.concat ["Unary op=", UnaryOp.complement.spelling]) := by decide
      cases op with
      | negate => exact both.1
      | complement => exact both.2
  | call callee arguments span type => exact show Bytes.IsHeading "Call" by decide
  | grouping inner span type => exact show Bytes.IsHeading "Grouping" by decide
  | literal value span type =>
      have word : Bytes.IsHeading "Literal " := by decide
      exact word.append (by simp [isLine_literalText interner noDecimal])
  | identifier name symbol type =>
      have word : Bytes.IsHeading "Id " := by decide
      have isLine := isLine_nameText (names name List.mem_cons_self)
      exact word.append (by simp [isLine, isLine_symbolText])

/-- The lines of an expression can be read if those of its parts can. -/
theorem isHeading_of_parts {value : Expr} (noDecimal : value.HasNoDecimal)
    (names : ∀ name ∈ value.names, (interner.textOf name.key).IsLine)
    (headings : ∀ line ∈ parts interner value, line.text.IsHeading) :
    ∀ line ∈ expression interner value, line.text.IsHeading := by
  have label := isHeading_label interner noDecimal.root names
  rw [expression_eq]
  refine Line.isHeading_under (.append ?_ (isLine_spanText _)) headings
  rcases value.type with _ | type
  · exact label
  · have all : ∀ type ∈ Ty.all, (typeText (some type)).IsHeading := by decide +kernel
    exact (all type type.mem_all).append label.1

theorem isHeading_argumentsFrom (index : Nat) {arguments : List Expr}
    (headings : ∀ argument ∈ arguments, ∀ line ∈ expression interner argument,
      line.text.IsHeading) :
    ∀ line ∈ argumentsFrom interner index arguments, line.text.IsHeading := by
  have word : Bytes.IsHeading "Arg[" := by decide
  rw [argumentsFrom_eq]
  exact Line.isHeading_numbered (fun _ _ index => isHeading_numberText word index) headings

mutual

/-- The lines of an expression can be read if no name in it breaks a line. -/
theorem isHeading_expression : (value : Expr) → value.HasNoDecimal →
    (∀ name ∈ value.names, (interner.textOf name.key).IsLine) →
      ∀ line ∈ expression interner value, line.text.IsHeading
  | .binary op left right span type, noDecimal, names => by
      rcases Expr.hasNoDecimal_binary noDecimal with ⟨leftFree, rightFree⟩
      rcases List.forall_mem_append.mp names with ⟨leftNames, rightNames⟩
      refine isHeading_of_parts noDecimal names (List.forall_mem_append.mpr ⟨?_, ?_⟩)
      · exact isHeading_expression left leftFree leftNames
      · exact isHeading_expression right rightFree rightNames
  | .unary op operand span type, noDecimal, names => by
      refine isHeading_of_parts noDecimal names ?_
      exact isHeading_expression operand (List.forall_mem_cons.mp noDecimal).2 names
  | .call callee arguments span type, noDecimal, names => by
      rcases Expr.hasNoDecimal_call noDecimal with ⟨calleeFree, argumentsFree⟩
      rcases List.forall_mem_append.mp names with ⟨calleeNames, argumentNames⟩
      refine isHeading_of_parts noDecimal names (List.forall_mem_append.mpr ⟨?_, ?_⟩)
      · exact isHeading_expression callee calleeFree calleeNames
      · exact isHeading_argumentsFrom 0
          (isHeading_expressions arguments argumentsFree argumentNames)
  | .grouping inner span type, noDecimal, names => by
      refine isHeading_of_parts noDecimal names ?_
      exact isHeading_expression inner (List.forall_mem_cons.mp noDecimal).2 names
  | .literal value span type, noDecimal, names =>
      isHeading_of_parts noDecimal names (by simp [parts])
  | .identifier name symbol type, noDecimal, names =>
      isHeading_of_parts noDecimal names (by simp [parts])

theorem isHeading_expressions : (values : List Expr) →
    (∀ inner ∈ Expr.subexpressionsOfAll values, ¬ inner.IsDecimal) →
    (∀ name ∈ Expr.namesOfAll values, (interner.textOf name.key).IsLine) →
      ∀ value ∈ values, ∀ line ∈ expression interner value, line.text.IsHeading
  | [], _, _ => by simp
  | value :: values, noDecimals, names => by
      rcases List.forall_mem_append.mp noDecimals with ⟨valueFree, valuesFree⟩
      rcases List.forall_mem_append.mp names with ⟨valueNames, otherNames⟩
      exact List.forall_mem_cons.mpr ⟨isHeading_expression value valueFree valueNames,
        isHeading_expressions values valuesFree otherNames⟩

end

theorem isHeading_declaredText {word : Bytes} (isHeading : word.IsHeading)
    (symbol : Option SymbolId) (span : Span) :
    (declaredText word symbol ++ spanText span).IsHeading :=
  (isHeading.append (isLine_symbolText symbol)).append (isLine_spanText span)

theorem isHeading_name {declared : Name} (isLine : (interner.textOf declared.key).IsLine) :
    (name interner declared).text.IsHeading := by
  have word : Bytes.IsHeading "Name " := by decide
  exact word.append (by simp [isLine_nameText isLine, isLine_spanText])

theorem isHeading_writtenType {label : Bytes} (isHeading : label.IsHeading)
    (written : WrittenType) : (writtenType label written).text.IsHeading := by
  have types : ∀ type ∈ Ty.all, Bytes.IsLine type.name := by decide
  have blank : Bytes.IsLine " " := by decide
  exact isHeading.append (by simp [blank, types _ written.type.mem_all, isLine_spanText])

theorem isHeading_optional {linesOf : Expr → List Line} {value : Option Expr}
    (noDecimals : ∀ inner ∈ value.toList.flatMap Expr.subexpressions, ¬ inner.IsDecimal)
    (names : ∀ name ∈ value.toList.flatMap Expr.names, (interner.textOf name.key).IsLine)
    (headings : ∀ inner, (∀ line ∈ expression interner inner, line.text.IsHeading) →
      ∀ line ∈ linesOf inner, line.text.IsHeading) :
    ∀ line ∈ optional linesOf value, line.text.IsHeading := by
  cases value with
  | none => simp [optional]
  | some value =>
      have free : value.HasNoDecimal := by simpa [Expr.HasNoDecimal] using noDecimals
      exact headings value (isHeading_expression value free (by simpa using names))

theorem isHeading_letDecl {decl : LetDecl}
    (noDecimals : ∀ inner ∈ decl.expressions, ¬ inner.IsDecimal)
    (names : ∀ name ∈ decl.names, (interner.textOf name.key).IsLine) :
    ∀ line ∈ letDecl interner decl, line.text.IsHeading := by
  have words : Bytes.IsHeading "Let" ∧ Bytes.IsHeading "Type" ∧ Bytes.IsHeading "Initializer" := by
    decide
  rcases List.forall_mem_cons.mp names with ⟨nameIsLine, otherNames⟩
  rw [letDecl_eq]
  refine Line.isHeading_under (isHeading_declaredText words.1 _ _) ?_
  refine List.forall_mem_cons.mpr ⟨isHeading_name nameIsLine, ?_⟩
  refine List.forall_mem_cons.mpr ⟨isHeading_writtenType words.2.1 _, ?_⟩
  exact isHeading_optional noDecimals otherNames fun _ => Line.isHeading_under words.2.2

theorem isHeading_statementsFrom {index : Nat} {statements : List Stmt}
    (headings : ∀ piece ∈ statements, ∀ line ∈ statement interner piece, line.text.IsHeading) :
    ∀ line ∈ statementsFrom interner index statements, line.text.IsHeading := by
  have word : Bytes.IsHeading "Statement[" := by decide
  rw [statementsFrom_eq]
  exact Line.isHeading_numbered (fun _ _ index => isHeading_numberText word index) headings

/-- The lines of a statement can be read if those of its parts can. -/
theorem isHeading_of_statementParts {piece : Stmt}
    (headings : ∀ line ∈ statementParts interner piece, line.text.IsHeading) :
    ∀ line ∈ statement interner piece, line.text.IsHeading := by
  have words : Bytes.IsHeading "ExprStmt" ∧ Bytes.IsHeading "Let" ∧ Bytes.IsHeading "Block" ∧
      Bytes.IsHeading "Return" := by decide
  rw [statement_eq]
  refine Line.isHeading_under (.append ?_ (isLine_spanText _)) headings
  cases piece with
  | expression value span => exact words.1
  | letDecl decl => exact words.2.1.append (isLine_symbolText _)
  | block statements span => exact words.2.2.1
  | returning value span => exact words.2.2.2

mutual

/-- The lines of a statement can be read if no name in it breaks a line. -/
theorem isHeading_statement : (piece : Stmt) →
    (∀ inner ∈ piece.expressions, ¬ inner.IsDecimal) →
    (∀ name ∈ piece.names, (interner.textOf name.key).IsLine) →
      ∀ line ∈ statement interner piece, line.text.IsHeading
  | .expression value _, noDecimals, names =>
      isHeading_of_statementParts (isHeading_expression value noDecimals names)
  | .letDecl _, noDecimals, names => isHeading_letDecl noDecimals names
  | .block statements _, noDecimals, names =>
      isHeading_of_statementParts
        (isHeading_statementsFrom (isHeading_statements statements noDecimals names))
  | .returning _ _, noDecimals, names =>
      isHeading_of_statementParts (isHeading_optional noDecimals names fun _ => id)

theorem isHeading_statements : (statements : List Stmt) →
    (∀ inner ∈ Stmt.expressionsOfAll statements, ¬ inner.IsDecimal) →
    (∀ name ∈ Stmt.namesOfAll statements, (interner.textOf name.key).IsLine) →
      ∀ piece ∈ statements, ∀ line ∈ statement interner piece, line.text.IsHeading
  | [], _, _ => by simp
  | piece :: statements, noDecimals, names => by
      rcases List.forall_mem_append.mp noDecimals with ⟨pieceFree, statementsFree⟩
      rcases List.forall_mem_append.mp names with ⟨pieceNames, otherNames⟩
      exact List.forall_mem_cons.mpr ⟨isHeading_statement piece pieceFree pieceNames,
        isHeading_statements statements statementsFree otherNames⟩

end

theorem isHeading_parameters {parameters : List Parameter}
    (names : ∀ name ∈ parameters.map Parameter.name, (interner.textOf name.key).IsLine) :
    ∀ line ∈ Listing.parameters interner parameters, line.text.IsHeading := by
  have words : Bytes.IsHeading "Param[" ∧ Bytes.IsHeading "Type" := by decide
  rw [List.forall_mem_map] at names
  rw [parameters_eq]
  refine Line.isHeading_listed (fun parameter _ index => ?_) fun parameter member => ?_
  · exact (isHeading_numberText words.1 index).append (isLine_symbolText _)
  · simpa [parameterParts] using
      ⟨isHeading_name (names parameter member), isHeading_writtenType words.2 _⟩

theorem isHeading_declaration {decl : Decl}
    (noDecimals : ∀ inner ∈ decl.expressions, ¬ inner.IsDecimal)
    (names : ∀ name ∈ decl.names, (interner.textOf name.key).IsLine) :
    ∀ line ∈ declaration interner decl, line.text.IsHeading := by
  have words : Bytes.IsHeading "Function" ∧ Bytes.IsHeading "Parameters" ∧
      Bytes.IsHeading "ReturnType" ∧ Bytes.IsHeading "Body" := by decide
  cases decl with
  | letDecl decl => exact isHeading_letDecl noDecimals names
  | funDecl decl =>
      rcases List.forall_mem_cons.mp names with ⟨nameIsLine, otherNames⟩
      rcases List.forall_mem_append.mp otherNames with ⟨parameterNames, statementNames⟩
      have statements := isHeading_statements decl.body.statements noDecimals statementNames
      rw [declaration, funDecl_eq]
      refine Line.isHeading_under (isHeading_declaredText words.1 _ _) ?_
      refine List.forall_mem_cons.mpr ⟨isHeading_name nameIsLine, ?_⟩
      refine List.forall_mem_append.mpr
        ⟨Line.isHeading_under words.2.1 (isHeading_parameters parameterNames), ?_⟩
      refine List.forall_mem_cons.mpr ⟨isHeading_writtenType words.2.2.1 _, ?_⟩
      exact Line.isHeading_under words.2.2.2 (isHeading_statementsFrom statements)

theorem isHeading_declarations {declarations : List Decl}
    (headings : ∀ decl ∈ declarations, ∀ line ∈ declaration interner decl, line.text.IsHeading) :
    ∀ line ∈ Listing.declarations interner declarations, line.text.IsHeading := by
  have word : Bytes.IsHeading "Statement[" := by decide
  rw [declarations_eq]
  exact Line.isHeading_listed (fun _ _ index => isHeading_numberText word index) headings

end Listing

/--
A program that can be read in its listing: no name breaks a line, and the spans that are not shown
follow from those that are.
-/
structure Program.IsReadable (interner : Interner) (program : Program) : Prop where
  isLine : ∀ name ∈ program.names, (interner.textOf name.key).IsLine
  isRegular : ∀ decl ∈ program.declarations, decl.IsRegular

namespace Listing

theorem isHeading_program {interner : Interner} {program : Program}
    (isReadable : program.IsReadable interner) (noDecimal : program.HasNoDecimal) :
    ∀ line ∈ Line.under (Bytes.concat ["Program", spanText program.span])
      (declarations interner program.declarations), line.text.IsHeading := by
  have word : Bytes.IsHeading "Program" := by decide
  have isLine := isReadable.isLine
  rw [Program.names, List.forall_mem_flatMap] at isLine
  rw [Program.HasNoDecimal, Program.expressions, List.forall_mem_flatMap] at noDecimal
  refine Line.isHeading_under (word.append (by simp [isLine_spanText])) ?_
  exact isHeading_declarations fun decl member =>
    isHeading_declaration (noDecimal decl member) (isLine decl member)

/-- Programs without decimals that have the same printed listing are alike. -/
theorem program_inj {first second : Interner} {program other : Program}
    (isReadable : program.IsReadable first) (otherIsReadable : other.IsReadable second)
    (noDecimal : program.HasNoDecimal) (otherNoDecimal : other.HasNoDecimal)
    (same : Listing.program first program = Listing.program second other) :
    program.Alike first second other := by
  have lines_eq := Line.renderAll_inj (isHeading_program isReadable noDecimal)
    (isHeading_program otherIsReadable otherNoDecimal) same
  rcases Line.under_inj lines_eq with ⟨headings, declarations_eq⟩
  rw [Program.HasNoDecimal, Program.expressions, List.forall_mem_flatMap]
    at noDecimal otherNoDecimal
  refine ⟨declarations_inj (fun decl member other otherMember => ?_) declarations_eq, ?_⟩
  · exact declaration_inj (isReadable.isRegular decl member)
      (otherIsReadable.isRegular other otherMember) (noDecimal decl member)
      (otherNoDecimal other otherMember)
  · simp only [Bytes.concat, List.flatten_cons, List.flatten_nil, List.append_nil] at headings
    exact (spanText_append_inj headings).2

end Listing

end TypedLang
