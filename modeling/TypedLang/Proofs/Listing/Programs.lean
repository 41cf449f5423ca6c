import TypedLang.Proofs.Listing.Expressions

/-!
# Listings tell programs apart

What holds of expressions holds of statements, declarations and programs: their headings tell them
apart, and the lines below a heading tell the parts. Two spans are not shown in a listing, that of a
parameter and that of a body. The first is told by the spans of its parts, and of the second its
stop by the span of the function.
-/

namespace TypedLang

section

variable (first second : Interner)

/-- Declarations of variables are alike if they are the same but for their keys. -/
structure LetDecl.Alike (decl other : LetDecl) : Prop where
  name : decl.name.Alike first second other.name
  type_eq : decl.type = other.type
  initializer : Option.Rel (Expr.Alike first second) decl.initializer other.initializer
  symbol_eq : decl.symbol = other.symbol
  span_eq : decl.span = other.span

/-- Statements are alike if they are the same but for their keys. -/
inductive Stmt.Alike : Stmt → Stmt → Prop where
  | expression {value other : Expr} {span : Span} :
      value.Alike first second other → Alike (.expression value span) (.expression other span)
  | letDecl {decl other : LetDecl} :
      decl.Alike first second other → Alike (.letDecl decl) (.letDecl other)
  | block {statements others : List Stmt} {span : Span} :
      List.Forall₂ Alike statements others → Alike (.block statements span) (.block others span)
  | returning {value other : Option Expr} {span : Span} :
      Option.Rel (Expr.Alike first second) value other →
      Alike (.returning value span) (.returning other span)

/-- Parameters are alike if they are the same but for their keys. -/
structure Parameter.Alike (parameter other : Parameter) : Prop where
  name : parameter.name.Alike first second other.name
  type_eq : parameter.type = other.type
  symbol_eq : parameter.symbol = other.symbol
  span_eq : parameter.span = other.span

/-- Functions are alike if they are the same but for their keys and the starts of their bodies. -/
structure FunDecl.Alike (decl other : FunDecl) : Prop where
  name : decl.name.Alike first second other.name
  parameters : List.Forall₂ (Parameter.Alike first second) decl.parameters other.parameters
  returnType_eq : decl.returnType = other.returnType
  statements : List.Forall₂ (Stmt.Alike first second) decl.body.statements other.body.statements
  stop_eq : decl.body.span.stop = other.body.span.stop
  symbol_eq : decl.symbol = other.symbol
  span_eq : decl.span = other.span

/-- Declarations are alike if they are of the same kind and alike. -/
inductive Decl.Alike : Decl → Decl → Prop where
  | funDecl {decl other : FunDecl} :
      decl.Alike first second other → Alike (.funDecl decl) (.funDecl other)
  | letDecl {decl other : LetDecl} :
      decl.Alike first second other → Alike (.letDecl decl) (.letDecl other)

/--
Programs are alike if they are the same but for the keys of their names and strings, which stand for
the same texts, and the starts of function bodies.
-/
structure Program.Alike (program other : Program) : Prop where
  declarations : List.Forall₂ (Decl.Alike first second) program.declarations other.declarations
  span_eq : program.span = other.span

end

/-- The spans of a function that a listing does not show follow from those that it shows. -/
structure FunDecl.IsRegular (decl : FunDecl) : Prop where
  parameters : ∀ parameter ∈ decl.parameters,
    parameter.span = parameter.name.span.combine parameter.type.span
  stop_eq : decl.body.span.stop = decl.span.stop

/-- A declaration is regular if it is a regular function or a variable. -/
def Decl.IsRegular : Decl → Prop
  | .funDecl decl => decl.IsRegular
  | .letDecl _ => True

/-- Whether there is no decimal literal in a program. -/
def Program.HasNoDecimal (program : Program) : Prop :=
  ∀ value ∈ program.expressions, ¬ value.IsDecimal

instance : DecidablePred Program.HasNoDecimal :=
  fun program => inferInstanceAs (Decidable (∀ value ∈ program.expressions, ¬ value.IsDecimal))

namespace Listing

variable {first second : Interner}

theorem name_inj {declared other : Name} (same : name first declared = name second other) :
    declared.Alike first second other := by
  have texts := congrArg Line.text same
  simp only [name, Bytes.concat, List.flatten_cons, List.flatten_nil, List.append_nil,
    ← List.append_assoc] at texts
  rcases spanText_append_inj texts with ⟨words, span_eq⟩
  exact ⟨nameText_inj (List.append_cancel_left words), span_eq⟩

theorem writtenType_inj {label : Bytes} {written other : WrittenType}
    (same : writtenType label written = writtenType label other) : written = other := by
  have texts := congrArg Line.text same
  simp only [writtenType, Bytes.concat, List.flatten_cons, List.flatten_nil, List.append_nil,
    ← List.append_assoc] at texts
  rcases spanText_append_inj texts with ⟨words, span_eq⟩
  have type_eq := Ty.name_injective (List.append_cancel_left words)
  rcases written with ⟨type, span⟩
  rcases other with ⟨otherType, otherSpan⟩
  cases type_eq
  cases span_eq
  rfl

/-- The lines of a part that may be missing. -/
def optional (linesOf : Expr → List Line) : Option Expr → List Line
  | none => []
  | some value => linesOf value

/-- A part is told by its lines, and whether there is one by whether there are lines. -/
theorem optional_inj {linesOf : Interner → Expr → List Line} {value other : Option Expr}
    (nonempty : ∀ interner inner, linesOf interner inner ≠ [])
    (told : ∀ inner otherInner, linesOf first inner = linesOf second otherInner →
      expression first inner = expression second otherInner)
    (noDecimals : ∀ inner ∈ value.toList.flatMap Expr.subexpressions, ¬ inner.IsDecimal)
    (otherNoDecimals : ∀ inner ∈ other.toList.flatMap Expr.subexpressions, ¬ inner.IsDecimal)
    (same : optional (linesOf first) value = optional (linesOf second) other) :
    Option.Rel (Expr.Alike first second) value other := by
  cases value with
  | none =>
      cases other with
      | none => exact .none
      | some other => exact absurd same.symm (nonempty second other)
  | some value =>
      cases other with
      | none => exact absurd same (nonempty first value)
      | some other =>
          have free : value.HasNoDecimal := by simpa [Expr.HasNoDecimal] using noDecimals
          have otherFree : other.HasNoDecimal := by
            simpa [Expr.HasNoDecimal] using otherNoDecimals
          exact .some ((tells first second value free).alike otherFree (told value other same))

/-- The lines of the initializer of a variable. -/
def initializer (interner : Interner) (value : Expr) : List Line :=
  Line.under "Initializer" (expression interner value)

/-- The heading of a declaration in front of its span. -/
def declaredText (word : Bytes) (symbol : Option SymbolId) : Bytes :=
  word ++ symbolText symbol

theorem letDecl_eq (interner : Interner) (decl : LetDecl) : letDecl interner decl =
    Line.under (declaredText "Let" decl.symbol ++ spanText decl.span)
      (name interner decl.name :: writtenType "Type" decl.type ::
        optional (initializer interner) decl.initializer) := by
  rw [letDecl]
  cases decl.initializer <;> simp [Bytes.concat, declaredText, optional, initializer]

theorem letDecl_inj {decl other : LetDecl}
    (noDecimals : ∀ inner ∈ decl.expressions, ¬ inner.IsDecimal)
    (otherNoDecimals : ∀ inner ∈ other.expressions, ¬ inner.IsDecimal)
    (same : letDecl first decl = letDecl second other) : decl.Alike first second other := by
  rw [letDecl_eq, letDecl_eq] at same
  rcases Line.under_inj same with ⟨headings, parts_eq⟩
  rcases spanText_append_inj headings with ⟨words, span_eq⟩
  rcases List.cons.inj parts_eq with ⟨names_eq, parts_eq⟩
  rcases List.cons.inj parts_eq with ⟨types_eq, initializers_eq⟩
  have nonempty (interner : Interner) (value : Expr) : initializer interner value ≠ [] :=
    List.cons_ne_nil _ _
  exact {
    name := name_inj names_eq
    type_eq := writtenType_inj types_eq
    initializer := optional_inj nonempty (fun _ _ lines_eq => (Line.under_inj lines_eq).2)
      noDecimals otherNoDecimals initializers_eq
    symbol_eq := symbolText_injective (List.append_cancel_left words)
    span_eq := span_eq }

/-- The heading of a statement in front of its span. -/
def statementLabel : Stmt → Bytes
  | .expression _ _ => "ExprStmt"
  | .letDecl decl => declaredText "Let" decl.symbol
  | .block _ _ => "Block"
  | .returning _ _ => "Return"

/-- The first letter of the heading of a statement. -/
def statementInitial : Stmt → Byte
  | .expression _ _ => 69
  | .letDecl _ => 76
  | .block _ _ => 66
  | .returning _ _ => 82

theorem head?_statementLabel (piece : Stmt) :
    (statementLabel piece).head? = some (statementInitial piece) := by
  cases piece <;> rfl

/-- The lines below the heading of a statement. -/
def statementParts (interner : Interner) : Stmt → List Line
  | .expression value _ => expression interner value
  | .letDecl decl =>
      name interner decl.name :: writtenType "Type" decl.type ::
        optional (initializer interner) decl.initializer
  | .block statements _ => statementsFrom interner 0 statements
  | .returning value _ => optional (expression interner) value

theorem statement_eq (interner : Interner) (piece : Stmt) : statement interner piece =
    Line.under (statementLabel piece ++ spanText piece.span) (statementParts interner piece) := by
  cases piece with
  | expression value span => simp [statement, statementLabel, statementParts, Stmt.span,
      Bytes.concat]
  | letDecl decl => exact letDecl_eq interner decl
  | block statements span => simp [statement, statementLabel, statementParts, Stmt.span,
      Bytes.concat]
  | returning value span =>
      cases value <;> simp [statement, statementLabel, statementParts, Stmt.span, Bytes.concat,
        optional]

theorem statementsFrom_eq (interner : Interner) (index : Nat) (statements : List Stmt) :
    statementsFrom interner index statements =
      Line.numbered (fun index _ => numberText "Statement[" index) (statement interner) index
        statements := by
  induction statements generalizing index with
  | nil => rfl
  | cons piece statements ih => rw [statementsFrom, ih, Line.numbered, numberText]

/-- The heading of a statement tells its kind and its span. -/
theorem statement_split {piece other : Stmt}
    (same : statement first piece = statement second other) :
    statementInitial piece = statementInitial other ∧ piece.span = other.span ∧
      statementParts first piece = statementParts second other := by
  rw [statement_eq, statement_eq] at same
  rcases Line.under_inj same with ⟨headings, parts_eq⟩
  rcases spanText_append_inj headings with ⟨labels, span_eq⟩
  have letters := congrArg List.head? labels
  rw [head?_statementLabel, head?_statementLabel] at letters
  exact ⟨Option.some.inj letters, span_eq, parts_eq⟩

theorem statementsFrom_inj {index : Nat} {statements others : List Stmt}
    (alike : ∀ piece ∈ statements, ∀ other ∈ others,
      statement first piece = statement second other → piece.Alike first second other)
    (same : statementsFrom first index statements = statementsFrom second index others) :
    List.Forall₂ (Stmt.Alike first second) statements others := by
  rw [statementsFrom_eq, statementsFrom_eq] at same
  exact Line.numbered_inj
    (fun piece member other otherMember _ _ => alike piece member other otherMember) same

mutual

/-- The lines of a statement without decimals tell it. -/
theorem statement_inj : (piece : Stmt) → (other : Stmt) →
    (∀ inner ∈ piece.expressions, ¬ inner.IsDecimal) →
    (∀ inner ∈ other.expressions, ¬ inner.IsDecimal) →
    statement first piece = statement second other → piece.Alike first second other
  | .expression value span, other, noDecimals, otherNoDecimals, same => by
      rcases statement_split same with ⟨kinds, span_eq, parts_eq⟩
      cases other with
      | expression otherValue otherSpan =>
          cases span_eq
          exact .expression ((tells first second value noDecimals).alike otherNoDecimals parts_eq)
      | _ => cases kinds
  | .letDecl decl, other, noDecimals, otherNoDecimals, same => by
      rcases statement_split same with ⟨kinds, _, _⟩
      cases other with
      | letDecl otherDecl => exact .letDecl (letDecl_inj noDecimals otherNoDecimals same)
      | _ => cases kinds
  | .block statements span, other, noDecimals, otherNoDecimals, same => by
      rcases statement_split same with ⟨kinds, span_eq, parts_eq⟩
      cases other with
      | block others otherSpan =>
          cases span_eq
          rw [Stmt.expressions, Stmt.expressionsOfAll_eq_flatMap, List.forall_mem_flatMap]
            at otherNoDecimals
          exact .block (statementsFrom_inj (fun piece member other otherMember =>
            statements_inj statements noDecimals piece member other
              (otherNoDecimals other otherMember)) parts_eq)
      | _ => cases kinds
  | .returning value span, other, noDecimals, otherNoDecimals, same => by
      rcases statement_split same with ⟨kinds, span_eq, parts_eq⟩
      cases other with
      | returning otherValue otherSpan =>
          cases span_eq
          exact .returning (optional_inj expression_ne_nil (fun _ _ => id) noDecimals
            otherNoDecimals parts_eq)
      | _ => cases kinds

theorem statements_inj : (statements : List Stmt) →
    (∀ inner ∈ Stmt.expressionsOfAll statements, ¬ inner.IsDecimal) →
    ∀ piece ∈ statements, ∀ other : Stmt, (∀ inner ∈ other.expressions, ¬ inner.IsDecimal) →
      statement first piece = statement second other → piece.Alike first second other
  | [], _ => by simp
  | piece :: statements, noDecimals => by
      rcases List.forall_mem_append.mp noDecimals with ⟨pieceFree, statementsFree⟩
      exact List.forall_mem_cons.mpr
        ⟨fun other otherFree same => statement_inj piece other pieceFree otherFree same,
          statements_inj statements statementsFree⟩

end

/-- The heading of a parameter. -/
def parameterText (index : Nat) (parameter : Parameter) : Bytes :=
  declaredText (numberText "Param[" index) parameter.symbol

/-- The lines below the heading of a parameter. -/
def parameterParts (interner : Interner) (parameter : Parameter) : List Line :=
  [name interner parameter.name, writtenType "Type" parameter.type]

theorem parametersFrom_eq (interner : Interner) (index : Nat) (parameters : List Parameter) :
    parametersFrom interner index parameters =
      Line.numbered parameterText (parameterParts interner) index parameters := by
  induction parameters generalizing index with
  | nil => rfl
  | cons parameter parameters ih =>
      rw [parametersFrom, ih, Line.numbered]
      simp [parameterText, parameterParts, declaredText, numberText, Bytes.concat]

theorem parameters_eq (interner : Interner) (parameters : List Parameter) :
    Listing.parameters interner parameters =
      Line.listed parameterText (parameterParts interner) parameters := by
  cases parameters with
  | nil => rfl
  | cons parameter parameters => exact parametersFrom_eq interner 0 _

theorem parameters_inj {parameters others : List Parameter}
    (spans : ∀ parameter ∈ parameters,
      parameter.span = parameter.name.span.combine parameter.type.span)
    (otherSpans : ∀ parameter ∈ others,
      parameter.span = parameter.name.span.combine parameter.type.span)
    (same : Listing.parameters first parameters = Listing.parameters second others) :
    List.Forall₂ (Parameter.Alike first second) parameters others := by
  have heads (parameter : Parameter) :
      (parameterText 0 parameter).head? ≠ (Bytes.ofText "<none>").head? :=
    show some (80 : Byte) ≠ some 60 by decide
  rw [parameters_eq, parameters_eq] at same
  refine Line.listed_inj heads ?_ same
  intro parameter member other otherMember index headings lines_eq
  rcases List.cons.inj lines_eq with ⟨names_eq, types_eq⟩
  have name_alike := name_inj names_eq
  have type_eq := writtenType_inj (List.cons.inj types_eq).1
  have span_eq : parameter.span = other.span := by
    rw [spans parameter member, otherSpans other otherMember, name_alike.span_eq, type_eq]
  exact ⟨name_alike, type_eq, symbolText_injective (List.append_cancel_left headings), span_eq⟩

theorem funDecl_eq (interner : Interner) (decl : FunDecl) : funDecl interner decl =
    Line.under (declaredText "Function" decl.symbol ++ spanText decl.span)
      (name interner decl.name :: (Line.under "Parameters" (parameters interner decl.parameters) ++
        writtenType "ReturnType" decl.returnType ::
          Line.under "Body" (statementsFrom interner 0 decl.body.statements))) := by
  simp [funDecl, declaredText, Bytes.concat]

theorem funDecl_inj {decl other : FunDecl} (regular : decl.IsRegular)
    (otherRegular : other.IsRegular)
    (noDecimals : ∀ inner ∈ Stmt.expressionsOfAll decl.body.statements, ¬ inner.IsDecimal)
    (otherNoDecimals : ∀ inner ∈ Stmt.expressionsOfAll other.body.statements, ¬ inner.IsDecimal)
    (same : funDecl first decl = funDecl second other) : decl.Alike first second other := by
  rw [funDecl_eq, funDecl_eq] at same
  rcases Line.under_inj same with ⟨headings, parts_eq⟩
  rcases spanText_append_inj headings with ⟨words, span_eq⟩
  rcases List.cons.inj parts_eq with ⟨names_eq, parts_eq⟩
  rcases Line.under_append_inj (Line.startsOver_cons _ _) (Line.startsOver_cons _ _) parts_eq with
    ⟨_, parameters_eq, parts_eq⟩
  rcases List.cons.inj parts_eq with ⟨types_eq, bodies_eq⟩
  rw [Stmt.expressionsOfAll_eq_flatMap, List.forall_mem_flatMap] at otherNoDecimals
  have statements_alike := statementsFrom_inj (fun piece member other otherMember =>
    statements_inj decl.body.statements noDecimals piece member other
      (otherNoDecimals other otherMember)) (Line.under_inj bodies_eq).2
  exact {
    name := name_inj names_eq
    parameters := parameters_inj regular.parameters otherRegular.parameters parameters_eq
    returnType_eq := writtenType_inj types_eq
    statements := statements_alike
    stop_eq := by rw [regular.stop_eq, otherRegular.stop_eq, span_eq]
    symbol_eq := symbolText_injective (List.append_cancel_left words)
    span_eq := span_eq }

/-- A function and a variable are told apart by the first letters of their headings. -/
theorem funDecl_ne_letDecl (first second : Interner) (decl : FunDecl) (other : LetDecl) :
    funDecl first decl ≠ letDecl second other := by
  intro same
  rw [funDecl_eq, letDecl_eq] at same
  cases congrArg List.head? (Line.under_inj same).1

theorem declaration_inj {decl other : Decl} (regular : decl.IsRegular)
    (otherRegular : other.IsRegular)
    (noDecimals : ∀ inner ∈ decl.expressions, ¬ inner.IsDecimal)
    (otherNoDecimals : ∀ inner ∈ other.expressions, ¬ inner.IsDecimal)
    (same : declaration first decl = declaration second other) :
    decl.Alike first second other := by
  cases decl with
  | funDecl decl =>
      cases other with
      | funDecl other =>
          exact .funDecl (funDecl_inj regular otherRegular noDecimals otherNoDecimals same)
      | letDecl other => exact absurd same (funDecl_ne_letDecl first second decl other)
  | letDecl decl =>
      cases other with
      | funDecl other => exact absurd same.symm (funDecl_ne_letDecl second first other decl)
      | letDecl other => exact .letDecl (letDecl_inj noDecimals otherNoDecimals same)

/-- The heading of a declaration of a program. -/
def declarationText (index : Nat) (_ : Decl) : Bytes :=
  numberText "Statement[" index

theorem declarationsFrom_eq (interner : Interner) (index : Nat) (declarations : List Decl) :
    declarationsFrom interner index declarations =
      Line.numbered declarationText (declaration interner) index declarations := by
  induction declarations generalizing index with
  | nil => rfl
  | cons decl declarations ih =>
      rw [declarationsFrom, ih, Line.numbered, declarationText, numberText]

theorem declarations_eq (interner : Interner) (declarations : List Decl) :
    Listing.declarations interner declarations =
      Line.listed declarationText (declaration interner) declarations := by
  cases declarations with
  | nil => rfl
  | cons decl declarations => exact declarationsFrom_eq interner 0 _

theorem declarations_inj {declarations others : List Decl}
    (alike : ∀ decl ∈ declarations, ∀ other ∈ others,
      declaration first decl = declaration second other → decl.Alike first second other)
    (same : Listing.declarations first declarations = Listing.declarations second others) :
    List.Forall₂ (Decl.Alike first second) declarations others := by
  have heads (decl : Decl) : (declarationText 0 decl).head? ≠ (Bytes.ofText "<none>").head? :=
    show some (83 : Byte) ≠ some 60 by decide
  rw [declarations_eq, declarations_eq] at same
  exact Line.listed_inj heads
    (fun decl member other otherMember _ _ => alike decl member other otherMember) same

theorem name_of_alike {declared other : Name} (alike : declared.Alike first second other) :
    name first declared = name second other := by
  rw [name, name, nameText_of_alike alike, alike.span_eq]

theorem optional_of_alike {linesOf othersOf : Expr → List Line} {value other : Option Expr}
    (alike : Option.Rel (Expr.Alike first second) value other)
    (lines_eq : ∀ inner otherInner, inner.Alike first second otherInner →
      linesOf inner = othersOf otherInner) :
    optional linesOf value = optional othersOf other := by
  cases alike with
  | none => rfl
  | some alike => exact lines_eq _ _ alike

theorem letDecl_of_alike {decl other : LetDecl} (alike : decl.Alike first second other) :
    letDecl first decl = letDecl second other := by
  have initializers := optional_of_alike alike.initializer fun _ _ inner =>
    congrArg (Line.under "Initializer") (expression_of_alike inner)
  rw [letDecl_eq, letDecl_eq, alike.symbol_eq, alike.span_eq, alike.type_eq,
    name_of_alike alike.name]
  exact congrArg _ (congrArg _ (congrArg _ initializers))

mutual

theorem statement_of_alike {piece other : Stmt} : piece.Alike first second other →
    statement first piece = statement second other
  | .expression alike => by simp only [statement, expression_of_alike alike]
  | .letDecl alike => letDecl_of_alike alike
  | .block statements => by simp only [statement, statementsFrom_of_alike 0 statements]
  | .returning alike => by
      have returned := optional_of_alike alike fun _ _ => expression_of_alike
      rw [statement_eq, statement_eq]
      exact congrArg _ returned

theorem statementsFrom_of_alike (index : Nat) {statements others : List Stmt} :
    List.Forall₂ (Stmt.Alike first second) statements others →
      statementsFrom first index statements = statementsFrom second index others
  | .nil => rfl
  | .cons alike rest => by
      simp only [statementsFrom, statement_of_alike alike,
        statementsFrom_of_alike (index + 1) rest]

end

theorem declaration_of_alike {decl other : Decl} (alike : decl.Alike first second other) :
    declaration first decl = declaration second other := by
  cases alike with
  | letDecl alike => exact letDecl_of_alike alike
  | @funDecl decl other alike =>
      have parameters_eq : parameters first decl.parameters =
          parameters second other.parameters := by
        rw [Listing.parameters_eq, Listing.parameters_eq]
        refine Line.listed_of_forall₂ alike.parameters fun index parameter other each => ⟨?_, ?_⟩
        · rw [parameterText, parameterText, each.symbol_eq]
        · rw [parameterParts, parameterParts, name_of_alike each.name, each.type_eq]
      simp only [declaration, funDecl_eq, alike.symbol_eq, alike.span_eq, name_of_alike alike.name,
        parameters_eq, alike.returnType_eq, statementsFrom_of_alike 0 alike.statements]

theorem program_of_alike {program other : Program} (alike : program.Alike first second other) :
    Listing.program first program = Listing.program second other := by
  have declarations_eq : declarations first program.declarations =
      declarations second other.declarations := by
    rw [Listing.declarations_eq, Listing.declarations_eq]
    exact Line.listed_of_forall₂ alike.declarations fun _ _ _ each =>
      ⟨rfl, declaration_of_alike each⟩
  rw [Listing.program, Listing.program, declarations_eq, alike.span_eq]

end Listing

end TypedLang
