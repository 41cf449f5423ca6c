import TypedLang.Proofs.Parsing.Completeness

/-!
# Writing trees

A tree written out in order, with the words and marks that the grammar puts between its parts. A
tree keeps the type that a word denotes and not the word, so a type is written with one fixed word
for it. Apart from that, a tree that is spelled by some tokens writes those tokens: nothing of them
is lost, repeated or moved.
-/

namespace TypedLang

/-- The word with which a type is written. -/
def Ty.word : Ty → TypeName
  | integer .unsigned .bits8 => .u8
  | integer .signed .bits8 => .i8
  | integer .unsigned .bits16 => .u16
  | integer .signed .bits16 => .i16
  | integer .unsigned .bits32 => .u32
  | integer .signed .bits32 => .i32
  | integer .unsigned .bits64 => .u64
  | integer .signed .bits64 => .i64
  | decimal .bits32 => .f32
  | decimal .bits64 => .f64
  | boolean => .bool

/-- The word that is written for a type name: the sizes of the machine are those of 64 bits. -/
def TypeName.canonical : TypeName → TypeName
  | usize => u64
  | isize => i64
  | word => word

theorem TypeName.word_type (word : TypeName) : word.type.word = word.canonical := by
  cases word <;> rfl

/-- The lexeme that is written for a lexeme: itself unless it names a size of the machine. -/
def Lexeme.canonical : Lexeme Key → Lexeme Key
  | typeName word => typeName word.canonical
  | lexeme => lexeme

/-- What is written for some tokens. -/
def writtenOf (tokens : List Token) : List (Lexeme Key) :=
  tokens.map fun token => token.lexeme.canonical

@[simp]
theorem writtenOf_nil : writtenOf [] = [] :=
  rfl

@[simp]
theorem writtenOf_cons (token : Token) (tokens : List Token) :
    writtenOf (token :: tokens) = token.lexeme.canonical :: writtenOf tokens :=
  rfl

@[simp]
theorem writtenOf_append (first second : List Token) :
    writtenOf (first ++ second) = writtenOf first ++ writtenOf second :=
  List.map_append

/-- Stretches with commas between them. -/
def commaSeparated (stretches : List (List (Lexeme Key))) : List (Lexeme Key) :=
  [.punct .comma].intercalate stretches

mutual

/-- An expression as it is written. -/
def Expr.lexemes : Expr → List (Lexeme Key)
  | .binary op left right _ _ => left.lexemes ++ .punct op.mark :: right.lexemes
  | .unary op operand _ _ => .punct op.mark :: operand.lexemes
  | .call callee arguments _ _ =>
      callee.lexemes ++ .punct .leftParen ::
        (commaSeparated (Expr.lexemesOfEach arguments) ++ [.punct .rightParen])
  | .grouping inner _ _ => .punct .leftParen :: (inner.lexemes ++ [.punct .rightParen])
  | .literal value _ _ => [value.lexeme]
  | .identifier name _ _ => [.identifier name.key]

/-- Each of several expressions as it is written. -/
def Expr.lexemesOfEach : List Expr → List (List (Lexeme Key))
  | [] => []
  | first :: rest => first.lexemes :: Expr.lexemesOfEach rest

end

/-- A type as it is written. -/
def WrittenType.lexemes (type : WrittenType) : List (Lexeme Key) :=
  [.punct .atSign, .typeName type.type.word]

/-- A parameter as it is written. -/
def Parameter.lexemes (parameter : Parameter) : List (Lexeme Key) :=
  .identifier parameter.name.key :: parameter.type.lexemes

/-- An initializer as it is written, if there is one. -/
def Expr.lexemesOfInitializer : Option Expr → List (Lexeme Key)
  | none => []
  | some value => .punct .equal :: value.lexemes

/-- The value of a return statement as it is written, if there is one. -/
def Expr.lexemesOfReturn : Option Expr → List (Lexeme Key)
  | none => []
  | some value => value.lexemes

/-- The declaration of a variable as it is written. -/
def LetDecl.lexemes (decl : LetDecl) : List (Lexeme Key) :=
  .keyword .letWord :: .identifier decl.name.key :: (decl.type.lexemes ++
    Expr.lexemesOfInitializer decl.initializer ++ [.punct .semicolon])

mutual

/-- A statement as it is written. -/
def Stmt.lexemes : Stmt → List (Lexeme Key)
  | .expression value _ => value.lexemes ++ [.punct .semicolon]
  | .letDecl decl => decl.lexemes
  | .block statements _ =>
      .punct .leftBrace :: (Stmt.lexemesOfAll statements ++ [.punct .rightBrace])
  | .returning value _ =>
      .keyword .returnWord :: (Expr.lexemesOfReturn value ++ [.punct .semicolon])

/-- Several statements as they are written, one behind the other. -/
def Stmt.lexemesOfAll : List Stmt → List (Lexeme Key)
  | [] => []
  | first :: rest => first.lexemes ++ Stmt.lexemesOfAll rest

end

/-- The declaration of a function as it is written. -/
def FunDecl.lexemes (decl : FunDecl) : List (Lexeme Key) :=
  .keyword .funWord :: .identifier decl.name.key :: .punct .leftParen ::
    (commaSeparated (decl.parameters.map Parameter.lexemes) ++ .punct .rightParen ::
      (decl.returnType.lexemes ++ .punct .leftBrace ::
        (Stmt.lexemesOfAll decl.body.statements ++ [.punct .rightBrace])))

/-- A declaration as it is written. -/
def Decl.lexemes : Decl → List (Lexeme Key)
  | .funDecl decl => decl.lexemes
  | .letDecl decl => decl.lexemes

/-- A program as it is written. -/
def Program.lexemes (program : Program) : List (Lexeme Key) :=
  program.declarations.flatMap Decl.lexemes

section Pieces

variable {Item : Type} {lexemes : Item → List (Lexeme Key)} {tokens : List Token}
  {pieces : List (List Token × Item)}

theorem Separated.written_eq (separated : Separated tokens (pieces.map Prod.fst))
    (each : ∀ piece ∈ pieces, writtenOf piece.1 = lexemes piece.2) :
    writtenOf tokens = commaSeparated ((pieces.map Prod.snd).map lexemes) := by
  induction pieces generalizing tokens with
  | nil =>
      cases separated
      rfl
  | cons piece pieces ih =>
      rw [List.forall_mem_cons] at each
      cases pieces with
      | nil =>
          cases separated
          simp [commaSeparated, each.1]
      | cons next pieces =>
          rcases separated with _ | _ | @⟨_, _, _, _, comma, separated⟩
          rw [writtenOf_append, writtenOf_cons, each.1, ih separated each.2]
          simp [commaSeparated, List.intercalate, Lexeme.canonical]

theorem Spliced.written_eq (spliced : Spliced False tokens (pieces.map Prod.fst))
    (each : ∀ piece ∈ pieces, writtenOf piece.1 = lexemes piece.2) :
    writtenOf tokens = (pieces.map Prod.snd).flatMap lexemes := by
  induction pieces generalizing tokens with
  | nil =>
      rcases spliced with _ | _ | ⟨⟨⟩, _⟩
      rfl
  | cons piece pieces ih =>
      rcases spliced with _ | ⟨spliced⟩ | ⟨⟨⟩, _⟩
      rw [List.forall_mem_cons] at each
      rw [writtenOf_append, each.1, ih spliced each.2]
      rfl

end Pieces

theorem Literal.canonical_lexeme (value : Literal) : value.lexeme.canonical = value.lexeme := by
  cases value <;> rfl

theorem Expr.lexemesOfEach_eq_map (values : List Expr) :
    Expr.lexemesOfEach values = values.map Expr.lexemes := by
  induction values with
  | nil => rfl
  | cons first rest ih => rw [Expr.lexemesOfEach, ih, List.map_cons]

theorem Expr.Spelled.written_eq {level : Nat} {tokens : List Token} {value : Expr}
    (spelled : Expr.Spelled level tokens value) : writtenOf tokens = value.lexemes := by
  induction spelled with
  | binary _ _ _ left right =>
      rw [writtenOf_append, writtenOf_cons, left, right]
      rfl
  | unary _ _ operand =>
      rw [writtenOf_cons, operand]
      rfl
  | call _ _ separated _ callee each =>
      simp only [writtenOf_append, writtenOf_cons, writtenOf_nil, callee, separated.written_eq each,
        Expr.lexemes, Expr.lexemesOfEach_eq_map, List.append_assoc, List.cons_append]
      rfl
  | grouping _ inner => simp [Expr.lexemes, ← inner, Lexeme.canonical]
  | @literal _ value _ => simp [Expr.lexemes, value.canonical_lexeme]
  | identifier => rfl

theorem WrittenType.Spelled.written_eq {tokens : List Token} {type : WrittenType}
    (spelled : type.Spelled tokens) : writtenOf tokens = type.lexemes := by
  rcases spelled with @⟨sign, span, word⟩
  simp [WrittenType.lexemes, word.word_type, Lexeme.canonical]

theorem Parameter.Spelled.written_eq {tokens : List Token} {parameter : Parameter}
    (spelled : parameter.Spelled tokens) : writtenOf tokens = parameter.lexemes := by
  cases spelled with
  | intro type =>
      rw [writtenOf_cons, type.written_eq]
      rfl

theorem Expr.SpelledInitializer.written_eq {tokens : List Token} {value : Option Expr}
    (spelled : Expr.SpelledInitializer tokens value) :
    writtenOf tokens = Expr.lexemesOfInitializer value := by
  cases spelled with
  | none => rfl
  | some value =>
      rw [writtenOf_cons, value.written_eq]
      rfl

theorem Expr.SpelledReturn.written_eq {tokens : List Token} {value : Option Expr}
    (spelled : Expr.SpelledReturn tokens value) :
    writtenOf tokens = Expr.lexemesOfReturn value := by
  cases spelled with
  | none => rfl
  | some value => exact value.written_eq

theorem LetDecl.Spelled.written_eq {tokens : List Token} {decl : LetDecl}
    (spelled : decl.Spelled tokens) : writtenOf tokens = decl.lexemes := by
  cases spelled with
  | intro type initializer =>
      simp only [writtenOf_cons, writtenOf_append, writtenOf_nil, type.written_eq,
        initializer.written_eq]
      rfl

theorem Stmt.lexemesOfAll_eq_flatMap (statements : List Stmt) :
    Stmt.lexemesOfAll statements = statements.flatMap Stmt.lexemes := by
  induction statements with
  | nil => rfl
  | cons first rest ih => rw [Stmt.lexemesOfAll, ih, List.flatMap_cons]

theorem Stmt.Spelled.written_eq {tokens : List Token} {statement : Stmt}
    (spelled : Stmt.Spelled False tokens statement) : writtenOf tokens = statement.lexemes := by
  induction spelled with
  | expression value =>
      rw [writtenOf_append, value.written_eq]
      rfl
  | letDecl decl => exact decl.written_eq
  | returning value =>
      rw [writtenOf_append, writtenOf_cons, value.written_eq]
      rfl
  | block spliced _ each =>
      simp only [writtenOf_append, writtenOf_cons, writtenOf_nil, spliced.written_eq each,
        Stmt.lexemes, Stmt.lexemesOfAll_eq_flatMap, List.cons_append]
      rfl

theorem Decl.Spelled.written_eq {tokens : List Token} {decl : Decl}
    (spelled : Decl.Spelled False tokens decl) : writtenOf tokens = decl.lexemes := by
  cases spelled with
  | funDecl parameters type body =>
      rcases parameters with ⟨parameterPieces, rfl, separated, parametersSpelled⟩
      rcases body with ⟨pieces, rfl, spliced, statementsSpelled⟩
      have parameters_eq := separated.written_eq fun piece member =>
        (parametersSpelled piece member).written_eq
      have body_eq := spliced.written_eq fun piece member =>
        (statementsSpelled piece member).written_eq
      simp only [writtenOf_append, writtenOf_cons, writtenOf_nil, parameters_eq, body_eq,
        type.written_eq, Decl.lexemes, FunDecl.lexemes, Stmt.lexemesOfAll_eq_flatMap]
      rfl
  | letDecl decl => exact decl.written_eq

/-- A tree that the parser gives without errors writes the tokens that it was given. -/
theorem Parsed.lexemes_eq {source : SourceId} {tokens : List Token}
    (clean : (ofTokens source tokens).errors = []) :
    (ofTokens source tokens).program.lexemes = writtenOf tokens := by
  rcases spelled_of_errors_eq_nil clean with ⟨pieces, declarations_eq, spliced, all⟩
  rw [spliced.written_eq fun piece member => (all piece member).written_eq, Program.lexemes,
    declarations_eq]

end TypedLang
