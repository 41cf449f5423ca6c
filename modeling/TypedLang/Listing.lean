import TypedLang.Binary64.Text
import TypedLang.Program

/-!
# Listings

Tokens and trees can be listed for inspection. A listing is a sequence of lines; in the listing of
a tree each line is indented by two blanks for every level. Spans, symbols and types are written
where they are known. Names are written as they are, the bodies of string literals with escapes,
so that no literal can break a line.
-/

namespace TypedLang

/-- A line of a listing and its level. -/
structure Line where
  level : Nat
  text : Bytes
  deriving Repr, DecidableEq

namespace Line

/-- A line one level further in. -/
def indent (line : Line) : Line :=
  { line with level := line.level + 1 }

/-- A printed line. -/
def render (line : Line) : Bytes :=
  Bytes.concat [List.replicate (2 * line.level) Byte.space, line.text, "\n"]

/-- The printed lines of a listing. -/
def renderAll (lines : List Line) : Bytes :=
  lines.flatMap render

/-- Lines one level below a heading. -/
def under (heading : Bytes) (lines : List Line) : List Line :=
  ⟨0, heading⟩ :: lines.map indent

end Line

namespace Listing

/-- A byte inside a quoted text; quotes, backslashes and three controls are escaped. -/
def escape (byte : Byte) : Bytes :=
  if byte = Byte.backslash then "\\\\"
  else if byte = Byte.quote then "\\\""
  else if byte = Byte.newline then "\\n"
  else if byte = Byte.tab then "\\t"
  else if byte = Byte.carriageReturn then "\\r"
  else [byte]

/-- A text between double quotes with escapes. -/
def quotedText (text : Bytes) : Bytes :=
  Bytes.concat ["\"", text.flatMap escape, "\""]

/-- A truth value. -/
def booleanText (value : Bool) : Bytes :=
  if value then "true" else "false"

/-- The span of a node. -/
def spanText (span : Span) : Bytes :=
  Bytes.concat [" span=", Bytes.ofNat span.start, "..", Bytes.ofNat span.stop]

/-- The symbol of a node, if one is bound. -/
def symbolText : Option SymbolId → Bytes
  | none => []
  | some id => Bytes.concat [" symbol=#", Bytes.ofNat id]

/-- The type in front of an expression, if it is known. -/
def typeText : Option Ty → Bytes
  | none => []
  | some type => Bytes.concat ["<", type.name, "> "]

/-- The value of a token, if its kind has one. -/
def tokenValue (interner : Interner) : Lexeme Key → Option Bytes
  | .identifier key => some (quotedText (interner.textOf key))
  | .integer value => some (Bytes.ofNat value.toNat)
  | .decimal value => some value.text
  | .string key => some (quotedText (interner.textOf key))
  | .boolean value => some (booleanText value)
  | .keyword _ => none
  | .typeName _ => none
  | .punct _ => none

/-- The line of a token: its span, its kind and its value. -/
def token (interner : Interner) (token : Token) : Line :=
  let place := Bytes.concat
    ["[", Bytes.ofNat token.span.start, "..", Bytes.ofNat token.span.stop, "] ", token.kind.name]
  match tokenValue interner token.lexeme with
  | none => ⟨0, place⟩
  | some value => ⟨0, Bytes.concat [place, " ", value]⟩

/-- The printed listing of some tokens. -/
def tokens (interner : Interner) (tokens : List Token) : Bytes :=
  Line.renderAll (tokens.map (token interner))

/-- The kind and the value of a literal. -/
def literalText (interner : Interner) : Literal → Bytes
  | .integer value => Bytes.concat ["kind=Integer value=", Bytes.ofNat value.toNat]
  | .decimal value => Bytes.concat ["kind=Decimal value=", value.text]
  | .string key => Bytes.concat ["kind=String value=", quotedText (interner.textOf key)]
  | .boolean value => Bytes.concat ["kind=Boolean value=", booleanText value]

/-- A name between double quotes. -/
def nameText (interner : Interner) (key : Key) : Bytes :=
  Bytes.concat ["\"", interner.textOf key, "\""]

mutual

/-- The lines of an expression. -/
def expression (interner : Interner) : Expr → List Line
  | .binary op left right span type =>
      Line.under
        (Bytes.concat [typeText type, op.levelName, " op=", op.spelling, spanText span])
        (expression interner left ++ expression interner right)
  | .unary op operand span type =>
      Line.under (Bytes.concat [typeText type, "Unary op=", op.spelling, spanText span])
        (expression interner operand)
  | .call callee arguments span type =>
      Line.under (Bytes.concat [typeText type, "Call", spanText span])
        (expression interner callee ++ argumentsFrom interner 0 arguments)
  | .grouping inner span type =>
      Line.under (Bytes.concat [typeText type, "Grouping", spanText span])
        (expression interner inner)
  | .literal value span type =>
      [⟨0, Bytes.concat [typeText type, "Literal ", literalText interner value, spanText span]⟩]
  | .identifier name symbol type =>
      [⟨0, Bytes.concat
        [typeText type, "Id ", nameText interner name.key, symbolText symbol, spanText name.span]⟩]

/-- The lines of arguments, numbered from `index` on. -/
def argumentsFrom (interner : Interner) (index : Nat) : List Expr → List Line
  | [] => []
  | argument :: rest =>
      Line.under (Bytes.concat ["Arg[", Bytes.ofNat index, "]"]) (expression interner argument) ++
        argumentsFrom interner (index + 1) rest

end

/-- The line of a declared name. -/
def name (interner : Interner) (name : Name) : Line :=
  ⟨0, Bytes.concat ["Name ", nameText interner name.key, spanText name.span]⟩

/-- The line of a written type. -/
def writtenType (label : Bytes) (written : WrittenType) : Line :=
  ⟨0, Bytes.concat [label, " ", written.type.name, spanText written.span]⟩

/-- The lines of a variable declaration. -/
def letDecl (interner : Interner) (decl : LetDecl) : List Line :=
  let initializer := match decl.initializer with
    | none => []
    | some value => Line.under "Initializer" (expression interner value)
  Line.under (Bytes.concat ["Let", symbolText decl.symbol, spanText decl.span])
    (name interner decl.name :: writtenType "Type" decl.type :: initializer)

mutual

/-- The lines of a statement. -/
def statement (interner : Interner) : Stmt → List Line
  | .expression value span =>
      Line.under (Bytes.concat ["ExprStmt", spanText span]) (expression interner value)
  | .letDecl decl => letDecl interner decl
  | .block statements span =>
      Line.under (Bytes.concat ["Block", spanText span]) (statementsFrom interner 0 statements)
  | .returning value span =>
      Line.under (Bytes.concat ["Return", spanText span])
        (match value with
        | none => []
        | some value => expression interner value)

/-- The lines of statements, numbered from `index` on. -/
def statementsFrom (interner : Interner) (index : Nat) : List Stmt → List Line
  | [] => []
  | first :: rest =>
      Line.under (Bytes.concat ["Statement[", Bytes.ofNat index, "]"])
          (statement interner first) ++
        statementsFrom interner (index + 1) rest

end

/-- The lines of parameters, numbered from `index` on. -/
def parametersFrom (interner : Interner) (index : Nat) : List Parameter → List Line
  | [] => []
  | first :: rest =>
      Line.under (Bytes.concat ["Param[", Bytes.ofNat index, "]", symbolText first.symbol])
          [name interner first.name, writtenType "Type" first.type] ++
        parametersFrom interner (index + 1) rest

/-- The lines of parameters, with a line of its own for an empty list. -/
def parameters (interner : Interner) : List Parameter → List Line
  | [] => [⟨0, "<none>"⟩]
  | first :: rest => parametersFrom interner 0 (first :: rest)

/-- The lines of a function declaration. -/
def funDecl (interner : Interner) (decl : FunDecl) : List Line :=
  Line.under (Bytes.concat ["Function", symbolText decl.symbol, spanText decl.span])
    (name interner decl.name :: Line.under "Parameters" (parameters interner decl.parameters) ++
      writtenType "ReturnType" decl.returnType ::
        Line.under "Body" (statementsFrom interner 0 decl.body.statements))

/-- The lines of a declaration. -/
def declaration (interner : Interner) : Decl → List Line
  | .funDecl decl => funDecl interner decl
  | .letDecl decl => letDecl interner decl

/-- The lines of declarations, numbered from `index` on. -/
def declarationsFrom (interner : Interner) (index : Nat) : List Decl → List Line
  | [] => []
  | first :: rest =>
      Line.under (Bytes.concat ["Statement[", Bytes.ofNat index, "]"])
          (declaration interner first) ++
        declarationsFrom interner (index + 1) rest

/-- The lines of declarations, with a line of its own for an empty program. -/
def declarations (interner : Interner) : List Decl → List Line
  | [] => [⟨0, "<none>"⟩]
  | first :: rest => declarationsFrom interner 0 (first :: rest)

/-- The printed listing of a program. -/
def program (interner : Interner) (program : Program) : Bytes :=
  Line.renderAll
    (Line.under (Bytes.concat ["Program", spanText program.span])
      (declarations interner program.declarations))

end Listing

end TypedLang
