import TypedLang.Listing
import TypedLang.Proofs.Relabelling.Outcome

/-!
# Listings of relabelled programs

A listing shows spans and the texts of keys, but no key itself. If a relabelling leaves the spans as
they are, and each new key has the text of the old one, then the listing of a relabelled program is
that of the program, letter by letter; and so is what symbols tell once their names are texts.
-/

namespace TypedLang

/-- What is known of a function, with its name as a text. -/
structure NamedSignature where
  name : Bytes
  nameSpan : Span
  parameters : List WrittenType
  returnType : WrittenType
  span : Span
  deriving Repr, DecidableEq

/-- A symbol with its names as texts. -/
structure NamedSymbol where
  name : Bytes
  span : Span
  kind : SymbolKind
  signature : Option NamedSignature
  type : Option Ty
  deriving Repr, DecidableEq

/-- A signature with its name as a text. -/
def Signature.named (interner : Interner) (signature : Signature) : NamedSignature where
  name := interner.textOf signature.name.key
  nameSpan := signature.name.span
  parameters := signature.parameters
  returnType := signature.returnType
  span := signature.span

/-- A symbol with its names as texts. -/
def Symbol.named (interner : Interner) (symbol : Symbol) : NamedSymbol where
  name := interner.textOf symbol.name
  span := symbol.span
  kind := symbol.kind
  signature := symbol.signature.map (Signature.named interner)
  type := symbol.type

/-- Only keys change, and each new key has in one interner the text of the old one in the other. -/
structure Relabelling.Renames (change : Relabelling) (before after : Interner) : Prop where
  span_eq : ∀ span, change.span span = span
  keeps : change.KeepsTexts before after

section

variable {change : Relabelling} {before after : Interner} (renames : change.Renames before after)

include renames

theorem WrittenType.relabel_eq_self (written : WrittenType) : written.relabel change = written := by
  rw [relabel, renames.span_eq]

theorem WrittenType.map_relabel_eq_self (types : List WrittenType) :
    types.map (relabel change) = types := by
  rw [funext (relabel_eq_self renames)]
  exact types.map_id

theorem Signature.named_relabel (signature : Signature) :
    (signature.relabel change).named after = signature.named before := by
  simp only [named, relabel, Name.relabel, renames.keeps.textOf, renames.span_eq,
    WrittenType.map_relabel_eq_self renames, WrittenType.relabel_eq_self renames]

theorem Symbol.named_relabel (symbol : Symbol) :
    (symbol.relabel change).named after = symbol.named before := by
  have signature_eq : Signature.named after ∘ Signature.relabel change = Signature.named before :=
    funext (Signature.named_relabel renames)
  simp only [named, relabel, renames.keeps.textOf, renames.span_eq, Option.map_map, signature_eq]

namespace Listing

theorem nameText_relabel (key : Key) :
    nameText after (change.key key) = nameText before key := by
  rw [nameText, nameText, renames.keeps.textOf]

theorem literalText_relabel (value : Literal) :
    literalText after (value.relabel change) = literalText before value := by
  cases value with
  | string key => simp only [Literal.relabel, literalText, renames.keeps.textOf]
  | _ => rfl

end Listing

end

namespace Listing

variable {change : Relabelling} {before after : Interner}

mutual

theorem expression_relabel (renames : change.Renames before after) : (value : Expr) →
    expression after (value.relabel change) = expression before value
  | .binary op left right span type => by
      simp only [Expr.relabel, expression, expression_relabel renames left,
        expression_relabel renames right, renames.span_eq]
  | .unary op operand span type => by
      simp only [Expr.relabel, expression, expression_relabel renames operand, renames.span_eq]
  | .call callee arguments span type => by
      simp only [Expr.relabel, expression, expression_relabel renames callee,
        argumentsFrom_relabel renames 0 arguments, renames.span_eq]
  | .grouping inner span type => by
      simp only [Expr.relabel, expression, expression_relabel renames inner, renames.span_eq]
  | .literal value span type => by
      simp only [Expr.relabel, expression, literalText_relabel renames, renames.span_eq]
  | .identifier name symbol type => by
      simp only [Expr.relabel, expression, Name.relabel, nameText_relabel renames, renames.span_eq]

theorem argumentsFrom_relabel (renames : change.Renames before after) : (index : Nat) →
    (arguments : List Expr) →
      argumentsFrom after index (Expr.relabelAll change arguments) =
        argumentsFrom before index arguments
  | _, [] => rfl
  | index, first :: rest => by
      simp only [Expr.relabelAll, argumentsFrom, expression_relabel renames first,
        argumentsFrom_relabel renames (index + 1) rest]

end

theorem name_relabel (renames : change.Renames before after) (declared : Name) :
    name after (declared.relabel change) = name before declared := by
  simp only [name, Name.relabel, nameText_relabel renames, renames.span_eq]

theorem letDecl_relabel (renames : change.Renames before after) (decl : LetDecl) :
    letDecl after (decl.relabel change) = letDecl before decl := by
  rcases decl with ⟨declared, type, initializer, symbol, span⟩
  cases initializer with
  | none =>
      simp only [letDecl, LetDecl.relabel, Option.map_none, name_relabel renames,
        WrittenType.relabel_eq_self renames, renames.span_eq]
  | some value =>
      simp only [letDecl, LetDecl.relabel, Option.map_some, name_relabel renames,
        WrittenType.relabel_eq_self renames, expression_relabel renames, renames.span_eq]

mutual

theorem statement_relabel (renames : change.Renames before after) : (piece : Stmt) →
    statement after (piece.relabel change) = statement before piece
  | .expression value span => by
      simp only [Stmt.relabel, statement, expression_relabel renames, renames.span_eq]
  | .letDecl decl => letDecl_relabel renames decl
  | .block statements span => by
      simp only [Stmt.relabel, statement, statementsFrom_relabel renames 0 statements,
        renames.span_eq]
  | .returning none span => by
      simp only [Stmt.relabel, Option.map_none, statement, renames.span_eq]
  | .returning (some value) span => by
      simp only [Stmt.relabel, Option.map_some, statement, expression_relabel renames,
        renames.span_eq]

theorem statementsFrom_relabel (renames : change.Renames before after) : (index : Nat) →
    (statements : List Stmt) →
      statementsFrom after index (Stmt.relabelAll change statements) =
        statementsFrom before index statements
  | _, [] => rfl
  | index, first :: rest => by
      simp only [Stmt.relabelAll, statementsFrom, statement_relabel renames first,
        statementsFrom_relabel renames (index + 1) rest]

end

theorem parametersFrom_relabel (renames : change.Renames before after) (index : Nat)
    (list : List Parameter) :
    parametersFrom after index (list.map (Parameter.relabel change)) =
      parametersFrom before index list := by
  induction list generalizing index with
  | nil => rfl
  | cons first rest ih =>
      simp only [List.map_cons, parametersFrom, ih, Parameter.relabel, name_relabel renames,
        WrittenType.relabel_eq_self renames]

theorem parameters_relabel (renames : change.Renames before after) (list : List Parameter) :
    parameters after (list.map (Parameter.relabel change)) = parameters before list := by
  cases list with
  | nil => rfl
  | cons first rest => exact parametersFrom_relabel renames 0 (first :: rest)

theorem declaration_relabel (renames : change.Renames before after) (decl : Decl) :
    declaration after (decl.relabel change) = declaration before decl := by
  cases decl with
  | funDecl decl =>
      simp only [Decl.relabel, declaration, funDecl, FunDecl.relabel, Block.relabel,
        name_relabel renames, parameters_relabel renames, WrittenType.relabel_eq_self renames,
        statementsFrom_relabel renames, renames.span_eq]
  | letDecl decl => exact letDecl_relabel renames decl

theorem declarationsFrom_relabel (renames : change.Renames before after) (index : Nat)
    (list : List Decl) :
    declarationsFrom after index (list.map (Decl.relabel change)) =
      declarationsFrom before index list := by
  induction list generalizing index with
  | nil => rfl
  | cons first rest ih =>
      simp only [List.map_cons, declarationsFrom, ih, declaration_relabel renames]

/-- The listing of a relabelled program is that of the program. -/
theorem program_relabel (renames : change.Renames before after) (tree : Program) :
    program after (tree.relabel change) = program before tree := by
  have declarations_eq : declarations after (tree.declarations.map (Decl.relabel change)) =
      declarations before tree.declarations := by
    cases tree.declarations with
    | nil => rfl
    | cons first rest => exact declarationsFrom_relabel renames 0 (first :: rest)
  simp only [program, Program.relabel, declarations_eq, renames.span_eq]

end Listing

end TypedLang
