import TypedLang.Proofs.Listing.Words
import TypedLang.Proofs.Parsing.Extents
import TypedLang.Proofs.Parsing.Precedence

/-!
# Listings tell expressions apart

The heading of an expression tells its kind, its span, its type, and its operator, value or name;
the lines below it are those of its parts in order. So the lines of an expression tell all of it but
the keys of its names and strings, of which they show the texts. Two expressions are alike if they
are the same but for keys, and keys in the same place stand for the same text.
-/

namespace TypedLang

section

variable (first second : Interner)

/-- Names are alike if they have the same text and the same place. -/
structure Name.Alike (name other : Name) : Prop where
  text_eq : first.textOf name.key = second.textOf other.key
  span_eq : name.span = other.span

/-- Expressions are alike if they are the same but for their keys. -/
inductive Expr.Alike : Expr → Expr → Prop where
  | binary {op : BinaryOp} {left right otherLeft otherRight : Expr} {span : Span}
      {type : Option Ty} : Alike left otherLeft → Alike right otherRight →
      Alike (.binary op left right span type) (.binary op otherLeft otherRight span type)
  | unary {op : UnaryOp} {operand other : Expr} {span : Span} {type : Option Ty} :
      Alike operand other → Alike (.unary op operand span type) (.unary op other span type)
  | call {callee otherCallee : Expr} {arguments otherArguments : List Expr} {span : Span}
      {type : Option Ty} : Alike callee otherCallee → List.Forall₂ Alike arguments otherArguments →
      Alike (.call callee arguments span type) (.call otherCallee otherArguments span type)
  | grouping {inner other : Expr} {span : Span} {type : Option Ty} :
      Alike inner other → Alike (.grouping inner span type) (.grouping other span type)
  | literal {value other : Literal} {span : Span} {type : Option Ty} :
      value.Alike first second other → Alike (.literal value span type) (.literal other span type)
  | identifier {name other : Name} {symbol : Option SymbolId} {type : Option Ty} :
      name.Alike first second other →
      Alike (.identifier name symbol type) (.identifier other symbol type)

end

/-- Whether an expression is a decimal literal. -/
def Expr.IsDecimal : Expr → Prop
  | .literal value _ _ => value.IsDecimal
  | _ => False

instance : DecidablePred Expr.IsDecimal
  | .literal value _ _ => inferInstanceAs (Decidable value.IsDecimal)
  | .binary _ _ _ _ _ | .unary _ _ _ _ | .call _ _ _ _ | .grouping _ _ _ | .identifier _ _ _ =>
      .isFalse id

/-- Whether there is no decimal literal in an expression. -/
def Expr.HasNoDecimal (value : Expr) : Prop :=
  ∀ inner ∈ value.subexpressions, ¬ inner.IsDecimal

theorem Expr.HasNoDecimal.root {value : Expr} (noDecimal : value.HasNoDecimal) :
    ¬ value.IsDecimal := by
  apply noDecimal
  cases value <;> exact List.mem_cons_self

theorem Expr.hasNoDecimal_binary {op : BinaryOp} {left right : Expr} {span : Span}
    {type : Option Ty} (noDecimal : (Expr.binary op left right span type).HasNoDecimal) :
    left.HasNoDecimal ∧ right.HasNoDecimal :=
  List.forall_mem_append.mp (List.forall_mem_cons.mp noDecimal).2

theorem Expr.hasNoDecimal_call {callee : Expr} {arguments : List Expr} {span : Span}
    {type : Option Ty} (noDecimal : (Expr.call callee arguments span type).HasNoDecimal) :
    callee.HasNoDecimal ∧ ∀ inner ∈ Expr.subexpressionsOfAll arguments, ¬ inner.IsDecimal :=
  List.forall_mem_append.mp (List.forall_mem_cons.mp noDecimal).2

namespace Listing

variable {first second : Interner}

/-- The heading of an expression between its type and its span. -/
def label (interner : Interner) : Expr → Bytes
  | .binary op _ _ _ _ => Bytes.concat [op.levelName, " op=", op.spelling]
  | .unary op _ _ _ => Bytes.concat ["Unary op=", op.spelling]
  | .call _ _ _ _ => "Call"
  | .grouping _ _ _ => "Grouping"
  | .literal value _ _ => Bytes.concat ["Literal ", literalText interner value]
  | .identifier name symbol _ =>
      Bytes.concat ["Id ", nameText interner name.key, symbolText symbol]

/-- The lines below the heading of an expression. -/
def parts (interner : Interner) : Expr → List Line
  | .binary _ left right _ _ => expression interner left ++ expression interner right
  | .unary _ operand _ _ => expression interner operand
  | .call callee arguments _ _ => expression interner callee ++ argumentsFrom interner 0 arguments
  | .grouping inner _ _ => expression interner inner
  | .literal _ _ _ => []
  | .identifier _ _ _ => []

/-- The lines of an expression are a heading and what is below it. -/
theorem expression_eq (interner : Interner) (value : Expr) : expression interner value =
    Line.under (typeText value.type ++ label interner value ++ spanText value.span)
      (parts interner value) := by
  cases value <;> simp [expression, label, parts, Bytes.concat, Expr.type, Expr.span, Line.under]

theorem expression_ne_nil (interner : Interner) (value : Expr) :
    expression interner value ≠ [] := by
  rw [expression_eq]
  exact List.cons_ne_nil _ _

/-- Expressions of the same kind, with the same operator, value or name. -/
inductive SameLabel (first second : Interner) : Expr → Expr → Prop where
  | binary (op : BinaryOp) (left right otherLeft otherRight : Expr) (span otherSpan : Span)
      (type otherType : Option Ty) : SameLabel first second (.binary op left right span type)
        (.binary op otherLeft otherRight otherSpan otherType)
  | unary (op : UnaryOp) (operand other : Expr) (span otherSpan : Span)
      (type otherType : Option Ty) : SameLabel first second (.unary op operand span type)
        (.unary op other otherSpan otherType)
  | call (callee other : Expr) (arguments otherArguments : List Expr) (span otherSpan : Span)
      (type otherType : Option Ty) : SameLabel first second (.call callee arguments span type)
        (.call other otherArguments otherSpan otherType)
  | grouping (inner other : Expr) (span otherSpan : Span) (type otherType : Option Ty) :
      SameLabel first second (.grouping inner span type) (.grouping other otherSpan otherType)
  | literal {value other : Literal} (alike : value.Alike first second other)
      (span otherSpan : Span) (type otherType : Option Ty) :
      SameLabel first second (.literal value span type) (.literal other otherSpan otherType)
  | identifier {name other : Name} (text_eq : first.textOf name.key = second.textOf other.key)
      (symbol : Option SymbolId) (type otherType : Option Ty) :
      SameLabel first second (.identifier name symbol type) (.identifier other symbol otherType)

/-- The kinds of expressions. -/
inductive Kind where
  | binary | unary | call | grouping | literal | identifier

/-- The kind of an expression. -/
def kind : Expr → Kind
  | .binary _ _ _ _ _ => .binary
  | .unary _ _ _ _ => .unary
  | .call _ _ _ _ => .call
  | .grouping _ _ _ => .grouping
  | .literal _ _ _ => .literal
  | .identifier _ _ _ => .identifier

/-- The kind of the expressions whose labels start with two letters. -/
def kindOf (letters : Bytes) : Kind :=
  if letters = [85, 110] then .unary
  else if letters = [67, 97] then .call
  else if letters = [71, 114] then .grouping
  else if letters = [76, 105] then .literal
  else if letters = [73, 100] then .identifier
  else .binary

theorem kindOf_label (interner : Interner) (value : Expr) :
    kindOf ((label interner value).take 2) = kind value := by
  rcases value with ⟨op | op | op | op⟩ | _ | _ | _ | _ | _
  case binary.equality | binary.comparison | binary.term | binary.factor => cases op <;> rfl
  all_goals rfl

theorem sameLabel_of_label {value other : Expr} (noDecimal : ¬ value.IsDecimal)
    (otherNoDecimal : ¬ other.IsDecimal) (same : label first value = label second other) :
    SameLabel first second value other := by
  have kinds : kind value = kind other := by
    rw [← kindOf_label first, ← kindOf_label second, same]
  cases value with
  | binary op left right span type =>
      cases other with
      | binary otherOp otherLeft otherRight otherSpan otherType =>
          cases BinaryOp.words_injective op otherOp same
          exact .binary _ _ _ _ _ _ _ _ _
      | _ => cases kinds
  | unary op operand span type =>
      cases other with
      | unary otherOp otherOperand otherSpan otherType =>
          cases UnaryOp.words_injective op otherOp same
          exact .unary _ _ _ _ _ _ _
      | _ => cases kinds
  | call callee arguments span type =>
      cases other with
      | call otherCallee otherArguments otherSpan otherType => exact .call _ _ _ _ _ _ _ _
      | _ => cases kinds
  | grouping inner span type =>
      cases other with
      | grouping otherInner otherSpan otherType => exact .grouping _ _ _ _ _ _
      | _ => cases kinds
  | literal literal span type =>
      cases other with
      | literal otherLiteral otherSpan otherType =>
          simp only [label, Bytes.concat, List.flatten_cons, List.flatten_nil, List.append_nil,
            List.append_cancel_left_eq] at same
          exact .literal (literalText_inj noDecimal otherNoDecimal same) _ _ _ _
      | _ => cases kinds
  | identifier name symbol type =>
      cases other with
      | identifier otherName otherSymbol otherType =>
          simp only [label, Bytes.concat, List.flatten_cons, List.flatten_nil, List.append_nil,
            List.append_cancel_left_eq] at same
          rcases symbolText_append_inj (endsInWord_nameText first name.key)
            (endsInWord_nameText second otherName.key) same with ⟨name_eq, rfl⟩
          exact .identifier (nameText_inj name_eq) _ _ _
      | _ => cases kinds

/-- The label of an expression starts with a letter. -/
theorem exists_label_eq (interner : Interner) (value : Expr) :
    ∃ first rest, label interner value = first :: rest ∧ first.isLetter := by
  rcases value with ⟨op | op | op | op⟩ | _ | _ | _ | _ | _
  case binary.equality | binary.comparison | binary.term | binary.factor =>
    cases op <;> exact ⟨_, _, rfl, rfl⟩
  all_goals exact ⟨_, _, rfl, rfl⟩

/-- The heading of an expression tells its type, its kind and its span. -/
theorem heading_inj {value other : Expr} (noDecimal : ¬ value.IsDecimal)
    (otherNoDecimal : ¬ other.IsDecimal)
    (same : typeText value.type ++ label first value ++ spanText value.span =
      typeText other.type ++ label second other ++ spanText other.span) :
    value.type = other.type ∧ SameLabel first second value other ∧ value.span = other.span := by
  rcases spanText_append_inj same with ⟨words, span_eq⟩
  rcases exists_label_eq first value with ⟨letter, rest, label_eq, isLetter⟩
  rcases exists_label_eq second other with ⟨otherLetter, otherRest, otherLabel, otherIsLetter⟩
  rw [label_eq, otherLabel] at words
  rcases typeText_append_inj isLetter otherIsLetter words with ⟨type_eq, labels⟩
  rw [← label_eq, ← otherLabel] at labels
  exact ⟨type_eq, sameLabel_of_label noDecimal otherNoDecimal labels, span_eq⟩

theorem startsOver_under (heading : Bytes) (lines others : List Line) :
    Line.StartsOver (Line.under heading lines ++ others) :=
  Line.startsOver_cons heading _

theorem startsOver_expression (interner : Interner) (value : Expr) (others : List Line) :
    Line.StartsOver (expression interner value ++ others) := by
  rw [expression_eq]
  exact startsOver_under _ _ _

/-- The heading of a numbered piece. -/
def numberText (word : Bytes) (index : Nat) : Bytes :=
  Bytes.concat [word, Bytes.ofNat index, "]"]

theorem argumentsFrom_eq (interner : Interner) (index : Nat) (arguments : List Expr) :
    argumentsFrom interner index arguments =
      Line.numbered (fun index _ => numberText "Arg[" index) (expression interner) index
        arguments := by
  induction arguments generalizing index with
  | nil => rfl
  | cons argument arguments ih => rw [argumentsFrom, ih, Line.numbered, numberText]

theorem startsOver_argumentsFrom (interner : Interner) (index : Nat) (arguments : List Expr) :
    Line.StartsOver (argumentsFrom interner index arguments) := by
  rw [argumentsFrom_eq]
  exact Line.startsOver_numbered _ _

/-- Whatever lines stand behind those of an expression, its own lines tell it. -/
def Tells (first second : Interner) (value : Expr) : Prop :=
  ∀ (other : Expr) (rest otherRest : List Line), other.HasNoDecimal → Line.StartsOver rest →
    Line.StartsOver otherRest →
    expression first value ++ rest = expression second other ++ otherRest →
      value.Alike first second other ∧ rest = otherRest

theorem Tells.alike {value other : Expr} (tells : Tells first second value)
    (noDecimal : other.HasNoDecimal) (same : expression first value = expression second other) :
    value.Alike first second other :=
  (tells other [] [] noDecimal Line.startsOver_nil Line.startsOver_nil (congrArg (· ++ []) same)).1

/-- An expression is told if its root and the lines of its parts tell it. -/
theorem Tells.of_parts {value : Expr} (noDecimal : ¬ value.IsDecimal)
    (told : ∀ other : Expr, other.HasNoDecimal → value.type = other.type →
      value.span = other.span → parts first value = parts second other →
      SameLabel first second value other → value.Alike first second other) :
    Tells first second value := by
  intro other rest otherRest otherNoDecimal fresh otherFresh same
  rw [expression_eq, expression_eq] at same
  rcases Line.under_append_inj fresh otherFresh same with ⟨headings, parts_eq, rest_eq⟩
  rcases heading_inj noDecimal otherNoDecimal.root headings with ⟨type_eq, label, span_eq⟩
  exact ⟨told other otherNoDecimal type_eq span_eq parts_eq label, rest_eq⟩

theorem Tells.binary {left right : Expr} (leftTells : Tells first second left)
    (rightTells : Tells first second right) (op : BinaryOp) (span : Span) (type : Option Ty) :
    Tells first second (.binary op left right span type) := by
  refine .of_parts id fun other noDecimal type_eq span_eq parts_eq label => ?_
  cases label with
  | binary _ _ _ otherLeft otherRight =>
      cases type_eq
      cases span_eq
      rcases Expr.hasNoDecimal_binary noDecimal with ⟨leftFree, rightFree⟩
      rw [parts, parts, ← List.append_nil (expression first right),
        ← List.append_nil (expression second otherRight)] at parts_eq
      rcases leftTells otherLeft _ _ leftFree (startsOver_expression _ _ _)
        (startsOver_expression _ _ _) parts_eq with ⟨leftAlike, rights_eq⟩
      rw [List.append_nil, List.append_nil] at rights_eq
      exact .binary leftAlike (rightTells.alike rightFree rights_eq)

theorem Tells.unary {operand : Expr} (tells : Tells first second operand) (op : UnaryOp)
    (span : Span) (type : Option Ty) : Tells first second (.unary op operand span type) := by
  refine .of_parts id fun other noDecimal type_eq span_eq parts_eq label => ?_
  cases label with
  | unary _ _ otherOperand =>
      cases type_eq
      cases span_eq
      exact .unary (tells.alike (List.forall_mem_cons.mp noDecimal).2 parts_eq)

theorem Tells.grouping {inner : Expr} (tells : Tells first second inner) (span : Span)
    (type : Option Ty) : Tells first second (.grouping inner span type) := by
  refine .of_parts id fun other noDecimal type_eq span_eq parts_eq label => ?_
  cases label with
  | grouping _ otherInner =>
      cases type_eq
      cases span_eq
      exact .grouping (tells.alike (List.forall_mem_cons.mp noDecimal).2 parts_eq)

theorem argumentsFrom_inj {index : Nat} {arguments others : List Expr}
    (tells : ∀ argument ∈ arguments, Tells first second argument)
    (noDecimals : ∀ inner ∈ Expr.subexpressionsOfAll others, ¬ inner.IsDecimal)
    (same : argumentsFrom first index arguments = argumentsFrom second index others) :
    List.Forall₂ (Expr.Alike first second) arguments others := by
  rw [Expr.subexpressionsOfAll_eq_flatMap, List.forall_mem_flatMap] at noDecimals
  rw [argumentsFrom_eq, argumentsFrom_eq] at same
  refine Line.numbered_inj (fun argument member other otherMember _ _ lines_eq => ?_) same
  exact (tells argument member).alike (noDecimals other otherMember) lines_eq

theorem Tells.call {callee : Expr} {arguments : List Expr} (calleeTells : Tells first second callee)
    (argumentsTell : ∀ argument ∈ arguments, Tells first second argument) (span : Span)
    (type : Option Ty) : Tells first second (.call callee arguments span type) := by
  refine .of_parts id fun other noDecimal type_eq span_eq parts_eq label => ?_
  cases label with
  | call _ otherCallee _ otherArguments =>
      cases type_eq
      cases span_eq
      rcases Expr.hasNoDecimal_call noDecimal with ⟨calleeFree, argumentsFree⟩
      rcases calleeTells otherCallee _ _ calleeFree (startsOver_argumentsFrom _ _ _)
        (startsOver_argumentsFrom _ _ _) parts_eq with ⟨calleeAlike, lists_eq⟩
      exact .call calleeAlike (argumentsFrom_inj argumentsTell argumentsFree lists_eq)

theorem Tells.literal {value : Literal} (noDecimal : ¬ value.IsDecimal) (span : Span)
    (type : Option Ty) : Tells first second (.literal value span type) := by
  refine .of_parts noDecimal fun other _ type_eq span_eq _ label => ?_
  cases label with
  | literal alike =>
      cases type_eq
      cases span_eq
      exact .literal alike

theorem Tells.identifier (name : Name) (symbol : Option SymbolId) (type : Option Ty) :
    Tells first second (.identifier name symbol type) := by
  refine .of_parts id fun other _ type_eq span_eq _ label => ?_
  cases label with
  | identifier text_eq =>
      cases type_eq
      exact .identifier ⟨text_eq, span_eq⟩

mutual

/-- The lines of an expression without decimals tell it. -/
theorem tells (first second : Interner) : (value : Expr) → value.HasNoDecimal →
    Tells first second value
  | .binary op left right span type, noDecimal => by
      rcases Expr.hasNoDecimal_binary noDecimal with ⟨leftFree, rightFree⟩
      exact .binary (tells first second left leftFree) (tells first second right rightFree) op span
        type
  | .unary op operand span type, noDecimal =>
      .unary (tells first second operand (List.forall_mem_cons.mp noDecimal).2) op span type
  | .call callee arguments span type, noDecimal => by
      rcases Expr.hasNoDecimal_call noDecimal with ⟨calleeFree, argumentsFree⟩
      exact .call (tells first second callee calleeFree)
        (tellsOfAll first second arguments argumentsFree) span type
  | .grouping inner span type, noDecimal =>
      .grouping (tells first second inner (List.forall_mem_cons.mp noDecimal).2) span type
  | .literal _ span type, noDecimal => .literal noDecimal.root span type
  | .identifier name symbol type, _ => .identifier name symbol type

theorem tellsOfAll (first second : Interner) : (values : List Expr) →
    (∀ inner ∈ Expr.subexpressionsOfAll values, ¬ inner.IsDecimal) →
      ∀ value ∈ values, Tells first second value
  | [], _ => by simp
  | value :: values, noDecimals => by
      rcases List.forall_mem_append.mp noDecimals with ⟨valueFree, valuesFree⟩
      exact List.forall_mem_cons.mpr
        ⟨tells first second value valueFree, tellsOfAll first second values valuesFree⟩

end

theorem nameText_of_alike {name other : Name} (alike : name.Alike first second other) :
    nameText first name.key = nameText second other.key := by
  rw [nameText_eq, nameText_eq, alike.text_eq]

mutual

theorem expression_of_alike {value other : Expr} : value.Alike first second other →
    expression first value = expression second other
  | .binary left right => by
      simp only [expression, expression_of_alike left, expression_of_alike right]
  | .unary operand => by simp only [expression, expression_of_alike operand]
  | .call callee arguments => by
      simp only [expression, expression_of_alike callee, argumentsFrom_of_alike 0 arguments]
  | .grouping inner => by simp only [expression, expression_of_alike inner]
  | .literal alike => by simp only [expression, literalText_of_alike alike]
  | .identifier alike => by simp only [expression, nameText_of_alike alike, alike.span_eq]

theorem argumentsFrom_of_alike (index : Nat) {arguments others : List Expr} :
    List.Forall₂ (Expr.Alike first second) arguments others →
      argumentsFrom first index arguments = argumentsFrom second index others
  | .nil => rfl
  | .cons alike rest => by
      simp only [argumentsFrom, expression_of_alike alike, argumentsFrom_of_alike (index + 1) rest]

end

end Listing

end TypedLang
