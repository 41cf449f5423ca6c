import Mathlib.Computability.RegularExpressions
import Mathlib.Order.FixedPoints
import Mathlib.Order.CompletePartialOrder
import TypedLang.Token

/-!
# The grammar as productions

The grammar of the language as it is written down for its users: for every name a regular expression
over the kinds of tokens and the names. The sentences of the names are the least sets of lists of
kinds that agree with all productions.

Nothing here refers to trees or to the parser.
-/

namespace TypedLang

open Computability

/-- The names that the grammar defines. -/
inductive Nonterminal where
  | program | declaration | funDecl | parameters | type | letDecl | block | blockItem
  | returnStatement | expressionStatement | expression | equality | comparison | term | factor
  | unary | call | arguments | primary
  deriving Repr, DecidableEq

/-- The right-hand side of a production. -/
abbrev Ebnf := RegularExpression (TokenKind ⊕ Nonterminal)

namespace Ebnf

/-- A token of a kind. -/
def token (kind : TokenKind) : Ebnf :=
  .char (.inl kind)

/-- A reserved word. -/
def word (word : Keyword) : Ebnf :=
  token (.keyword word)

/-- A mark of punctuation or an operator. -/
def mark (mark : Punct) : Ebnf :=
  token (.punct mark)

/-- Whatever a name stands for. -/
def rule (name : Nonterminal) : Ebnf :=
  .char (.inr name)

/-- A form that may be left out. -/
def optional (form : Ebnf) : Ebnf :=
  1 + form

/-- A token of one of some kinds. -/
def oneOf (kinds : List TokenKind) : Ebnf :=
  (kinds.map token).sum

/-- Items between separators, at least one. -/
def separated (item separator : Ebnf) : Ebnf :=
  item * (separator * item).star

variable {Letter : Type} {ofKind : TokenKind → Language Letter}
  {ofName others : Nonterminal → Language Letter}

/-- The sentences of a form, if those of single kinds and of the names are given. -/
def sentences (ofKind : TokenKind → Language Letter) (ofName : Nonterminal → Language Letter) :
    Ebnf → Language Letter
  | .zero => 0
  | .epsilon => 1
  | .char (.inl kind) => ofKind kind
  | .char (.inr name) => ofName name
  | .plus first second => sentences ofKind ofName first + sentences ofKind ofName second
  | .comp first second => sentences ofKind ofName first * sentences ofKind ofName second
  | .star form => (sentences ofKind ofName form)∗

@[simp]
theorem sentences_token (kind : TokenKind) : sentences ofKind ofName (token kind) = ofKind kind :=
  rfl

@[simp]
theorem sentences_word (reserved : Keyword) :
    sentences ofKind ofName (word reserved) = ofKind (.keyword reserved) :=
  rfl

@[simp]
theorem sentences_mark (punct : Punct) :
    sentences ofKind ofName (mark punct) = ofKind (.punct punct) :=
  rfl

@[simp]
theorem sentences_rule (name : Nonterminal) : sentences ofKind ofName (rule name) = ofName name :=
  rfl

@[simp]
theorem sentences_add (first second : Ebnf) :
    sentences ofKind ofName (first + second) =
      sentences ofKind ofName first + sentences ofKind ofName second :=
  rfl

@[simp]
theorem sentences_mul (first second : Ebnf) :
    sentences ofKind ofName (first * second) =
      sentences ofKind ofName first * sentences ofKind ofName second :=
  rfl

@[simp]
theorem sentences_star (form : Ebnf) :
    sentences ofKind ofName form.star = (sentences ofKind ofName form)∗ :=
  rfl

@[simp]
theorem sentences_optional (form : Ebnf) :
    sentences ofKind ofName (optional form) = 1 + sentences ofKind ofName form :=
  rfl

@[simp]
theorem sentences_separated (item separator : Ebnf) :
    sentences ofKind ofName (separated item separator) =
      sentences ofKind ofName item *
        (sentences ofKind ofName separator * sentences ofKind ofName item)∗ :=
  rfl

theorem mem_sentences_oneOf {kinds : List TokenKind} {letters : List Letter} :
    letters ∈ sentences ofKind ofName (oneOf kinds) ↔ ∃ kind ∈ kinds, letters ∈ ofKind kind := by
  induction kinds with
  | nil => simp [oneOf, sentences]
  | cons kind kinds ih =>
      rw [List.exists_mem_cons_iff, ← ih]
      rfl

/-- More sentences of the names make more sentences of a form. -/
theorem sentences_mono (le : ofName ≤ others) (form : Ebnf) :
    sentences ofKind ofName form ≤ sentences ofKind others form := by
  induction form with
  | zero => exact le_rfl
  | epsilon => exact le_rfl
  | char letter =>
      cases letter with
      | inl kind => exact le_rfl
      | inr name => exact le name
  | plus first second firstLe secondLe => exact add_le_add firstLe secondLe
  | comp first second firstLe secondLe => exact mul_le_mul' firstLe secondLe
  | star form le => exact kstar_mono le

end Ebnf

namespace Nonterminal

open Ebnf

/-- The productions of the grammar, from whole programs down to the tightest expressions. -/
def production : Nonterminal → Ebnf
  | program => (rule declaration).star
  | declaration => rule letDecl + rule funDecl
  | funDecl =>
      word .funWord * token .identifier * mark .leftParen * optional (rule parameters) *
        mark .rightParen * rule type * rule block
  | parameters => separated (token .identifier * rule type) (mark .comma)
  | type => mark .atSign * oneOf TokenKind.typeNames
  | letDecl =>
      word .letWord * token .identifier * rule type * optional (mark .equal * rule expression) *
        mark .semicolon
  | block => mark .leftBrace * (rule blockItem).star * mark .rightBrace
  | blockItem => rule letDecl + rule returnStatement + rule expressionStatement + rule block
  | returnStatement => word .returnWord * optional (rule expression) * mark .semicolon
  | expressionStatement => rule expression * mark .semicolon
  | expression => rule equality
  | equality => separated (rule comparison) (oneOf [.punct .equalEqual, .punct .bangEqual])
  | comparison =>
      separated (rule term)
        (oneOf [.punct .less, .punct .lessEqual, .punct .greater, .punct .greaterEqual])
  | term => separated (rule factor) (oneOf [.punct .plus, .punct .minus])
  | factor => separated (rule unary) (oneOf [.punct .star, .punct .slash])
  | unary => oneOf [.punct .bang, .punct .minus] * rule unary + rule call
  | call => rule primary * (mark .leftParen * optional (rule arguments) * mark .rightParen).star
  | arguments => separated (rule expression) (mark .comma)
  | primary =>
      oneOf [.integer, .decimal, .string, .boolean, .identifier] +
        mark .leftParen * rule expression * mark .rightParen

/-- What the productions make of given sentences of the names. -/
def produced : (Nonterminal → Language TokenKind) →o (Nonterminal → Language TokenKind) where
  toFun ofName name := sentences (fun kind => {[kind]}) ofName name.production
  monotone' _ _ le name := sentences_mono le name.production

/-- The sentences of the names: the least ones that agree with all productions. -/
def language : Nonterminal → Language TokenKind :=
  OrderHom.lfp produced

theorem language_eq (name : Nonterminal) :
    name.language = sentences (fun kind => {[kind]}) language name.production :=
  (congrFun (OrderHom.map_lfp produced) name).symm

/-- The sentences of the names lie within whatever agrees with all productions. -/
theorem language_le {ofName : Nonterminal → Language TokenKind}
    (closed : ∀ name, sentences (fun kind => {[kind]}) ofName name.production ≤ ofName name) :
    language ≤ ofName :=
  OrderHom.lfp_le produced closed

end Nonterminal

end TypedLang
