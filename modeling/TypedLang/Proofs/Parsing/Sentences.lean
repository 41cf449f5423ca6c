import TypedLang.Proofs.Parsing.Completeness
import TypedLang.Proofs.Parsing.Ebnf

/-!
# The parser accepts the sentences of the grammar

The productions speak of kinds of tokens, the relations between tokens and trees of tokens. Both are
brought together over tokens: what a name of the grammar describes is exactly what some tree of that
name is spelled by. One inclusion says that the spelled tokens agree with all productions, and the
sentences are the least that do; the other one follows the constructors of the relations.
-/

namespace TypedLang

open Computability

/-- The lists of tokens whose kinds are among given lists of kinds. -/
def ofKinds (sentences : Language TokenKind) : Language Token :=
  {tokens | tokens.map Token.kind ∈ sentences}

/-- A token of a kind, by the value that it carries. -/
def single : TokenKind → Language Token
  | .identifier => {tokens | ∃ name : Name, tokens = [⟨.identifier name.key, name.span⟩]}
  | .integer => {tokens | ∃ value span, tokens = [⟨.integer value, span⟩]}
  | .decimal => {tokens | ∃ value span, tokens = [⟨.decimal value, span⟩]}
  | .string => {tokens | ∃ key span, tokens = [⟨.string key, span⟩]}
  | .boolean => {tokens | ∃ value span, tokens = [⟨.boolean value, span⟩]}
  | .keyword word => {tokens | ∃ span, tokens = [⟨.keyword word, span⟩]}
  | .typeName word => {tokens | ∃ span, tokens = [⟨.typeName word, span⟩]}
  | .punct mark => {tokens | ∃ span, tokens = [⟨.punct mark, span⟩]}

theorem mem_single (token : Token) : [token] ∈ single token.kind := by
  rcases token with ⟨lexeme, span⟩
  cases lexeme with
  | identifier key => exact ⟨⟨key, span⟩, rfl⟩
  | integer value => exact ⟨value, span, rfl⟩
  | decimal value => exact ⟨value, span, rfl⟩
  | string key => exact ⟨key, span, rfl⟩
  | boolean value => exact ⟨value, span, rfl⟩
  | keyword word => exact ⟨span, rfl⟩
  | typeName word => exact ⟨span, rfl⟩
  | punct mark => exact ⟨span, rfl⟩

theorem kinds_of_mem_single {kind : TokenKind} {tokens : List Token}
    (isSingle : tokens ∈ single kind) : tokens.map Token.kind = [kind] := by
  cases kind with
  | identifier =>
      rcases isSingle with ⟨name, rfl⟩
      rfl
  | keyword word =>
      rcases isSingle with ⟨span, rfl⟩
      rfl
  | typeName word =>
      rcases isSingle with ⟨span, rfl⟩
      rfl
  | punct mark =>
      rcases isSingle with ⟨span, rfl⟩
      rfl
  | _ =>
      rcases isSingle with ⟨value, span, rfl⟩
      rfl

section OfKinds

variable {first second : Language TokenKind}

theorem mem_ofKinds {tokens : List Token} {sentences : Language TokenKind} :
    tokens ∈ ofKinds sentences ↔ tokens.map Token.kind ∈ sentences :=
  Iff.rfl

theorem ofKinds_one : ofKinds 1 = 1 := by
  ext tokens
  simp [mem_ofKinds]

theorem ofKinds_singleton (kind : TokenKind) : ofKinds {[kind]} = single kind := by
  ext tokens
  constructor
  · intro kinds_eq
    rcases List.map_eq_singleton_iff.mp kinds_eq with ⟨token, rfl, rfl⟩
    exact mem_single token
  · exact kinds_of_mem_single

theorem ofKinds_mul : ofKinds (first * second) = ofKinds first * ofKinds second := by
  ext tokens
  rw [mem_ofKinds, Language.mem_mul, Language.mem_mul]
  constructor
  · rintro ⟨front, frontMem, back, backMem, eq⟩
    rcases List.map_eq_append_iff.mp eq.symm with ⟨frontTokens, backTokens, rfl, rfl, rfl⟩
    exact ⟨frontTokens, frontMem, backTokens, backMem, rfl⟩
  · rintro ⟨front, frontMem, back, backMem, rfl⟩
    exact ⟨_, frontMem, _, backMem, List.map_append.symm⟩

theorem ofKinds_pow (count : Nat) : ofKinds (first ^ count) = ofKinds first ^ count := by
  induction count with
  | zero => rw [pow_zero, pow_zero, ofKinds_one]
  | succ count ih => rw [pow_succ, pow_succ, ofKinds_mul, ih]

theorem ofKinds_kstar : ofKinds first∗ = (ofKinds first)∗ := by
  ext tokens
  rw [Language.kstar_eq_iSup_pow, Language.kstar_eq_iSup_pow, mem_ofKinds, Language.mem_iSup,
    Language.mem_iSup]
  simp only [← mem_ofKinds, ofKinds_pow]

/-- Tokens fit a form if their kinds do. -/
theorem ofKinds_sentences (ofName : Nonterminal → Language TokenKind) (form : Ebnf) :
    ofKinds (form.sentences (fun kind => {[kind]}) ofName) =
      form.sentences single fun name => ofKinds (ofName name) := by
  induction form with
  | zero => rfl
  | epsilon => exact ofKinds_one
  | char letter =>
      cases letter with
      | inl kind => exact ofKinds_singleton kind
      | inr name => rfl
  | plus first second firstEq secondEq => exact congrArg₂ (· + ·) firstEq secondEq
  | comp first second firstEq secondEq =>
      exact ofKinds_mul.trans (congrArg₂ (· * ·) firstEq secondEq)
  | star form eq => exact ofKinds_kstar.trans (congrArg KStar.kstar eq)

end OfKinds

namespace Nonterminal

/-- The lists of tokens whose kinds are a sentence of a name. -/
def texts (name : Nonterminal) : Language Token :=
  ofKinds name.language

theorem texts_eq (name : Nonterminal) : name.texts = name.production.sentences single texts := by
  rw [texts, language_eq, ofKinds_sentences]
  rfl

/-- The kinds of which all tokens are accepted. -/
def safeKinds (accepted : Language Token) : Language TokenKind :=
  {kinds | ∀ tokens : List Token, tokens.map Token.kind = kinds → tokens ∈ accepted}

/-- The tokens that are sentences of the names lie within whatever agrees with all productions. -/
theorem texts_le {accepted : Nonterminal → Language Token}
    (closed : ∀ name, name.production.sentences single accepted ≤ accepted name) :
    texts ≤ accepted := by
  -- The least sentences are lists of kinds; they are safe with whatever values the tokens carry.
  have within : language ≤ fun name => safeKinds (accepted name) := by
    apply language_le
    intro name kinds produced tokens kinds_eq
    subst kinds_eq
    have fits : tokens ∈ ofKinds (name.production.sentences _ _) := produced
    rw [ofKinds_sentences] at fits
    have accepts : (fun name => ofKinds (safeKinds (accepted name))) ≤ accepted :=
      fun _ tokens safe => safe tokens rfl
    exact closed name (Ebnf.sentences_mono accepts _ fits)
  intro name tokens isText
  exact within name isText tokens rfl

end Nonterminal

/-- The lists of tokens that spell something. -/
def spelledBy {Item : Type} (spelled : List Token → Item → Prop) : Language Token :=
  {tokens | ∃ item, spelled tokens item}

/-- The lists of tokens that spell a list with at least one item. -/
def listedBy {Item : Type} (spelled : List Token → Item → Prop) : Language Token :=
  {tokens | ∃ item items, InList spelled tokens (item :: items)}

section Lists

variable {Item : Type} {spelled : List Token → Item → Prop}

theorem append_mem_of_le {first second whole : Language Token} (le : first * second ≤ whole)
    {front back : List Token} (frontMem : front ∈ first) (backMem : back ∈ second) :
    front ++ back ∈ whole :=
  le (Language.append_mem_mul frontMem backMem)

/-- What is spelled in sequence without recoveries is what is spelled, over and over. -/
theorem spelledBy_inSequence :
    spelledBy (InSequence False spelled) = (spelledBy spelled)∗ := by
  apply le_antisymm
  · rintro tokens ⟨_, pieces, rfl, spliced, all⟩
    induction pieces generalizing tokens with
    | nil =>
        rcases spliced with _ | _ | ⟨⟨⟩, _⟩
        exact Language.nil_mem_kstar _
    | cons piece pieces ih =>
        rcases spliced with _ | ⟨spliced⟩ | ⟨⟨⟩, _⟩
        rw [List.forall_mem_cons] at all
        exact append_mem_of_le mul_kstar_le_kstar ⟨_, all.1⟩ (ih spliced all.2)
  · apply kstar_le_of_mul_le_right
    · rintro _ rfl
      exact ⟨[], .nil⟩
    · rintro _ ⟨front, ⟨item, first⟩, back, ⟨items, sequence⟩, rfl⟩
      exact ⟨item :: items, sequence.cons first⟩

/-- The items of a list behind the first one stand behind commas. -/
theorem listedBy_eq :
    listedBy spelled = spelledBy spelled * (single (.punct .comma) * spelledBy spelled)∗ := by
  apply le_antisymm
  · rintro tokens ⟨item, items, pieces, items_eq, separated, all⟩
    induction pieces generalizing tokens item items with
    | nil => cases items_eq
    | cons piece pieces ih =>
        cases items_eq
        rw [List.forall_mem_cons] at all
        cases pieces with
        | nil =>
            cases separated
            exact ⟨_, ⟨_, all.1⟩, [], Language.nil_mem_kstar _, List.append_nil _⟩
        | cons next pieces =>
            rcases separated with _ | _ | @⟨_, _, _, _, comma, separated⟩
            rcases ih _ _ rfl separated all.2 with ⟨front, frontMem, back, backMem, rfl⟩
            have commaMem : [⟨.punct .comma, comma⟩] ∈ single (.punct .comma) := ⟨comma, rfl⟩
            exact ⟨_, ⟨_, all.1⟩, _, append_mem_of_le mul_kstar_le_kstar
              (Language.append_mem_mul commaMem frontMem) backMem, rfl⟩
  · -- The tails that continue every list behind its first item are closed under one more item.
    let continued : Language Token := {tail | ∀ front item, spelled front item →
      ∃ others, InList spelled (front ++ tail) (item :: others)}
    have all : (single (.punct .comma) * spelledBy spelled)∗ ≤ continued := by
      apply kstar_le_of_mul_le_right
      · rintro _ rfl front item first
        exact ⟨[], by simpa using InList.singleton first⟩
      · rintro _ ⟨_, ⟨_, ⟨comma, rfl⟩, next, ⟨other, second⟩, rfl⟩, tail, more, rfl⟩
        intro front item first
        rcases more next other second with ⟨others, list⟩
        exact ⟨other :: others, by simpa using list.cons first⟩
    rintro _ ⟨front, ⟨item, first⟩, tail, tailMem, rfl⟩
    rcases all tailMem front item first with ⟨others, list⟩
    exact ⟨item, others, list⟩

/-- A list is empty or it has items. -/
theorem spelledBy_inList : spelledBy (InList spelled) = 1 + listedBy spelled := by
  ext tokens
  constructor
  · rintro ⟨items, list⟩
    cases items with
    | nil =>
        rcases list with ⟨pieces, pieces_eq, separated, _⟩
        cases List.map_eq_nil_iff.mp pieces_eq.symm
        cases separated
        exact .inl rfl
    | cons item items => exact .inr ⟨item, items, list⟩
  · rintro (rfl | ⟨item, items, list⟩)
    · exact ⟨[], .nil⟩
    · exact ⟨item :: items, list⟩

end Lists

namespace Nonterminal

/-- The lists of tokens that spell what a name stands for. -/
def constructs : Nonterminal → Language Token
  | program => spelledBy (InSequence False (Decl.Spelled False))
  | declaration => spelledBy (Decl.Spelled False)
  | funDecl => {tokens | ∃ decl, Decl.Spelled False tokens (.funDecl decl)}
  | parameters => listedBy Parameter.Spelled
  | type => spelledBy WrittenType.Spelled
  | letDecl => spelledBy LetDecl.Spelled
  | block => {tokens | ∃ statements span, Stmt.Spelled False tokens (.block statements span)}
  | blockItem => spelledBy (Stmt.Spelled False)
  | returnStatement => {tokens | ∃ value span, Stmt.Spelled False tokens (.returning value span)}
  | expressionStatement =>
      {tokens | ∃ value span, Stmt.Spelled False tokens (.expression value span)}
  | expression => spelledBy (Expr.Spelled 0)
  | equality => spelledBy (Expr.Spelled 0)
  | comparison => spelledBy (Expr.Spelled 1)
  | term => spelledBy (Expr.Spelled 2)
  | factor => spelledBy (Expr.Spelled 3)
  | unary => spelledBy (Expr.Spelled 4)
  | call => spelledBy (Expr.Spelled 5)
  | arguments => listedBy (Expr.Spelled 0)
  | primary => spelledBy (Expr.Spelled 6)

theorem constructs_program :
    program.constructs = program.production.sentences single constructs :=
  spelledBy_inSequence

theorem constructs_declaration :
    declaration.constructs = declaration.production.sentences single constructs := by
  ext tokens
  constructor
  · rintro ⟨decl, spelled⟩
    cases decl with
    | letDecl decl =>
        cases spelled with
        | letDecl spelled => exact .inl ⟨decl, spelled⟩
    | funDecl decl => exact .inr ⟨decl, spelled⟩
  · rintro (⟨decl, spelled⟩ | ⟨_, spelled⟩)
    · exact ⟨.letDecl decl, .letDecl spelled⟩
    · exact ⟨_, spelled⟩

theorem constructs_parameters :
    parameters.constructs = parameters.production.sentences single constructs := by
  have parameter_eq : spelledBy Parameter.Spelled = single .identifier * type.constructs := by
    ext tokens
    constructor
    · rintro ⟨_, @⟨name, _, _, type⟩⟩
      exact ⟨_, ⟨name, rfl⟩, _, ⟨_, type⟩, rfl⟩
    · rintro ⟨_, ⟨name, rfl⟩, _, ⟨_, type⟩, rfl⟩
      exact ⟨_, .intro type⟩
  rw [constructs, listedBy_eq, parameter_eq]
  rfl

theorem constructs_type : type.constructs = type.production.sentences single constructs := by
  ext tokens
  constructor
  · rintro ⟨_, @⟨sign, span, word⟩⟩
    refine ⟨_, ⟨sign, rfl⟩, [⟨.typeName word, span⟩], Ebnf.mem_sentences_oneOf.mpr ?_, rfl⟩
    exact ⟨.typeName word, List.mem_map_of_mem (by cases word <;> decide), span, rfl⟩
  · rintro ⟨_, ⟨sign, rfl⟩, _, isName, rfl⟩
    rcases Ebnf.mem_sentences_oneOf.mp isName with ⟨kind, isTypeName, isSingle⟩
    rcases List.mem_map.mp isTypeName with ⟨word, _, rfl⟩
    rcases isSingle with ⟨span, rfl⟩
    exact ⟨_, .intro⟩

theorem constructs_letDecl :
    letDecl.constructs = letDecl.production.sentences single constructs := by
  ext tokens
  constructor
  · rintro ⟨decl, @⟨keyword, semicolon, name, _, _, _, _, type, _ | @⟨sign, _, _, value⟩⟩⟩
    · exact ⟨_, ⟨_, ⟨_, ⟨_, ⟨keyword, rfl⟩, _, ⟨name, rfl⟩, rfl⟩, _, ⟨_, type⟩, rfl⟩, _,
        .inl rfl, rfl⟩, _, ⟨semicolon, rfl⟩, by simp⟩
    · exact ⟨_, ⟨_, ⟨_, ⟨_, ⟨keyword, rfl⟩, _, ⟨name, rfl⟩, rfl⟩, _, ⟨_, type⟩, rfl⟩, _,
        .inr ⟨_, ⟨sign, rfl⟩, _, ⟨_, value⟩, rfl⟩, rfl⟩, _, ⟨semicolon, rfl⟩, by simp⟩
  · rintro ⟨_, ⟨_, ⟨_, ⟨_, ⟨keyword, rfl⟩, _, ⟨name, rfl⟩, rfl⟩, _, ⟨_, type⟩, rfl⟩, _,
      rfl | ⟨_, ⟨sign, rfl⟩, _, ⟨_, value⟩, rfl⟩, rfl⟩, _, ⟨semicolon, rfl⟩, rfl⟩
    · exact ⟨_, by simpa using @LetDecl.Spelled.intro keyword semicolon name _ _ _ _ type .none⟩
    · have initializer := @Expr.SpelledInitializer.some sign _ _ value
      exact ⟨_, by simpa using
        @LetDecl.Spelled.intro keyword semicolon name _ _ _ _ type initializer⟩

theorem constructs_returnStatement :
    returnStatement.constructs = returnStatement.production.sentences single constructs := by
  ext tokens
  constructor
  · rintro ⟨_, _, spelled⟩
    cases spelled with
    | @returning keyword semicolon _ _ spelled =>
        cases spelled with
        | none => exact ⟨_, ⟨_, ⟨keyword, rfl⟩, _, .inl rfl, rfl⟩, _, ⟨semicolon, rfl⟩, rfl⟩
        | some value =>
            exact ⟨_, ⟨_, ⟨keyword, rfl⟩, _, .inr ⟨_, value⟩, rfl⟩, _, ⟨semicolon, rfl⟩, rfl⟩
  · rintro ⟨_, ⟨_, ⟨keyword, rfl⟩, _, rfl | ⟨_, value⟩, rfl⟩, _, ⟨semicolon, rfl⟩, rfl⟩
    · exact ⟨_, _, @Stmt.Spelled.returning _ keyword semicolon _ _ .none⟩
    · exact ⟨_, _, @Stmt.Spelled.returning _ keyword semicolon _ _ (.some value)⟩

theorem constructs_expressionStatement :
    expressionStatement.constructs =
      expressionStatement.production.sentences single constructs := by
  ext tokens
  constructor
  · rintro ⟨_, _, @⟨semicolon, _, _, value⟩⟩
    exact ⟨_, ⟨_, value⟩, _, ⟨semicolon, rfl⟩, rfl⟩
  · rintro ⟨_, ⟨_, value⟩, _, ⟨semicolon, rfl⟩, rfl⟩
    exact ⟨_, _, @Stmt.Spelled.expression _ semicolon _ _ value⟩

theorem constructs_blockItem :
    blockItem.constructs = blockItem.production.sentences single constructs := by
  ext tokens
  constructor
  · rintro ⟨statement, spelled⟩
    cases statement with
    | letDecl decl =>
        cases spelled with
        | letDecl spelled => exact .inl (.inl (.inl ⟨decl, spelled⟩))
    | returning value span => exact .inl (.inl (.inr ⟨value, span, spelled⟩))
    | expression value span => exact .inl (.inr ⟨value, span, spelled⟩)
    | block statements span => exact .inr ⟨statements, span, spelled⟩
  · rintro (((⟨decl, spelled⟩ | ⟨_, _, spelled⟩) | ⟨_, _, spelled⟩) | ⟨_, _, spelled⟩)
    · exact ⟨.letDecl decl, .letDecl spelled⟩
    · exact ⟨_, spelled⟩
    · exact ⟨_, spelled⟩
    · exact ⟨_, spelled⟩

theorem constructs_block : block.constructs = block.production.sentences single constructs := by
  have items_eq : blockItem.constructs∗ = spelledBy (InSequence False (Stmt.Spelled False)) :=
    spelledBy_inSequence.symm
  simp only [production, Ebnf.sentences_mul, Ebnf.sentences_mark, Ebnf.sentences_star,
    Ebnf.sentences_rule, items_eq]
  ext tokens
  constructor
  · rintro ⟨_, _, spelled⟩
    cases spelled with
    | @block opening close tokens pieces spliced all =>
        exact ⟨_, ⟨_, ⟨opening, rfl⟩, _, ⟨_, pieces, rfl, spliced, all⟩, rfl⟩, _, ⟨close, rfl⟩, rfl⟩
  · rintro ⟨_, ⟨_, ⟨opening, rfl⟩, _, ⟨_, pieces, rfl, spliced, all⟩, rfl⟩, _, ⟨close, rfl⟩, rfl⟩
    exact ⟨_, _, @Stmt.Spelled.block _ opening close _ _ spliced all⟩

theorem constructs_funDecl :
    funDecl.constructs = funDecl.production.sentences single constructs := by
  have parameters_eq : 1 + parameters.constructs = spelledBy (InList Parameter.Spelled) :=
    spelledBy_inList.symm
  have items_eq : blockItem.constructs∗ = spelledBy (InSequence False (Stmt.Spelled False)) :=
    spelledBy_inSequence.symm
  simp only [production, Ebnf.sentences_mul, Ebnf.sentences_mark, Ebnf.sentences_word,
    Ebnf.sentences_token, Ebnf.sentences_optional, Ebnf.sentences_rule, Ebnf.sentences_star,
    parameters_eq, constructs_block, items_eq]
  ext tokens
  constructor
  · rintro ⟨_, @⟨keyword, leftParen, rightParen, opening, close, name, _, _, _, _, _, _, parameters,
      type, body⟩⟩
    exact ⟨_, ⟨_, ⟨_, ⟨_, ⟨_, ⟨_, ⟨keyword, rfl⟩, _, ⟨name, rfl⟩, rfl⟩, _, ⟨leftParen, rfl⟩, rfl⟩,
      _, ⟨_, parameters⟩, rfl⟩, _, ⟨rightParen, rfl⟩, rfl⟩, _, ⟨_, type⟩, rfl⟩, _,
      ⟨_, ⟨_, ⟨opening, rfl⟩, _, ⟨_, body⟩, rfl⟩, _, ⟨close, rfl⟩, rfl⟩, by simp⟩
  · rintro ⟨_, ⟨_, ⟨_, ⟨_, ⟨_, ⟨_, ⟨keyword, rfl⟩, _, ⟨name, rfl⟩, rfl⟩, _, ⟨leftParen, rfl⟩, rfl⟩,
      _, ⟨_, parameters⟩, rfl⟩, _, ⟨rightParen, rfl⟩, rfl⟩, _, ⟨_, type⟩, rfl⟩, _,
      ⟨_, ⟨_, ⟨opening, rfl⟩, _, ⟨_, body⟩, rfl⟩, _, ⟨close, rfl⟩, rfl⟩, rfl⟩
    have spelled := @Decl.Spelled.funDecl False keyword leftParen rightParen opening close name
      _ _ _ _ _ _ parameters type body
    exact ⟨_, by simpa using spelled⟩

/-- An operand and further ones behind operators of a level make an expression of that level. -/
theorem chain_le (level : Nat) {kinds : List TokenKind}
    (ofLevel : ∀ kind ∈ kinds, ∃ op ∈ BinaryOp.all, op.level = level ∧ kind = .punct op.mark) :
    spelledBy (Expr.Spelled (level + 1)) *
        ((Ebnf.oneOf kinds).sentences single constructs * spelledBy (Expr.Spelled (level + 1)))∗ ≤
      spelledBy (Expr.Spelled level) := by
  apply mul_kstar_le
  · rintro _ ⟨value, spelled⟩
    exact ⟨value, spelled.loosen (Nat.le_succ level)⟩
  · rintro _ ⟨front, ⟨left, leftSpelled⟩, _, ⟨_, isOperator, back, ⟨right, rightSpelled⟩, rfl⟩, rfl⟩
    rcases Ebnf.mem_sentences_oneOf.mp isOperator with ⟨_, isKind, isSingle⟩
    rcases ofLevel _ isKind with ⟨op, _, rfl, rfl⟩
    rcases isSingle with ⟨span, rfl⟩
    exact ⟨_, .binary (Nat.le_refl _) leftSpelled rightSpelled⟩

theorem unary_le : unary.production.sentences single constructs ≤ unary.constructs := by
  rintro _ (⟨_, isOperator, back, ⟨value, operand⟩, rfl⟩ | ⟨callee, spelled⟩)
  · have negates (span : Span) : ⟨.punct .minus, span⟩ :: back ∈ unary.constructs :=
      ⟨_, @Expr.Spelled.unary 4 .negate _ _ _ (Nat.le_refl 4) operand⟩
    have complements (span : Span) : ⟨.punct .bang, span⟩ :: back ∈ unary.constructs :=
      ⟨_, @Expr.Spelled.unary 4 .complement _ _ _ (Nat.le_refl 4) operand⟩
    rcases isOperator with ⟨span, rfl⟩ | ⟨span, rfl⟩ | ⟨⟨⟩⟩
    · exact complements span
    · exact negates span
  · exact ⟨callee, spelled.loosen (Nat.le_succ 4)⟩

theorem call_le : call.production.sentences single constructs ≤ call.constructs := by
  have arguments_eq : 1 + arguments.constructs = spelledBy (InList (Expr.Spelled 0)) :=
    spelledBy_inList.symm
  simp only [production, Ebnf.sentences_mul, Ebnf.sentences_star, Ebnf.sentences_mark,
    Ebnf.sentences_optional, Ebnf.sentences_rule, arguments_eq]
  apply mul_kstar_le
  · rintro _ ⟨value, spelled⟩
    exact ⟨value, spelled.loosen (Nat.le_succ 5)⟩
  · rintro _ ⟨_, ⟨callee, calleeSpelled⟩, _, ⟨_, ⟨_, ⟨opening, rfl⟩, _,
      ⟨_, pieces, rfl, separated, all⟩, rfl⟩, _, ⟨close, rfl⟩, rfl⟩, rfl⟩
    exact ⟨_, by simpa using Expr.Spelled.call (Nat.le_refl 5) calleeSpelled separated all⟩

theorem primary_le : primary.production.sentences single constructs ≤ primary.constructs := by
  rintro _ ((⟨value, span, rfl⟩ | ⟨value, span, rfl⟩ | ⟨key, span, rfl⟩ | ⟨value, span, rfl⟩ |
    ⟨name, rfl⟩ | ⟨⟨⟩⟩) | ⟨_, ⟨_, ⟨opening, rfl⟩, _, ⟨_, inner⟩, rfl⟩, _, ⟨close, rfl⟩, rfl⟩)
  · exact ⟨_, @Expr.Spelled.literal 6 (.integer value) span⟩
  · exact ⟨_, @Expr.Spelled.literal 6 (.decimal value) span⟩
  · exact ⟨_, @Expr.Spelled.literal 6 (.string key) span⟩
  · exact ⟨_, @Expr.Spelled.literal 6 (.boolean value) span⟩
  · exact ⟨_, .identifier⟩
  · exact ⟨_, @Expr.Spelled.grouping 6 opening close _ _ inner⟩

theorem constructs_closed (name : Nonterminal) :
    name.production.sentences single constructs ≤ name.constructs := by
  cases name with
  | program => exact constructs_program.ge
  | declaration => exact constructs_declaration.ge
  | funDecl => exact constructs_funDecl.ge
  | parameters => exact constructs_parameters.ge
  | type => exact constructs_type.ge
  | letDecl => exact constructs_letDecl.ge
  | block => exact constructs_block.ge
  | blockItem => exact constructs_blockItem.ge
  | returnStatement => exact constructs_returnStatement.ge
  | expressionStatement => exact constructs_expressionStatement.ge
  | expression => exact le_rfl
  | equality => exact chain_le 0 (by decide)
  | comparison => exact chain_le 1 (by decide)
  | term => exact chain_le 2 (by decide)
  | factor => exact chain_le 3 (by decide)
  | unary => exact unary_le
  | call => exact call_le
  | arguments => exact listedBy_eq.ge
  | primary => exact primary_le

/-- The name of the expressions of a level. -/
def ofLevel : Nat → Nonterminal
  | 0 => equality
  | 1 => comparison
  | 2 => term
  | 3 => factor
  | 4 => unary
  | 5 => call
  | _ => primary

section Chains

variable {name : Nonterminal} {operand step : Ebnf}

theorem operand_le_texts (production_eq : name.production = operand * step.star) :
    operand.sentences single texts ≤ name.texts := by
  rw [texts_eq, production_eq]
  exact le_mul_of_one_le_right' one_le_kstar

theorem texts_mul_step_le (production_eq : name.production = operand * step.star) :
    name.texts * step.sentences single texts ≤ name.texts := by
  rw [texts_eq, production_eq, Ebnf.sentences_mul, mul_assoc]
  exact mul_le_mul_right kstar_mul_le_kstar _

/-- The expressions of a binary level are a chain of tighter ones between its operators. -/
theorem production_ofLevel : {level : Nat} → level < 4 → ∃ kinds,
    (ofLevel level).production =
      Ebnf.rule (ofLevel (level + 1)) * (Ebnf.oneOf kinds * Ebnf.rule (ofLevel (level + 1))).star ∧
    ∀ op : BinaryOp, op.level = level → .punct op.mark ∈ kinds
  | 0, _ => ⟨_, rfl, by decide⟩
  | 1, _ => ⟨_, rfl, by decide⟩
  | 2, _ => ⟨_, rfl, by decide⟩
  | 3, _ => ⟨_, rfl, by decide⟩

theorem production_call :
    call.production = Ebnf.rule primary *
      (Ebnf.mark .leftParen * Ebnf.optional (Ebnf.rule arguments) * Ebnf.mark .rightParen).star :=
  rfl

theorem texts_ofLevel_succ_le (level : Nat) :
    (ofLevel (level + 1)).texts ≤ (ofLevel level).texts := by
  by_cases binary : level < 4
  · rcases production_ofLevel binary with ⟨kinds, production_eq, _⟩
    exact operand_le_texts production_eq
  · match level with
    | 4 => exact le_add_self.trans (texts_eq unary).ge
    | 5 => exact operand_le_texts production_call
    | level + 6 => exact le_rfl

theorem texts_ofLevel_antitone : Antitone fun level => (ofLevel level).texts :=
  antitone_nat_of_succ_le texts_ofLevel_succ_le

theorem primary_le_ofLevel (level : Nat) : primary.texts ≤ (ofLevel level).texts := by
  rcases Nat.le_total level 6 with loose | tight
  · exact texts_ofLevel_antitone loose
  · obtain ⟨further, rfl⟩ := Nat.exists_eq_add_of_le' tight
    exact le_rfl

end Chains

theorem texts_expression : expression.texts = equality.texts :=
  texts_eq expression

/-- Pieces of a language between commas are in the language of such lists. -/
theorem mem_of_separated {accepted : Language Token} {tokens : List Token} {Item : Type}
    {pieces : List (List Token × Item)} (separated : Separated tokens (pieces.map Prod.fst))
    (all : ∀ piece ∈ pieces, piece.1 ∈ accepted) :
    tokens ∈ 1 + accepted * (single (.punct .comma) * accepted)∗ := by
  let pieceOf : Language Token := spelledBy fun tokens (_ : Item) => tokens ∈ accepted
  have within : pieceOf ≤ accepted := by
    rintro tokens ⟨_, mem⟩
    exact mem
  have list : tokens ∈ spelledBy (InList fun tokens (_ : Item) => tokens ∈ accepted) :=
    ⟨_, pieces, rfl, separated, all⟩
  rw [spelledBy_inList, listedBy_eq] at list
  have le : 1 + pieceOf * (single (.punct .comma) * pieceOf)∗ ≤
      1 + accepted * (single (.punct .comma) * accepted)∗ := by
    gcongr
  exact le list

/-- Whatever spells an expression of a level is a sentence of that level. -/
theorem texts_of_spelled {level : Nat} {tokens : List Token} {value : Expr}
    (spelled : Expr.Spelled level tokens value) : tokens ∈ (ofLevel level).texts := by
  induction spelled with
  | @binary level op mark _ _ _ _ level_le _ _ left right =>
      apply texts_ofLevel_antitone level_le
      rcases production_ofLevel op.level_lt with ⟨kinds, production_eq, finds⟩
      have operator : [⟨.punct op.mark, mark⟩] ∈ (Ebnf.oneOf kinds).sentences single texts :=
        Ebnf.mem_sentences_oneOf.mpr ⟨_, finds op rfl, mark, rfl⟩
      exact append_mem_of_le (texts_mul_step_le production_eq) left
        (Language.append_mem_mul operator right)
  | @unary level op mark tokens _ level_le _ operand =>
      apply texts_ofLevel_antitone level_le
      change _ ∈ unary.texts
      rw [texts_eq]
      have operator : [⟨.punct op.mark, mark⟩] ∈
          (Ebnf.oneOf [.punct .bang, .punct .minus]).sentences single texts :=
        Ebnf.mem_sentences_oneOf.mpr ⟨.punct op.mark, by cases op <;> decide, mark, rfl⟩
      exact .inl (Language.append_mem_mul operator operand)
  | @call level opening close _ tokens callee arguments level_le _ separated _ calleeMem all =>
      apply texts_ofLevel_antitone level_le
      have inside : tokens ∈ 1 + Nonterminal.arguments.texts := by
        rw [texts_eq Nonterminal.arguments]
        exact mem_of_separated separated fun piece member => texts_expression.ge (all piece member)
      rw [List.append_assoc, List.cons_append]
      exact append_mem_of_le (texts_mul_step_le production_call) calleeMem
        ⟨_, ⟨_, ⟨opening, rfl⟩, _, inside, rfl⟩, _, ⟨close, rfl⟩, rfl⟩
  | @grouping level opening close tokens _ _ inner =>
      apply primary_le_ofLevel level
      rw [texts_eq]
      exact .inr ⟨_, ⟨_, ⟨opening, rfl⟩, _, texts_expression.ge inner, rfl⟩, _, ⟨close, rfl⟩, rfl⟩
  | @literal level value span =>
      apply primary_le_ofLevel level
      rw [texts_eq]
      refine .inl (Ebnf.mem_sentences_oneOf.mpr ⟨value.lexeme.kind, ?_,
        mem_single ⟨value.lexeme, span⟩⟩)
      cases value <;> simp [Literal.lexeme, Lexeme.kind]
  | @identifier level name =>
      apply primary_le_ofLevel level
      rw [texts_eq]
      exact .inl (Ebnf.mem_sentences_oneOf.mpr ⟨.identifier, by simp, name, rfl⟩)

theorem expression_le : expression.constructs ≤ expression.texts := by
  rintro tokens ⟨value, spelled⟩
  exact texts_expression.ge (texts_of_spelled spelled)

theorem type_le : type.constructs ≤ type.texts := by
  rw [constructs_type, texts_eq]
  exact le_rfl

theorem letDecl_le : letDecl.constructs ≤ letDecl.texts := by
  have typeLe := type_le
  have expressionLe := expression_le
  rw [constructs_letDecl, texts_eq]
  simp only [production, Ebnf.sentences_mul, Ebnf.sentences_optional, Ebnf.sentences_rule,
    Ebnf.sentences_word, Ebnf.sentences_token, Ebnf.sentences_mark]
  gcongr

theorem returnStatement_le : returnStatement.constructs ≤ returnStatement.texts := by
  have expressionLe := expression_le
  rw [constructs_returnStatement, texts_eq]
  simp only [production, Ebnf.sentences_mul, Ebnf.sentences_optional, Ebnf.sentences_rule,
    Ebnf.sentences_word, Ebnf.sentences_mark]
  gcongr

theorem expressionStatement_le : expressionStatement.constructs ≤ expressionStatement.texts := by
  have expressionLe := expression_le
  rw [constructs_expressionStatement, texts_eq]
  simp only [production, Ebnf.sentences_mul, Ebnf.sentences_rule, Ebnf.sentences_mark]
  gcongr

/-- Pieces of a language one behind the other are in the language of such sequences. -/
theorem mem_of_spliced {accepted : Language Token} {tokens : List Token} {Item : Type}
    {pieces : List (List Token × Item)} (spliced : Spliced False tokens (pieces.map Prod.fst))
    (all : ∀ piece ∈ pieces, piece.1 ∈ accepted) : tokens ∈ accepted∗ := by
  have within : (spelledBy fun tokens (_ : Item) => tokens ∈ accepted) ≤ accepted := by
    rintro tokens ⟨_, mem⟩
    exact mem
  have sequence :
      tokens ∈ spelledBy (InSequence False fun tokens (_ : Item) => tokens ∈ accepted) :=
    ⟨_, pieces, rfl, spliced, all⟩
  rw [spelledBy_inSequence] at sequence
  exact kstar_mono within sequence

/-- Whatever spells a statement is a sentence of the items of a block. -/
theorem blockItem_le : blockItem.constructs ≤ blockItem.texts := by
  rw [texts_eq blockItem]
  rintro tokens ⟨statement, spelled⟩
  induction spelled with
  | expression value =>
      exact .inl (.inr (expressionStatement_le ⟨_, _, .expression value⟩))
  | letDecl decl => exact .inl (.inl (.inl (letDecl_le ⟨_, decl⟩)))
  | returning value => exact .inl (.inl (.inr (returnStatement_le ⟨_, _, .returning value⟩)))
  | @block opening close tokens pieces spliced _ all =>
      -- Only a block holds items of its own, so only here the hypothesis on them is needed.
      refine .inr ((texts_eq block).ge ?_)
      have items := mem_of_spliced spliced all
      rw [← texts_eq blockItem] at items
      exact ⟨_, ⟨_, ⟨opening, rfl⟩, _, items, rfl⟩, _, ⟨close, rfl⟩, rfl⟩

theorem block_le : block.constructs ≤ block.texts := by
  have blockItemLe := blockItem_le
  rw [constructs_block, texts_eq]
  simp only [production, Ebnf.sentences_mul, Ebnf.sentences_star, Ebnf.sentences_rule,
    Ebnf.sentences_mark]
  gcongr

theorem parameters_le : parameters.constructs ≤ parameters.texts := by
  have typeLe := type_le
  rw [constructs_parameters, texts_eq]
  simp only [production, Ebnf.sentences_separated, Ebnf.sentences_mul, Ebnf.sentences_rule,
    Ebnf.sentences_token, Ebnf.sentences_mark]
  gcongr

theorem funDecl_le : funDecl.constructs ≤ funDecl.texts := by
  have typeLe := type_le
  have parametersLe := parameters_le
  have blockLe := block_le
  rw [constructs_funDecl, texts_eq]
  simp only [production, Ebnf.sentences_mul, Ebnf.sentences_optional, Ebnf.sentences_rule,
    Ebnf.sentences_word, Ebnf.sentences_token, Ebnf.sentences_mark]
  gcongr

theorem declaration_le : declaration.constructs ≤ declaration.texts := by
  rw [constructs_declaration, texts_eq]
  exact add_le_add letDecl_le funDecl_le

theorem program_le : program.constructs ≤ program.texts := by
  rw [constructs_program, texts_eq]
  exact kstar_mono declaration_le

theorem arguments_le : arguments.constructs ≤ arguments.texts := by
  have expressionLe : spelledBy (Expr.Spelled 0) ≤ expression.texts := expression_le
  rw [constructs, listedBy_eq, texts_eq]
  simp only [production, Ebnf.sentences_separated, Ebnf.sentences_rule, Ebnf.sentences_mark]
  gcongr

theorem ofLevel_le (level : Nat) : spelledBy (Expr.Spelled level) ≤ (ofLevel level).texts := by
  rintro tokens ⟨value, spelled⟩
  exact texts_of_spelled spelled

theorem constructs_le (name : Nonterminal) : name.constructs ≤ name.texts := by
  cases name with
  | program => exact program_le
  | declaration => exact declaration_le
  | funDecl => exact funDecl_le
  | parameters => exact parameters_le
  | type => exact type_le
  | letDecl => exact letDecl_le
  | block => exact block_le
  | blockItem => exact blockItem_le
  | returnStatement => exact returnStatement_le
  | expressionStatement => exact expressionStatement_le
  | expression => exact expression_le
  | equality => exact ofLevel_le 0
  | comparison => exact ofLevel_le 1
  | term => exact ofLevel_le 2
  | factor => exact ofLevel_le 3
  | unary => exact ofLevel_le 4
  | call => exact ofLevel_le 5
  | arguments => exact arguments_le
  | primary => exact ofLevel_le 6

/-- Some tokens spell what a name stands for exactly if their kinds are a sentence of that name. -/
theorem map_kind_mem_language_iff (name : Nonterminal) (tokens : List Token) :
    tokens.map Token.kind ∈ name.language ↔ tokens ∈ name.constructs := by
  constructor
  · intro sentence
    exact texts_le constructs_closed name sentence
  · intro spelled
    exact constructs_le name spelled

end Nonterminal

/-- The parser reports no error exactly where the kinds of the tokens are a sentence. -/
theorem Parsed.errors_eq_nil_iff_sentence (source : SourceId) (tokens : List Token) :
    (ofTokens source tokens).errors = [] ↔
      tokens.map Token.kind ∈ Nonterminal.program.language := by
  rw [errors_eq_nil_iff_spelled, Nonterminal.map_kind_mem_language_iff]
  rfl

end TypedLang
