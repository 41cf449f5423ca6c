import Mathlib.Data.List.Chain
import TypedLang.Proofs.Parsing.Braces
import TypedLang.Proofs.Parsing.Completeness
import TypedLang.Proofs.Parsing.Progress

/-!
# Junk between declarations

A stretch of tokens in which no declaration starts costs one error, and nothing around it is lost.
The recovery from it ends behind its semicolon or its braces. A stretch that has neither is open:
the recovery goes on to the next word that starts a declaration, or to the end of the input.
-/

namespace TypedLang

/-- The kinds with which a declaration starts. -/
def TokenKind.StartsDeclaration (kind : TokenKind) : Prop :=
  kind ∈ [.keyword .funWord, .keyword .letWord]

/-- The kinds at which a recovery among declarations may stop or start to count braces. -/
def TokenKind.IsLandmark (kind : TokenKind) : Prop :=
  kind ∈ [.keyword .funWord, .keyword .letWord, .keyword .structWord, .punct .semicolon,
    .punct .leftBrace]

instance (kind : TokenKind) : Decidable kind.IsLandmark :=
  inferInstanceAs (Decidable (_ ∈ _))

/-- Tokens without a landmark up to a semicolon, or up to braces around balanced tokens. -/
inductive ClosedJunk : List Token → Prop where
  | semicolon {span : Span} : ClosedJunk [⟨.punct .semicolon, span⟩]
  | braces {opening close : Span} {inner : List Token} :
      Balanced inner →
      ClosedJunk (⟨.punct .leftBrace, opening⟩ :: inner ++ [⟨.punct .rightBrace, close⟩])
  | token {token : Token} {rest : List Token} :
      ¬ token.kind.IsLandmark → ClosedJunk rest → ClosedJunk (token :: rest)

/--
A piece of a program: a declaration, or junk. Junk is open if no landmark ends it; the first of its
tokens is set apart, since that is the one to blame.
-/
inductive Segment where
  | declaration (tokens : List Token) (decl : Decl) (spelled : Decl.Spelled False tokens decl)
  | openJunk (first : Token) (others : List Token)
      (noLandmark : ∀ token ∈ first :: others, ¬ token.kind.IsLandmark)
  | closedJunk (first : Token) (others : List Token) (closed : ClosedJunk (first :: others))

namespace Segment

/-- The tokens of a segment. -/
def tokens : Segment → List Token
  | declaration tokens _ _ => tokens
  | openJunk first others _ => first :: others
  | closedJunk first others _ => first :: others

/-- The tree of a segment that is a declaration. -/
def decl? : Segment → Option Decl
  | declaration _ decl _ => some decl
  | openJunk _ _ _ => none
  | closedJunk _ _ _ => none

/-- The first token of a segment that is junk. -/
def blamed? : Segment → Option Token
  | declaration _ _ _ => none
  | openJunk first _ _ => some first
  | closedJunk first _ _ => some first

/-- A segment is a declaration. -/
def IsDeclaration (segment : Segment) : Prop :=
  segment.decl?.isSome

/-- A segment is junk that no landmark ends. -/
def IsOpen : Segment → Prop
  | openJunk _ _ _ => True
  | _ => False

end Segment

/-- The error at a token where a declaration should start. -/
def ParseError.noDeclaration (source : SourceId) (token : Token) : ParseError :=
  ⟨source, .unexpectedToken (some token.span) (some token.kind)
    [.keyword .funWord, .keyword .letWord]⟩

namespace Recovery

/-- Outside all braces, a token that is no landmark is skipped. -/
theorem inProgram_of_not_landmark {token : Token} (noLandmark : ¬ token.kind.IsLandmark)
    (progressed : Bool) (rest : List Token) :
    inProgram progressed 0 (token :: rest) = inProgram true 0 rest := by
  simp only [TokenKind.IsLandmark, List.mem_cons, List.not_mem_nil, or_false, not_or] at noLandmark
  simp [inProgram_cons, noLandmark]

/-- A recovery goes through open junk. -/
theorem inProgram_of_open {tokens : List Token}
    (noLandmark : ∀ token ∈ tokens, ¬ token.kind.IsLandmark) (rest : List Token) :
    inProgram true 0 (tokens ++ rest) = inProgram true 0 rest := by
  induction tokens with
  | nil => rfl
  | cons token tokens ih =>
      rw [List.forall_mem_cons] at noLandmark
      rw [List.cons_append, inProgram_of_not_landmark noLandmark.1, ih noLandmark.2]

/-- A recovery ends behind closed junk. -/
theorem inProgram_of_closed {tokens : List Token} (closed : ClosedJunk tokens) (progressed : Bool)
    (rest : List Token) : inProgram progressed 0 (tokens ++ rest) = rest := by
  induction closed generalizing progressed with
  | semicolon => rfl
  | @braces opening close inner balanced =>
      rw [List.append_assoc, List.cons_append, List.singleton_append, inProgram]
      exact inProgram_balanced balanced true 0 close rest
  | token noLandmark _ ih =>
      rw [List.cons_append, inProgram_of_not_landmark noLandmark, ih]

/-- A recovery that made progress stops in front of a declaration. -/
theorem inProgram_of_declaration {tokens : List Token} {decl : Decl}
    (spelled : Decl.Spelled False tokens decl) (rest : List Token) :
    inProgram true 0 (tokens ++ rest) = tokens ++ rest := by
  cases decl with
  | funDecl decl =>
      rcases spelled.starts_fun with ⟨keyword, others, rfl⟩
      rfl
  | letDecl decl =>
      cases spelled with
      | letDecl spelled =>
          rcases spelled.starts with ⟨keyword, others, rfl⟩
          rfl

end Recovery

/-- A recovery that made progress stops in front of segments of which the first is a declaration. -/
theorem Segment.inProgram_of_declaration {segments : List Segment}
    (starts : ∀ first ∈ segments.head?, first.IsDeclaration) :
    Recovery.inProgram true 0 (segments.flatMap tokens) = segments.flatMap tokens := by
  cases segments with
  | nil => rfl
  | cons first segments =>
      have isDeclaration := starts first rfl
      cases first with
      | declaration tokens decl spelled => exact Recovery.inProgram_of_declaration spelled _
      | openJunk => cases isDeclaration
      | closedJunk => cases isDeclaration

theorem TokenKind.not_startsDeclaration {kind : TokenKind} (noLandmark : ¬ kind.IsLandmark) :
    ¬ kind.StartsDeclaration := by
  simp only [StartsDeclaration, IsLandmark, List.mem_cons, List.not_mem_nil] at noLandmark ⊢
  tauto

/-- No declaration starts with the first token of closed junk. -/
theorem ClosedJunk.not_startsDeclaration {first : Token} {others : List Token}
    (closed : ClosedJunk (first :: others)) : ¬ first.kind.StartsDeclaration := by
  generalize tokens_eq : first :: others = tokens at closed
  cases closed with
  | token noLandmark =>
      cases tokens_eq
      exact TokenKind.not_startsDeclaration noLandmark
  | _ =>
      cases tokens_eq
      simp [TokenKind.StartsDeclaration, Token.kind, Lexeme.kind]

/-- Where no declaration starts, the first token is to blame. -/
theorem Rule.declaration_of_not_starts {first : Token} (others : List Token)
    (startsNothing : ¬ first.kind.StartsDeclaration) :
    declaration (first :: others) =
      .ofResult (reject [.keyword .funWord, .keyword .letWord] (first :: others)) := by
  unfold declaration
  split
  case h_3 => rfl
  all_goals
    rename_i tokens_eq
    cases tokens_eq
    simp [TokenKind.StartsDeclaration, Token.kind, Lexeme.kind] at startsNothing

namespace Parsed

/-- Junk in front of a program costs the error at its first token; then the recovery sets in. -/
theorem ofTokens_of_junk (source : SourceId) {first : Token} (others : List Token)
    (startsNothing : ¬ first.kind.StartsDeclaration) :
    let rest := Recovery.inProgram false 0 (first :: others)
    (ofTokens source (first :: others)).program.declarations =
        (ofTokens source rest).program.declarations ∧
      (ofTokens source (first :: others)).errors =
        ParseError.noDeclaration source first :: (ofTokens source rest).errors := by
  have attempt_eq := Rule.declaration_of_not_starts others startsNothing
  have failed := congrArg Attempt.result attempt_eq
  have step := ofTokens_of_failed source failed (List.cons_ne_nil first others)
  simpa [attempt_eq, Failure.recovery, Attempt.ofResult, Failure.error, ParseError.noDeclaration]
    using step

/--
The parser gives the declarations among some segments, all of them and in order, and reports the
first token of each junk segment. Only open junk must not stand in front of other junk.
-/
theorem ofTokens_of_segments (source : SourceId) {segments : List Segment}
    (apart : segments.IsChain fun segment next => segment.IsOpen → next.IsDeclaration) :
    (ofTokens source (segments.flatMap Segment.tokens)).program.declarations =
        segments.filterMap Segment.decl? ∧
      (ofTokens source (segments.flatMap Segment.tokens)).errors =
        (segments.filterMap Segment.blamed?).map (ParseError.noDeclaration source) := by
  induction segments with
  | nil => exact ⟨rfl, rfl⟩
  | cons segment segments ih =>
      rcases ih apart.tail with ⟨declarations_eq, errors_eq⟩
      rw [List.flatMap_cons]
      cases segment with
      | declaration tokens decl spelled =>
          have attempt_eq := Rule.declaration_takes spelled (segments.flatMap Segment.tokens)
          have step := ofTokens_of_declared source (congrArg Attempt.result attempt_eq)
          rw [attempt_eq, declarations_eq, errors_eq] at step
          exact step
      | openJunk first others noLandmark =>
          rw [List.forall_mem_cons] at noLandmark
          have step := ofTokens_of_junk source (others ++ segments.flatMap Segment.tokens)
            (TokenKind.not_startsDeclaration noLandmark.1)
          rw [Recovery.inProgram_of_not_landmark noLandmark.1,
            Recovery.inProgram_of_open noLandmark.2, Segment.inProgram_of_declaration ?_] at step
          · simp only [declarations_eq, errors_eq] at step
            exact step
          · exact fun next member => (List.isChain_cons.mp apart).1 next member trivial
      | closedJunk first others closed =>
          have step := ofTokens_of_junk source (others ++ segments.flatMap Segment.tokens)
            closed.not_startsDeclaration
          rw [← List.cons_append, Recovery.inProgram_of_closed closed] at step
          simp only [declarations_eq, errors_eq] at step
          exact step

/-- A variable between a stray brace, a function without a name, and a stray semicolon. -/
theorem ofTokens_of_segments_variable :
    let decl : LetDecl :=
      ⟨⟨0, .single 2⟩, ⟨TypeName.bool.type, (Span.single 3).combine (.single 4)⟩, none, none,
        (Span.single 1).combine (.single 5)⟩
    let variableTokens : List Token :=
      [⟨.keyword .letWord, .single 1⟩, ⟨.identifier 0, .single 2⟩, ⟨.punct .atSign, .single 3⟩,
        ⟨.typeName .bool, .single 4⟩, ⟨.punct .semicolon, .single 5⟩]
    let unnamed : List Token :=
      [⟨.punct .leftBrace, .single 7⟩, ⟨.keyword .funWord, .single 8⟩,
        ⟨.punct .rightBrace, .single 9⟩]
    let segments : List Segment :=
      [.openJunk ⟨.punct .rightBrace, .single 0⟩ [] (by decide),
        .declaration variableTokens (.letDecl decl)
          (.letDecl (@LetDecl.Spelled.intro _ _ ⟨0, .single 2⟩ [_, _] [] _ none .intro .none)),
        .closedJunk ⟨.punct .leftParen, .single 6⟩ unnamed
          (.token (by decide) (@ClosedJunk.braces _ _ [_] (.token (by decide) .nil))),
        .closedJunk ⟨.punct .semicolon, .single 10⟩ [] .semicolon]
    (segments.IsChain fun segment next => segment.IsOpen → next.IsDeclaration) ∧
      (ofTokens 0 (segments.flatMap Segment.tokens)).program.declarations = [.letDecl decl] ∧
      (ofTokens 0 (segments.flatMap Segment.tokens)).errors =
        [.noDeclaration 0 ⟨.punct .rightBrace, .single 0⟩,
          .noDeclaration 0 ⟨.punct .leftParen, .single 6⟩,
          .noDeclaration 0 ⟨.punct .semicolon, .single 10⟩] := by
  intro decl variableTokens unnamed segments
  have apart : segments.IsChain fun segment next => segment.IsOpen → next.IsDeclaration := by
    simp [segments, Segment.IsOpen, Segment.IsDeclaration, Segment.decl?]
  exact ⟨apart, ofTokens_of_segments 0 apart⟩

end Parsed

end TypedLang
