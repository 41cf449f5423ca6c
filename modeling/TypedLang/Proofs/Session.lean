import Mathlib.Logic.Relation
import TypedLang.Proofs.Outcome
import TypedLang.Proofs.Token.Munch

/-!
# Sessions

One registry and one interner may serve many runs. Whoever shares them adds sources, interns texts,
reads tokens one by one or all at once, and compiles sources, in any order. None of this takes
anything back: a source keeps its number, and a key keeps its text.
-/

namespace TypedLang

theorem Lexer.texts_nextOf (lexer : Lexer) (items : List Item) :
    lexer.interner.texts <+: (lexer.nextOf items).2.interner.texts := by
  induction items generalizing lexer with
  | nil => exact List.prefix_refl _
  | cons item items ih =>
      rw [nextOf]
      split
      · rename_i lexeme _
        exact lexeme.texts_intern lexer.interner
      · rename_i misspelling _
        exact ih { lexer with errors := lexer.errors ++
          [LexicalError.ofMisspelling lexer.source item.span misspelling] }

/-- Only a registered source can be compiled. -/
theorem exists_source_of_compile {registry : Registry} {id : SourceId} {interner final : Interner}
    {output : Output} (compiled : compile registry id interner = .ok (output, final)) :
    ∃ source, registry.get id = .ok source := by
  rcases exists_of_bind_eq_ok compiled with ⟨lexer, started, _⟩
  rcases exists_of_bind_eq_ok started with ⟨source, found, _⟩
  exact ⟨source, found⟩

/-- A run only adds to the interner. -/
theorem texts_compile {registry : Registry} {id : SourceId} {interner final : Interner}
    {output : Output} (compiled : compile registry id interner = .ok (output, final)) :
    interner.texts <+: final.texts := by
  rcases exists_source_of_compile compiled with ⟨source, found⟩
  rw [(Output.endsRun_of_compile found compiled).tells.2]
  exact (Lexer.ofText id source.text interner).texts_tokensOf (Item.list source.text)

/-- A registry and an interner that are shared by several runs. -/
structure Session where
  registry : Registry := .empty
  interner : Interner := .empty

namespace Session

/-- The session in which nothing was done. -/
def empty : Session := {}

/-- One thing that is done in a session. A lexer that shares its interner may be anywhere. -/
inductive Step : Session → Session → Prop where
  | add (session : Session) (name text : Bytes) :
      Step session ⟨(session.registry.add name text).2, session.interner⟩
  | intern (session : Session) (text : Bytes) :
      Step session ⟨session.registry, (session.interner.intern text).2⟩
  | next (session : Session) (lexer : Lexer) : lexer.interner = session.interner →
      Step session ⟨session.registry, lexer.next.2.interner⟩
  | tokenize (session : Session) (lexer : Lexer) : lexer.interner = session.interner →
      Step session ⟨session.registry, lexer.tokenize.2.interner⟩
  | compile (session : Session) (id : SourceId) {output : Output} {final : Interner} :
      compile session.registry id session.interner = .ok (output, final) →
      Step session ⟨session.registry, final⟩

/-- Any number of things done one after the other. -/
def Reaches : Session → Session → Prop :=
  Relation.ReflTransGen Step

/-- Nothing of the earlier session was taken back. -/
structure Extends (earlier later : Session) : Prop where
  sources : earlier.registry.sources <+: later.registry.sources
  texts : earlier.interner.texts <+: later.interner.texts

namespace Extends

variable {earlier middle later : Session}

theorem refl (session : Session) : session.Extends session :=
  ⟨List.prefix_refl _, List.prefix_refl _⟩

theorem trans (first : earlier.Extends middle) (second : middle.Extends later) :
    earlier.Extends later :=
  ⟨first.sources.trans second.sources, first.texts.trans second.texts⟩

/-- A source keeps its number. -/
theorem get (extended : earlier.Extends later) {id : SourceId} {source : Source}
    (found : earlier.registry.get id = .ok source) : later.registry.get id = .ok source := by
  rcases extended.sources with ⟨more, sources_eq⟩
  rw [Registry.get] at found ⊢
  split at found
  · rename_i source_eq
    cases found
    rw [← sources_eq, List.getElem?_append_left (List.getElem?_eq_some_iff.mp source_eq).1,
      source_eq]
  · cases found

/-- A key keeps its text. -/
theorem resolve (extended : earlier.Extends later) {key : Key} {text : Bytes}
    (resolved : earlier.interner.resolve key = .ok text) :
    later.interner.resolve key = .ok text :=
  Interner.resolve_of_extends extended.texts resolved

end Extends

theorem Step.extends {earlier later : Session} (step : Step earlier later) :
    earlier.Extends later := by
  cases step with
  | add name text => exact ⟨List.prefix_append _ _, List.prefix_refl _⟩
  | intern text => exact ⟨List.prefix_refl _, earlier.interner.texts_intern text⟩
  | next lexer shared =>
      refine ⟨List.prefix_refl _, ?_⟩
      rw [← shared]
      exact lexer.texts_nextOf lexer.pending
  | tokenize lexer shared =>
      refine ⟨List.prefix_refl _, ?_⟩
      rw [← shared]
      exact lexer.texts_tokensOf lexer.pending
  | compile id compiled => exact ⟨List.prefix_refl _, texts_compile compiled⟩

theorem Reaches.extends {earlier later : Session} (history : earlier.Reaches later) :
    earlier.Extends later := by
  induction history with
  | refl => exact .refl _
  | tail _ step ih => exact ih.trans step.extends

end Session

end TypedLang
