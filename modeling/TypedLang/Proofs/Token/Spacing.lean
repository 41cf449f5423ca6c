import TypedLang.Proofs.Source.Lines
import TypedLang.Proofs.Token.Keys
import TypedLang.Proofs.Token.Reading

/-!
# Spacing

A lexeme ends before a blank, whatever ended it in the text that it comes from. So the lexemes of a
clean text, put down again with any blanks between them, are read as the same lexemes; and what a
lexer makes of a clean text, the places of the tokens apart, is a function of its lexemes.
-/

namespace TypedLang

namespace Bytes

/-- One or more blanks. -/
structure IsSpacing (text : Bytes) : Prop where
  nonempty : text ≠ []
  blank : ∀ byte ∈ text, byte.isBlank

/-- Texts in order, each one behind the first with a separator in front of it. -/
def spaced : (texts separators : List Bytes) → Bytes
  | [], _ => []
  | first :: rest, separators => first ++ (List.zipWith (· ++ ·) separators rest).flatten

end Bytes

namespace Item

variable {items : List Item} {lexemes : List (Lexeme Bytes)}

theorem filterMap_lexeme? (results : items.map Item.result = lexemes.map .ok) :
    items.filterMap lexeme? = lexemes := by
  have picked : items.filterMap lexeme? = (items.map Item.result).filterMap Except.toOption :=
    List.filterMap_map.symm
  rw [picked, results, List.filterMap_map]
  exact List.filterMap_some

theorem filterMap_error? (source : SourceId) (results : items.map Item.result = lexemes.map .ok) :
    items.filterMap (error? source) = [] := by
  refine List.filterMap_eq_nil_iff.mpr fun item member => ?_
  have resultMem : item.result ∈ lexemes.map .ok := results ▸ List.mem_map_of_mem member
  rcases List.mem_map.mp resultMem with ⟨lexeme, _, result_eq⟩
  rw [error?, ← result_eq]

/-- The tokens of items without errors stand where the items do. -/
theorem map_span_tokens (interner : Interner) (results : items.map Item.result = lexemes.map .ok) :
    (items.filterMap (token? interner)).map Token.span = items.map Item.span := by
  rw [List.map_filterMap, ← List.filterMap_eq_map]
  refine List.filterMap_congr fun item member => ?_
  have resultMem : item.result ∈ lexemes.map .ok := results ▸ List.mem_map_of_mem member
  rcases List.mem_map.mp resultMem with ⟨lexeme, _, result_eq⟩
  rw [token?, lexeme?_eq_some_iff.mpr result_eq.symm]
  rfl

/-- The items of a clean text are lexemes, each of which its bytes spell. -/
theorem Reads.exists_spelled {offset : Nat} {text : Bytes} (reads : Reads offset text items)
    (source : Source) (before : Bytes) (split : source.text = before ++ text)
    (offset_eq : before.length = offset) :
    ∃ texts lexemes, items.map (fun item => source.slice item.span) = texts.map some ∧
      List.Forall₂ Lexeme.Spelled texts lexemes ∧ items.map Item.result = lexemes.map .ok := by
  induction reads generalizing before with
  | done => exact ⟨[], [], rfl, .nil, rfl⟩
  | @blank offset byte rest items _ _ ih =>
      refine ih (before ++ [byte]) ?_ ?_
      · rw [split, List.append_assoc, List.singleton_append]
      · rw [List.length_append, offset_eq, List.length_singleton]
  | @lexeme offset taken rest lexeme items munch _ ih =>
      subst offset_eq
      rcases ih (before ++ taken) (by rw [split, List.append_assoc]) List.length_append with
        ⟨texts, lexemes, slices, spelled, results⟩
      refine ⟨taken :: texts, lexeme :: lexemes, ?_, .cons munch.spelled spelled, ?_⟩
      · rw [List.map_cons, List.map_cons, slices, Source.slice_ofLength split]
      · rw [List.map_cons, List.map_cons, results]

end Item

/-- A blank ends every lexeme. -/
theorem Lexeme.Ends.of_isBlank {others : Bytes} (blank : ∀ next ∈ others.head?, next.isBlank)
    (lexeme : Lexeme Bytes) : lexeme.Ends others := by
  have word : ∀ next ∈ others.head?, next.continuesName = false :=
    fun next member => Byte.continuesName_of_isBlank (blank next member)
  cases lexeme with
  | identifier | boolean | keyword | typeName => exact word
  | integer value =>
      intro next member
      have isBlank := blank next member
      refine ⟨Byte.isDigit_of_isBlank isBlank, ?_⟩
      rintro rfl
      cases isBlank
  | decimal value => exact fun next member => Byte.isDigit_of_isBlank (blank next member)
  | string => trivial
  | punct mark =>
      rintro next member _ rfl
      cases blank _ member

namespace Item

theorem Reads.of_blanks {spacing : Bytes} (blank : ∀ byte ∈ spacing, byte.isBlank) {offset : Nat}
    {rest : Bytes} {items : List Item} (others : Reads (offset + spacing.length) rest items) :
    Reads offset (spacing ++ rest) items := by
  induction spacing generalizing offset with
  | nil => exact others
  | cons byte spacing ih =>
      rw [List.forall_mem_cons] at blank
      refine .blank blank.1 (ih blank.2 ?_)
      rw [Nat.add_assoc, Nat.add_comm 1]
      exact others

/-- Behind a lexeme stands a separator, or nothing. -/
theorem head_isBlank_zipWith {texts separators : List Bytes}
    (spacing : ∀ separator ∈ separators, separator.IsSpacing) :
    ∀ next ∈ (List.zipWith (· ++ ·) separators texts).flatten.head?, next.isBlank := by
  rcases separators with _ | ⟨separator, separators⟩
  · simp
  · rcases texts with _ | ⟨text, texts⟩
    · simp
    · have first := spacing separator List.mem_cons_self
      rcases List.exists_cons_of_ne_nil first.nonempty with ⟨byte, blanks, rfl⟩
      rintro next ⟨⟩
      exact first.blank byte List.mem_cons_self

/-- Lexemes with a separator in front of each are read as these lexemes. -/
theorem exists_reads_zipWith {texts : List Bytes} {lexemes : List (Lexeme Bytes)}
    (spelled : List.Forall₂ Lexeme.Spelled texts lexemes) {separators : List Bytes}
    (enough : texts.length ≤ separators.length)
    (spacing : ∀ separator ∈ separators, separator.IsSpacing) (offset : Nat) :
    ∃ items, Reads offset (List.zipWith (· ++ ·) separators texts).flatten items ∧
      items.map Item.result = lexemes.map .ok := by
  induction spelled generalizing separators offset with
  | nil =>
      rw [List.zipWith_nil_right]
      exact ⟨[], .done, rfl⟩
  | @cons text lexeme texts lexemes first _ ih =>
      rcases separators with _ | ⟨separator, separators⟩
      · cases enough
      · rw [List.forall_mem_cons] at spacing
        rcases ih (Nat.le_of_succ_le_succ enough) spacing.2
          (offset + separator.length + text.length) with ⟨items, reads, results⟩
        refine ⟨⟨.ofLength (offset + separator.length) text.length, .ok lexeme⟩ :: items, ?_, ?_⟩
        · have munch : lexeme.Munch text (List.zipWith (· ++ ·) separators texts).flatten :=
            ⟨first, .of_isBlank (head_isBlank_zipWith spacing.2) lexeme⟩
          rw [List.zipWith_cons_cons, List.flatten_cons, List.append_assoc]
          exact .of_blanks spacing.1.blank (.lexeme munch reads)
        · rw [List.map_cons, List.map_cons, results]

/-- Lexemes with separators between them are read as these lexemes. -/
theorem map_result_spaced {texts : List Bytes} {lexemes : List (Lexeme Bytes)}
    (spelled : List.Forall₂ Lexeme.Spelled texts lexemes) {separators : List Bytes}
    (enough : texts.length ≤ separators.length + 1)
    (spacing : ∀ separator ∈ separators, separator.IsSpacing) :
    (list (Bytes.spaced texts separators)).map Item.result = lexemes.map .ok := by
  cases spelled with
  | nil => rfl
  | @cons text lexeme texts lexemes first rest =>
      rcases exists_reads_zipWith rest (Nat.le_of_succ_le_succ enough) spacing (0 + text.length)
        with ⟨items, reads, results⟩
      have munch : lexeme.Munch text (List.zipWith (· ++ ·) separators texts).flatten :=
        ⟨first, .of_isBlank (head_isBlank_zipWith spacing) lexeme⟩
      rw [list, Bytes.spaced, (Reads.lexeme munch reads).listFrom_eq, List.map_cons, results,
        List.map_cons]

end Item

namespace Lexer

/-- What a lexer makes of a clean text depends on its lexemes and on the texts known before. -/
structure Delivers (scanned : List Token × Lexer) (interner : Interner)
    (lexemes : List (Lexeme Bytes)) : Prop where
  errors_eq : scanned.2.errors = []
  interner_eq : scanned.2.interner = interner.learn (lexemes.flatMap Lexeme.texts)
  lexemes_eq : scanned.1.map Token.lexeme = lexemes.map (Lexeme.map scanned.2.interner.keyOf)
  resolved : scanned.1.map (fun token => token.lexeme.resolve scanned.2.interner) =
    lexemes.map .ok

theorem delivers_tokenize (source : SourceId) {text : Bytes} (interner : Interner)
    {lexemes : List (Lexeme Bytes)}
    (results : (Item.list text).map Item.result = lexemes.map .ok) :
    Delivers ((ofText source text interner).tokenize) interner lexemes := by
  have lexemes_eq := Item.filterMap_lexeme? results
  refine ⟨?errors, ?interner, ?lexemes, ?resolved⟩
  case errors => exact (errors_tokensOf _ _).trans (Item.filterMap_error? source results)
  case interner =>
    calc ((ofText source text interner).tokenize).2.interner
        = interner.learn (Item.texts (Item.list text)) := interner_tokensOf _ _
      _ = interner.learn (lexemes.flatMap Lexeme.texts) := by rw [Item.texts, lexemes_eq]
  case lexemes =>
    rw [tokenize, tokensOf_eq, List.map_filterMap, ← lexemes_eq, List.map_filterMap]
    refine List.filterMap_congr fun item _ => ?_
    rw [Item.token?, Option.map_map]
    rfl
  case resolved =>
    rw [← lexemes_eq]
    exact map_resolve_tokensOf _ _

/--
The tokens of a clean text survive another spacing. Each token has a lexeme, the bytes of its span;
put down again with any blanks between them, the lexemes are read without errors as tokens of the
same kinds and values, whatever texts are known before, and with the same keys if they are the ones
that were known at first.
-/
theorem tokenize_spaced (source otherSource : SourceId) (name text : Bytes) (interner : Interner)
    (clean : ((ofText source text interner).tokenize).2.errors = []) :
    let scanned := (ofText source text interner).tokenize
    ∃ texts : List Bytes,
      scanned.1.map (fun token => Source.slice ⟨name, text⟩ token.span) = texts.map some ∧
      ∀ separators : List Bytes, texts.length ≤ separators.length + 1 →
        (∀ separator ∈ separators, separator.IsSpacing) →
        ∀ known : Interner,
          let again := (ofText otherSource (Bytes.spaced texts separators) known).tokenize
          again.2.errors = [] ∧
          (∃ lexemes : List (Lexeme Bytes),
            scanned.1.map (fun token => token.lexeme.resolve scanned.2.interner) =
              lexemes.map .ok ∧
            again.1.map (fun token => token.lexeme.resolve again.2.interner) =
              lexemes.map .ok) ∧
          (known = interner → again.1.map Token.lexeme = scanned.1.map Token.lexeme ∧
            again.2.interner = scanned.2.interner) := by
  intro scanned
  have reads : Item.Reads 0 text (Item.list text) :=
    Item.reads_listFrom 0 text (Item.exists_lexeme ((errors_tokensOf _ _).symm.trans clean))
  rcases reads.exists_spelled ⟨name, text⟩ [] rfl rfl with
    ⟨texts, lexemes, slices, spelled, results⟩
  have first := delivers_tokenize source interner results
  refine ⟨texts, ?_, ?_⟩
  · have spans := Item.map_span_tokens scanned.2.interner results
    rw [← slices]
    calc scanned.1.map (fun token => Source.slice ⟨name, text⟩ token.span)
        = (scanned.1.map Token.span).map (Source.slice ⟨name, text⟩) := by rw [List.map_map]; rfl
      _ = ((Item.list text).map Item.span).map (Source.slice ⟨name, text⟩) := by
          rw [← spans]
          exact congrArg _ (congrArg _ (tokensOf_eq _ _))
      _ = (Item.list text).map (fun item => Source.slice ⟨name, text⟩ item.span) := by
          rw [List.map_map]; rfl
  · intro separators enough spacing known again
    have second := delivers_tokenize otherSource known
      (Item.map_result_spaced spelled enough spacing)
    refine ⟨second.errors_eq, ⟨lexemes, first.resolved, second.resolved⟩, ?_⟩
    rintro rfl
    have interner_eq := second.interner_eq.trans first.interner_eq.symm
    exact ⟨by rw [second.lexemes_eq, interner_eq, first.lexemes_eq], interner_eq⟩

/-- A decimal that ends in its dot and a string with a quote and a newline in it are read again. -/
theorem tokenize_spaced_tabs :
    let scanned := (ofText 0 "x+=1.;\"a\\\"\n\"" .empty).tokenize
    let again := (ofText 0 "x\t+=\n1.\t; \"a\\\"\n\"" .empty).tokenize
    scanned.2.errors = [] ∧ again.2.errors = [] ∧
      again.1.map Token.lexeme = scanned.1.map Token.lexeme ∧
      again.2.interner = scanned.2.interner := by
  let expected : List Bytes := ["x", "+=", "1.", ";", "\"a\\\"\n\""]
  let separators : List Bytes := ["\t", "\n", "\t", " "]
  have clean : ((ofText 0 "x+=1.;\"a\\\"\n\"" .empty).tokenize).2.errors = [] := by
    decide +kernel
  rcases tokenize_spaced 0 0 "main" "x+=1.;\"a\\\"\n\"" .empty clean with
    ⟨texts, slices, survive⟩
  obtain rfl : texts = expected := by
    refine (List.map_injective_iff.mpr (Option.some_injective Bytes)) (slices.symm.trans ?_)
    decide +kernel
  have spacing : ∀ separator ∈ separators, separator.IsSpacing := by
    have each : ∀ separator ∈ separators,
        separator ≠ [] ∧ ∀ byte ∈ separator, byte.isBlank := by decide +kernel
    exact fun separator member => ⟨(each separator member).1, (each separator member).2⟩
  have spaced_eq : Bytes.spaced expected separators =
      Bytes.ofText "x\t+=\n1.\t; \"a\\\"\n\"" := by decide
  have again := survive separators (by decide) spacing .empty
  rw [spaced_eq] at again
  exact ⟨clean, again.1, again.2.2 rfl⟩

end Lexer

end TypedLang
