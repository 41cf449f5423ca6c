import TypedLang.Proofs.Layout
import TypedLang.Proofs.Renaming.Reports

/-!
# Renaming

Which names a program uses does not matter, as long as different names stay different. Renamed, a
name gets another key, and it may get the key that a string had, or give its own key to one. But
names are only ever compared with names, so a run on the renamed text goes the same way and finds
the same, with the new names in its messages.
-/

namespace TypedLang

namespace Bytes

/-- The tokens of a text on its own. -/
def tokens (text : Bytes) : List Token :=
  ((Lexer.ofText 0 text .empty).tokenize).1

/-- The names and strings of a text on its own. -/
def interner (text : Bytes) : Interner :=
  ((Lexer.ofText 0 text .empty).tokenize).2.interner

/-- The names in a text. -/
def names (text : Bytes) : List Bytes :=
  (Item.list text).filterMap fun item =>
    match item.lexeme? with
    | some (.identifier word) => some word
    | _ => none

theorem mem_names_iff {text word : Bytes} :
    word ∈ text.names ↔ ∃ item ∈ Item.list text, item.lexeme? = some (.identifier word) := by
  rw [names, List.mem_filterMap]
  refine exists_congr fun item => and_congr_right fun _ => ?_
  rcases item.lexeme? with _ | lexeme
  · simp
  · cases lexeme <;> simp

theorem isName_of_mem_names {text word : Bytes} (member : word ∈ text.names) : word.IsName := by
  rcases mem_names_iff.mp member with ⟨item, itemMem, lexeme_eq⟩
  rcases Item.isScanned_of_mem 0 0 text item itemMem with ⟨_, first, rest, _, _, result_eq⟩
  have scanned : (Scan.item first rest).result = .ok (.identifier word) :=
    result_eq.symm.trans (Item.lexeme?_eq_some_iff.mp lexeme_eq)
  rcases Scan.item_finds first rest _ scanned with ⟨_, _, _, _, munch⟩
  exact munch.spelled.isName.2

/-- Of a lexeme in a text, the text is known in the end. -/
theorem mem_texts_interner {text : Bytes} {item : Item} (member : item ∈ Item.list text)
    {lexeme : Lexeme Bytes} (lexeme_eq : item.lexeme? = some lexeme) {word : Bytes}
    (wordMem : word ∈ lexeme.texts) : word ∈ text.interner.texts :=
  (Lexer.ofText 0 text .empty).mem_texts_tokensOf
    (List.mem_filterMap.mpr ⟨item, member, lexeme_eq⟩) wordMem

theorem nodup_interner (text : Bytes) : text.interner.texts.Nodup := by
  rw [interner, Lexer.tokenize, Lexer.interner_tokensOf]
  exact Interner.nodup_learn _ List.nodup_nil

theorem tokens_eq (text : Bytes) :
    text.tokens = (Item.list text).filterMap (Item.token? text.interner) :=
  (Lexer.ofText 0 text .empty).tokensOf_eq (Item.list text)

theorem exists_item_of_mem_tokens {text : Bytes} {token : Token} (member : token ∈ text.tokens) :
    ∃ item ∈ Item.list text, ∃ lexeme, item.lexeme? = some lexeme ∧
      token.lexeme = lexeme.map text.interner.keyOf := by
  rw [tokens_eq] at member
  rcases List.mem_filterMap.mp member with ⟨item, itemMem, token_eq⟩
  rcases Option.map_eq_some_iff.mp token_eq with ⟨lexeme, lexeme_eq, rfl⟩
  exact ⟨item, itemMem, lexeme, lexeme_eq, rfl⟩

theorem lexicalErrors_eq (text : Bytes) :
    text.lexicalErrors = (Item.list text).filterMap (Item.error? 0) :=
  (Lexer.ofText 0 text .empty).errors_tokensOf (Item.list text)

/-- In a text without lexical errors all items are lexemes. -/
theorem exists_lexeme_of_clean {text : Bytes} (clean : text.lexicalErrors = []) :
    ∀ item ∈ Item.list text, ∃ lexeme, item.result = .ok lexeme :=
  Item.exists_lexeme ((lexicalErrors_eq text).symm.trans clean)

end Bytes

section

variable {rename : Bytes → Bytes} (isRenaming : Bytes.IsRenaming rename) {text : Bytes}
  (clean : text.lexicalErrors = [])

theorem Item.lexeme?_renamed (rename : Bytes → Bytes) (item : Item) :
    (item.renamed rename).lexeme? = item.lexeme?.map (Lexeme.mapEach rename id) := by
  rw [lexeme?, lexeme?, renamed]
  rcases item.result with misspelling | lexeme <;> rfl

/-- What becomes of a word in a text: a name becomes the new one, all others become nothing. -/
def Bytes.newName (rename : Bytes → Bytes) (text word : Bytes) : Option Bytes :=
  if word ∈ text.names then some (rename word) else none

theorem Bytes.newName_eq_some_iff {word new : Bytes} :
    text.newName rename word = some new ↔ word ∈ text.names ∧ rename word = new := by
  rw [newName]
  split
  · rename_i member
    simp [member]
  · rename_i missing
    simp [missing]

section

include isRenaming clean

theorem Item.renamed_mem {item : Item} (member : item ∈ list text) :
    item.renamed rename ∈ list (text.renamed rename) := by
  rw [list_renamed isRenaming (Bytes.exists_lexeme_of_clean clean)]
  exact List.mem_map_of_mem member

/-- The texts of renamed lexemes are known in the renamed text. -/
theorem Bytes.mem_texts_renamed {item : Item} (member : item ∈ Item.list text)
    {lexeme : Lexeme Bytes} (lexeme_eq : item.lexeme? = some lexeme) {word : Bytes}
    (wordMem : word ∈ (lexeme.mapEach rename id).texts) :
    word ∈ (text.renamed rename).interner.texts := by
  refine mem_texts_interner (Item.renamed_mem isRenaming clean member) ?_ wordMem
  rw [item.lexeme?_renamed rename, lexeme_eq, Option.map_some]

theorem Bytes.rename_mem_texts {word : Bytes} (member : word ∈ text.names) :
    rename word ∈ (text.renamed rename).interner.texts := by
  rcases mem_names_iff.mp member with ⟨item, itemMem, lexeme_eq⟩
  exact mem_texts_renamed isRenaming clean itemMem lexeme_eq List.mem_cons_self

/-- Different names in a text get different keys in the renamed text. -/
theorem Bytes.sendKey_newName_injective :
    Function.Injective
      (text.interner.sendKey (text.renamed rename).interner (text.newName rename)) := by
  refine Interner.sendKey_injective text.nodup_interner ?_ ?_
  · intro word _ new becomes
    rcases newName_eq_some_iff.mp becomes with ⟨member, rfl⟩
    exact rename_mem_texts isRenaming clean member
  · intro word other new becomes otherBecomes
    rcases newName_eq_some_iff.mp becomes with ⟨member, rfl⟩
    rcases newName_eq_some_iff.mp otherBecomes with ⟨otherMember, same⟩
    exact isRenaming.injective word other (isName_of_mem_names member)
      (isName_of_mem_names otherMember) same.symm

end

/-- Names go to the keys of their new texts, strings to those of their own ones. -/
def Bytes.rewording : Rewording where
  toRelabelling := .ofKeys
    (text.interner.sendKey (text.renamed rename).interner (text.newName rename))
    (sendKey_newName_injective isRenaming clean) id
  string := text.interner.rekey (text.renamed rename).interner

theorem Bytes.key_rewording {word : Bytes} (named : word ∈ text.names) :
    (rewording isRenaming clean).key (text.interner.keyOf word) =
      (text.renamed rename).interner.keyOf (rename word) := by
  rcases mem_names_iff.mp named with ⟨item, member, lexeme_eq⟩
  exact Interner.sendKey_keyOf (mem_texts_interner member lexeme_eq List.mem_cons_self)
    (newName_eq_some_iff.mpr ⟨named, rfl⟩)

theorem Bytes.string_rewording {body : Bytes} (seen : body ∈ text.interner.texts) :
    (rewording isRenaming clean).string (text.interner.keyOf body) =
      (text.renamed rename).interner.keyOf body :=
  Interner.rekey_keyOf seen

namespace Bytes

/-- A token of a text, once its name is renamed, has the key that the renamed text gives it. -/
theorem token?_renamed {item : Item} (member : item ∈ Item.list text) :
    (item.renamed rename).token? (text.renamed rename).interner =
      (item.token? text.interner).map (Token.reword (rewording isRenaming clean)) := by
  rw [Item.token?, Item.token?, item.lexeme?_renamed rename]
  rcases lexeme_eq : item.lexeme? with _ | lexeme
  · rfl
  · simp only [Option.map_some]
    cases lexeme with
    | identifier word =>
        have named : word ∈ text.names := mem_names_iff.mpr ⟨item, member, lexeme_eq⟩
        simp only [Token.reword, Lexeme.mapEach, Lexeme.map, key_rewording isRenaming clean named]
        rfl
    | string body =>
        have seen : body ∈ text.interner.texts :=
          mem_texts_interner member lexeme_eq List.mem_cons_self
        simp only [Token.reword, Lexeme.mapEach, Lexeme.map, string_rewording isRenaming clean seen]
        rfl
    | _ => rfl

/-- The tokens of a renamed text are those of the text, reworded. -/
theorem tokens_renamed : (text.renamed rename).tokens =
    text.tokens.map (Token.reword (rewording isRenaming clean)) := by
  rw [tokens_eq, tokens_eq, Item.list_renamed isRenaming (exists_lexeme_of_clean clean),
    List.filterMap_map, List.map_filterMap]
  exact List.filterMap_congr fun item member => token?_renamed isRenaming clean member

include isRenaming clean in
/-- A renamed text has no lexical errors either. -/
theorem lexicalErrors_renamed : (text.renamed rename).lexicalErrors = [] := by
  rw [lexicalErrors_eq, Item.list_renamed isRenaming (exists_lexeme_of_clean clean),
    List.filterMap_map, ← clean, lexicalErrors_eq]
  refine List.filterMap_congr fun item _ => ?_
  rw [Function.comp_apply, Item.error?, Item.error?, Item.renamed]
  rcases item.result with misspelling | lexeme <;> rfl

/-- What is found in a text without lexical errors is what is found in its tokens. -/
theorem outcome_eq_of_clean {text : Bytes} (clean : text.lexicalErrors = []) :
    Outcome.ofText 0 text .empty = Outcome.ofTokens 0 text.tokens := by
  rw [lexicalErrors] at clean
  exact if_neg (by simp [clean])

/-- What is found in a renamed text is what is found in the text, reworded. -/
theorem outcome_renamed : Outcome.ofText 0 (text.renamed rename) .empty =
    (Outcome.ofText 0 text .empty).reword (rewording isRenaming clean) := by
  rw [outcome_eq_of_clean clean, outcome_eq_of_clean (lexicalErrors_renamed isRenaming clean),
    tokens_renamed isRenaming clean]
  exact Outcome.reword_ofTokens (rewording isRenaming clean) 0 text.tokens

/-- The keys of names stand for the new names, and those of strings for the same strings. -/
theorem follows_rewording : (rewording isRenaming clean).Follows rename text.interner
    (text.renamed rename).interner text.tokens := by
  refine ⟨fun _ => rfl, fun _ => rfl, ?_, ?_⟩
  · intro token member key isName
    rcases exists_item_of_mem_tokens member with ⟨item, itemMem, lexeme, lexeme_eq, token_eq⟩
    rw [isName] at token_eq
    cases lexeme with
    | identifier word =>
        cases token_eq
        have named : word ∈ text.names := mem_names_iff.mpr ⟨item, itemMem, lexeme_eq⟩
        have seen := mem_texts_interner itemMem lexeme_eq List.mem_cons_self
        refine ⟨word, isName_of_mem_names named, Interner.resolve_keyOf seen, ?_⟩
        rw [key_rewording isRenaming clean named]
        exact Interner.resolve_keyOf (rename_mem_texts isRenaming clean named)
    | _ => cases token_eq
  · intro token member key isString
    rcases exists_item_of_mem_tokens member with ⟨item, itemMem, lexeme, lexeme_eq, token_eq⟩
    rw [isString] at token_eq
    cases lexeme with
    | string body =>
        cases token_eq
        have seen := mem_texts_interner itemMem lexeme_eq List.mem_cons_self
        have seenAgain : body ∈ (text.renamed rename).interner.texts :=
          mem_texts_renamed isRenaming clean itemMem lexeme_eq List.mem_cons_self
        refine ⟨body, Interner.resolve_keyOf seen, ?_⟩
        rw [string_rewording isRenaming clean seen]
        exact Interner.resolve_keyOf seenAgain
    | _ => cases token_eq

end Bytes

include isRenaming clean in
/-- In a renamed text the lines of a span are those that it has in the text. -/
theorem Registry.label_renamed (name : Bytes) (id : SourceId) (span : Span)
    (message : Option Bytes) :
    Registry.label ⟨[⟨name, text.renamed rename⟩]⟩ id span message =
      Registry.label ⟨[⟨name, text⟩]⟩ id span message := by
  have newlines := Bytes.newlines_renamed isRenaming (Bytes.exists_lexeme_of_clean clean)
  have lines_eq : Source.lineSpan ⟨name, text.renamed rename⟩ span =
      Source.lineSpan ⟨name, text⟩ span := Source.lineSpan_eq_of_newlines newlines span
  rcases id with _ | id
  · exact congrArg (· >>= fun lines => Except.ok (Label.mk 0 span message lines)) lines_eq
  · rfl

end

/-- Outputs that tell an outcome and the same one reworded tell the same but for the names. -/
theorem Output.Tells.renamed {change : Rewording} {rename : Bytes → Bytes} {before after : Interner}
    {tokens : List Token} (follows : change.Follows rename before after tokens)
    {registry other : Registry}
    (same : ∀ id span message, other.label id span message = registry.label id span message)
    {outcome : Outcome} (names : ∀ mistake ∈ outcome.mistakes, mistake.Names tokens)
    {output renamed : Output} (tells : output.Tells registry before outcome)
    (renamedTells : renamed.Tells other after (outcome.reword change)) :
    renamed.failedStage = output.failedStage ∧
      List.Forall₂ (Report.RenamedTo rename) output.diagnostics renamed.diagnostics ∧
      renamed.program = output.program.reword change ∧
      renamed.arena = output.arena.relabel change := by
  have pairs : List.Forall₂ (fun mistake new => mistake.Names tokens ∧ new = mistake.relabel change)
      outcome.mistakes (outcome.reword change).mistakes :=
    List.forall₂_map_right_iff.mpr (List.forall₂_same.mpr fun mistake member =>
      ⟨names mistake member, rfl⟩)
  refine ⟨?_, ?_, ?_, ?_⟩
  · rw [renamedTells.failedStage_eq, tells.failedStage_eq]
    exact outcome.failedStage_relabel change
  · refine ReportedBy.forall₂ ?_ pairs tells.reported renamedTells.reported
    rintro mistake _ report newReport ⟨known, rfl⟩ made newMade
    exact Mistake.renamedTo_of_report follows same known made newMade
  · rw [renamedTells.program_eq, tells.program_eq]
    rfl
  · rw [renamedTells.arena_eq, tells.arena_eq]
    rfl

/--
Consistent renaming is harmless. Let each name become a name of its own that is as long. If a text
has no lexical errors, then compiling it and compiling it with all its identifiers replaced, under
the same source name, give the same but for the names: the same stage fails, the reports agree one by
one with the new names in their messages, and the programs and the symbols are equal up to a
rewording that changes no place. It is the one between the tokens of both texts, and its keys stand
for the new names. Strings stay as they are, even those that spell a name.
-/
theorem compileText_renamed {rename : Bytes → Bytes} (isRenaming : Bytes.IsRenaming rename)
    {text : Bytes} (clean : text.lexicalErrors = []) (name : Bytes) :
    ∃ compilation renamed, ∃ change : Rewording,
      compileText text name = .ok compilation ∧
      compileText (text.renamed rename) name = .ok renamed ∧
      (text.renamed rename).tokens = text.tokens.map (Token.reword change) ∧
      change.Follows rename compilation.interner renamed.interner text.tokens ∧
      renamed.output.failedStage = compilation.output.failedStage ∧
      List.Forall₂ (Report.RenamedTo rename) compilation.output.diagnostics
        renamed.output.diagnostics ∧
      renamed.output.program = compilation.output.program.reword change ∧
      renamed.output.arena = compilation.output.arena.relabel change := by
  have found : Registry.get ⟨[⟨name, text⟩]⟩ 0 = .ok ⟨name, text⟩ := rfl
  have renamedFound : Registry.get ⟨[⟨name, text.renamed rename⟩]⟩ 0 =
    .ok ⟨name, text.renamed rename⟩ := rfl
  rcases compile_isOk found .empty with ⟨output, final, compiled, _⟩
  rcases compile_isOk renamedFound .empty with ⟨renamed, renamedFinal, renamedCompiled, _⟩
  rcases (Output.endsRun_of_compile found compiled).tells with ⟨tells, rfl⟩
  rcases (Output.endsRun_of_compile renamedFound renamedCompiled).tells with ⟨renamedTells, rfl⟩
  rw [Bytes.outcome_renamed isRenaming clean] at renamedTells
  refine ⟨_, _, Bytes.rewording isRenaming clean, compileText_of_compile compiled,
    compileText_of_compile renamedCompiled, Bytes.tokens_renamed isRenaming clean,
    Bytes.follows_rewording isRenaming clean, ?_⟩
  refine tells.renamed (Bytes.follows_rewording isRenaming clean)
    (Registry.label_renamed isRenaming clean name) ?_ renamedTells
  rw [Bytes.outcome_eq_of_clean clean]
  exact Outcome.names_ofTokens 0 text.tokens

/-- Two names are exchanged, one that is not declared and one that a string spells. -/
theorem compileText_renamed_exchanged :
    let rename := Equiv.swap (Bytes.ofText "a") (Bytes.ofText "b")
    let text := Bytes.ofText "let a @u8 = b; let c @u8 = \"a\";"
    Bytes.IsRenaming rename ∧ text.lexicalErrors = [] ∧
    text.renamed rename = Bytes.ofText "let b @u8 = a; let c @u8 = \"a\";" ∧
    ∃ compilation renamed, ∃ change : Rewording,
      compileText text = .ok compilation ∧
      compileText (text.renamed rename) = .ok renamed ∧
      (text.renamed rename).tokens = text.tokens.map (Token.reword change) ∧
      change.Follows rename compilation.interner renamed.interner text.tokens ∧
      renamed.output.failedStage = compilation.output.failedStage ∧
      List.Forall₂ (Report.RenamedTo rename) compilation.output.diagnostics
        renamed.output.diagnostics ∧
      renamed.output.program = compilation.output.program.reword change ∧
      renamed.output.arena = compilation.output.arena.relabel change := by
  intro rename text
  have isRenaming : Bytes.IsRenaming rename :=
    Bytes.isRenaming_swap ⟨⟨⟨_, rfl, by decide⟩, by decide +kernel⟩, by decide +kernel⟩
      ⟨⟨⟨_, rfl, by decide⟩, by decide +kernel⟩, by decide +kernel⟩ rfl
  have clean : text.lexicalErrors = [] := by decide +kernel
  exact ⟨isRenaming, clean, by decide +kernel, compileText_renamed isRenaming clean defaultName⟩

end TypedLang
