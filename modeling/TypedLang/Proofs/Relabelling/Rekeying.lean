import TypedLang.Proofs.Relabelling.Outcome
import TypedLang.Proofs.Token.Keys

/-!
# A text in a busy interner

An interner that knows other texts gives the names of a program other keys than an empty one does.
The two runs differ by a renaming of keys: a key that the run on its own issued goes to the key of
the same text, and the keys that it never issued go behind all others. So whatever an interner knows
already, a text is found to mean what it means on its own.
-/

namespace TypedLang

namespace Interner

/-- All texts of an interner, which are distinct, are known to another one. -/
structure Within (alone shared : Interner) : Prop where
  distinct : alone.texts.Nodup
  known : ∀ text ∈ alone.texts, text ∈ shared.texts

/--
Where a key goes in another interner: to the key of the text that its own text becomes there, and
behind all others if the key was not issued or its text becomes nothing.
-/
def sendKey (before after : Interner) (become : Bytes → Option Bytes) (key : Key) : Key :=
  match before.texts[key]?.bind become with
  | some text => after.keyOf text
  | none => after.size + key

theorem sendKey_of_some {before after : Interner} {become : Bytes → Option Bytes} {key : Key}
    {text : Bytes} (sent : before.texts[key]?.bind become = some text) :
    before.sendKey after become key = after.keyOf text := by
  rw [sendKey, sent]

theorem sendKey_of_none {before after : Interner} {become : Bytes → Option Bytes} {key : Key}
    (unsent : before.texts[key]?.bind become = none) :
    before.sendKey after become key = after.size + key := by
  rw [sendKey, unsent]

theorem sendKey_keyOf {before after : Interner} {become : Bytes → Option Bytes} {word text : Bytes}
    (seen : word ∈ before.texts) (becomes : become word = some text) :
    before.sendKey after become (before.keyOf word) = after.keyOf text :=
  sendKey_of_some (by rw [keyOf, List.getElem?_idxOf seen, Option.bind_some, becomes])

/-- Where texts become different known texts, keys become different keys. -/
theorem sendKey_injective {before after : Interner} {become : Bytes → Option Bytes}
    (distinct : before.texts.Nodup)
    (known : ∀ word ∈ before.texts, ∀ text, become word = some text → text ∈ after.texts)
    (apart : ∀ word other text, become word = some text → become other = some text →
      word = other) :
    Function.Injective (before.sendKey after become) := by
  -- A key that is sent ends among the known ones, one that is not ends behind them.
  have texts_eq {key : Key} {text : Bytes} (sent : before.texts[key]?.bind become = some text) :
      after.texts[before.sendKey after become key]? = some text := by
    rcases Option.bind_eq_some_iff.mp sent with ⟨word, found, becomes⟩
    rw [sendKey_of_some sent]
    exact List.getElem?_idxOf (known word (List.mem_of_getElem? found) text becomes)
  have behind {key : Key} (unsent : before.texts[key]?.bind become = none) :
      after.texts[before.sendKey after become key]? = none := by
    rw [sendKey_of_none unsent]
    exact List.getElem?_eq_none (Nat.le_add_right _ _)
  intro key other same
  rcases sent : before.texts[key]?.bind become with _ | text
  · rcases otherSent : before.texts[other]?.bind become with _ | text
    · rw [sendKey_of_none sent, sendKey_of_none otherSent] at same
      exact Nat.add_left_cancel same
    · have missing := behind sent
      rw [same, texts_eq otherSent] at missing
      cases missing
  · rcases otherSent : before.texts[other]?.bind become with _ | otherText
    · have missing := behind otherSent
      rw [← same, texts_eq sent] at missing
      cases missing
    · have text_eq := texts_eq sent
      rw [same, texts_eq otherSent] at text_eq
      cases text_eq
      rcases Option.bind_eq_some_iff.mp sent with ⟨word, found, becomes⟩
      rcases Option.bind_eq_some_iff.mp otherSent with ⟨otherWord, otherFound, otherBecomes⟩
      rcases apart word otherWord text becomes otherBecomes
      have lt : key < before.texts.length := (List.getElem?_eq_some_iff.mp found).1
      exact (List.getElem?_inj lt distinct).mp (found.trans otherFound.symm)

/-- The key that the text of a key has in another interner. -/
def rekey (alone shared : Interner) (key : Key) : Key :=
  alone.sendKey shared some key

theorem rekey_keyOf {alone shared : Interner} {text : Bytes} (seen : text ∈ alone.texts) :
    alone.rekey shared (alone.keyOf text) = shared.keyOf text :=
  sendKey_keyOf seen rfl

namespace Within

variable {alone shared : Interner} (within : alone.Within shared)

include within

/-- A new key has the text of the old one. -/
theorem getElem?_rekey (key : Key) :
    shared.texts[alone.rekey shared key]? = alone.texts[key]? := by
  cases found : alone.texts[key]? with
  | some text =>
      rw [rekey, sendKey_of_some (congrArg (Option.bind · some) found)]
      exact List.getElem?_idxOf (within.known text (List.mem_of_getElem? found))
  | none =>
      rw [rekey, sendKey_of_none (congrArg (Option.bind · some) found)]
      exact List.getElem?_eq_none (Nat.le_add_right _ _)

/-- Different keys become different keys. -/
theorem rekey_injective : Function.Injective (alone.rekey shared) := by
  refine sendKey_injective within.distinct ?_ ?_
  · rintro word seen _ ⟨⟩
    exact within.known word seen
  · rintro word other _ ⟨⟩ ⟨⟩
    rfl

end Within

end Interner

/-- All places stay; keys and sources may change. -/
def Relabelling.ofKeys (key : Key → Key) (injective : Function.Injective key)
    (source : SourceId → SourceId) : Relabelling where
  span := id
  key := key
  source := source
  combine _ _ := rfl
  single := rfl
  key_injective := injective

/-- Keys go from an interner to another one, and everything comes from one source. -/
def Relabelling.rekeying {alone shared : Interner} (within : alone.Within shared)
    (target : SourceId) : Relabelling :=
  .ofKeys (alone.rekey shared) within.rekey_injective fun _ => target

theorem Relabelling.rekeying_keepsTexts {alone shared : Interner} (within : alone.Within shared)
    (id : SourceId) : (rekeying within id).KeepsTexts alone shared :=
  within.getElem?_rekey

section

variable (id otherId : SourceId) (text : Bytes) (interner : Interner)

/-- What a run on its own learns is known after a run on the same text. -/
theorem Lexer.within_tokenize :
    ((ofText otherId text .empty).tokenize).2.interner.Within
      ((ofText id text interner).tokenize).2.interner := by
  rw [tokenize, tokenize, interner_tokensOf, interner_tokensOf]
  refine ⟨Interner.nodup_learn _ List.nodup_nil, fun word seen => ?_⟩
  rw [Interner.mem_texts_learn] at seen ⊢
  rcases seen with seen | seen
  · cases seen
  · exact .inr seen

variable {id otherId text interner}
  (within : ((Lexer.ofText otherId text .empty).tokenize).2.interner.Within
    ((Lexer.ofText id text interner).tokenize).2.interner)

theorem Item.token?_rekeying {item : Item} (member : item ∈ Item.list text) :
    (item.token? ((Lexer.ofText otherId text .empty).tokenize).2.interner).map
        (Token.relabel (.rekeying within id)) =
      item.token? ((Lexer.ofText id text interner).tokenize).2.interner := by
  rw [token?, token?]
  cases found : item.lexeme? with
  | none => rfl
  | some lexeme =>
      have keys_eq (word : Bytes) (wordMem : word ∈ lexeme.texts) :
          (Relabelling.rekeying within id).key (Interner.keyOf _ word) = Interner.keyOf _ word :=
        Interner.rekey_keyOf ((Lexer.ofText otherId text .empty).mem_texts_tokensOf
          (List.mem_filterMap.mpr ⟨item, member, found⟩) wordMem)
      simp only [Option.map_some, Token.relabel, Lexeme.map_map]
      exact congrArg (fun lexeme => some (Token.mk lexeme item.span)) (Lexeme.map_congr keys_eq)

/-- The tokens of a text are those of the run on its own with other keys. -/
theorem Lexer.map_rekeying_tokenize :
    ((ofText otherId text .empty).tokenize).1.map (Token.relabel (.rekeying within id)) =
      ((ofText id text interner).tokenize).1 := by
  have tokens_eq := (ofText otherId text .empty).tokensOf_eq (Item.list text)
  have otherTokens_eq := (ofText id text interner).tokensOf_eq (Item.list text)
  refine (congrArg (List.map _) tokens_eq).trans (Eq.trans ?_ otherTokens_eq.symm)
  rw [List.map_filterMap]
  exact List.filterMap_congr fun item member => Item.token?_rekeying within member

theorem Item.error?_relabel (change : Relabelling) (item : Item)
    (span_eq : change.span item.span = item.span) :
    (item.error? otherId).map (LexicalError.relabel change) =
      item.error? (change.source otherId) := by
  rw [error?, error?]
  rcases item.result with misspelling | lexeme
  · simp only [Option.map_some, LexicalError.ofMisspelling, LexicalError.relabel, span_eq]
  · rfl

/-- The lexical errors of a text are those of the run on its own in another source. -/
theorem Lexer.errors_rekeying_tokenize :
    ((ofText otherId text .empty).tokenize).2.errors.map
        (LexicalError.relabel (.rekeying within id)) =
      ((ofText id text interner).tokenize).2.errors := by
  have errors_eq := (ofText otherId text .empty).errors_tokensOf (Item.list text)
  have otherErrors_eq := (ofText id text interner).errors_tokensOf (Item.list text)
  refine (congrArg (List.map _) errors_eq).trans (Eq.trans ?_ otherErrors_eq.symm)
  simp only [ofText, List.nil_append, List.map_filterMap]
  exact List.filterMap_congr fun item _ => item.error?_relabel (.rekeying within id) rfl

/-- What is found in a text is what is found in it on its own, with other keys. -/
theorem Outcome.ofText_eq_relabel :
    ofText id text interner = (ofText otherId text .empty).relabel (.rekeying within id) := by
  have errors_eq := Lexer.errors_rekeying_tokenize within
  have tokens_eq := Lexer.map_rekeying_tokenize within
  -- Both runs stop in the lexer or neither does, since their errors correspond.
  simp only [ofText, ← errors_eq, ← tokens_eq, List.isEmpty_map]
  generalize ((Lexer.ofText otherId text .empty).tokenize).2.errors = errors
  cases errors.isEmpty with
  | true => exact relabel_ofTokens (.rekeying within id) otherId _
  | false =>
      simp only [Bool.not_false, ↓reduceIte, relabel, List.map_map]
      rfl

end

end TypedLang
