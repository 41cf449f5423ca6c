import Mathlib.Data.List.Nodup
import TypedLang.Proofs.Relabelling.Trees
import TypedLang.Proofs.Token.Munch

/-!
# Keys in order

An interner only ever learns texts, each one once. Which key a token has is decided by the interner
in the end: it is the key that its text has there, whatever was learned in between. So the tokens of
a text are a function of its items and of the texts that were known before.
-/

namespace TypedLang

namespace Interner

/-- The key of a text that was seen. -/
def keyOf (interner : Interner) (text : Bytes) : Key :=
  interner.texts.idxOf text

theorem resolve_keyOf {interner : Interner} {text : Bytes} (seen : text ∈ interner.texts) :
    interner.resolve (interner.keyOf text) = .ok text :=
  resolve_eq_ok_iff.mpr (List.getElem?_idxOf seen)

theorem keyOf_of_extends {interner later : Interner} (grown : interner.texts <+: later.texts)
    {text : Bytes} (seen : text ∈ interner.texts) : later.keyOf text = interner.keyOf text := by
  rcases grown with ⟨more, texts_eq⟩
  rw [keyOf, ← texts_eq, List.idxOf_append_of_mem seen]
  rfl

/-- A text that was not seen is put behind the others, with the next key. -/
theorem intern_of_not_mem {interner : Interner} {text : Bytes} (unseen : text ∉ interner.texts) :
    interner.intern text = (interner.size, ⟨interner.texts ++ [text]⟩) := by
  rw [intern, find?, List.idxOf?_eq_none_iff.mpr unseen]

/-- A text that was seen keeps its key. -/
theorem intern_of_mem {interner : Interner} {text : Bytes} (seen : text ∈ interner.texts) :
    interner.intern text = (interner.keyOf text, interner) := by
  rcases Option.isSome_iff_exists.mp (List.isSome_idxOf?.mpr seen) with ⟨key, found⟩
  rw [intern, find?, keyOf, List.idxOf_eq_getD_idxOf?, found]
  rfl

/-- The interner after some texts. -/
def learn (interner : Interner) (words : List Bytes) : Interner :=
  words.foldl (fun interner word => (interner.intern word).2) interner

theorem mem_texts_intern (interner : Interner) (word text : Bytes) :
    text ∈ (interner.intern word).2.texts ↔ text ∈ interner.texts ∨ text = word := by
  by_cases seen : word ∈ interner.texts
  · rw [intern_of_mem seen]
    constructor
    · exact .inl
    · rintro (known | rfl)
      · exact known
      · exact seen
  · rw [intern_of_not_mem seen, List.mem_append, List.mem_singleton]

theorem mem_texts_learn (interner : Interner) (words : List Bytes) (text : Bytes) :
    text ∈ (interner.learn words).texts ↔ text ∈ interner.texts ∨ text ∈ words := by
  induction words generalizing interner with
  | nil => simp [learn]
  | cons word rest ih =>
      change text ∈ ((interner.intern word).2.learn rest).texts ↔ _
      rw [ih, mem_texts_intern, or_assoc, List.mem_cons]

/-- The key that a text gets is the one that it has later on. -/
theorem key_intern {interner later : Interner} {text : Bytes}
    (grown : (interner.intern text).2.texts <+: later.texts) :
    (interner.intern text).1 = later.keyOf text := by
  rw [keyOf_of_extends grown ((interner.mem_texts_intern text text).mpr (.inr rfl))]
  by_cases seen : text ∈ interner.texts
  · rw [intern_of_mem seen]
  · rw [intern_of_not_mem seen, keyOf, List.idxOf_append, if_neg seen, List.idxOf_cons_self,
      Nat.zero_add]
    rfl

/-- An interner that knows some texts does not change when it sees them again. -/
theorem learn_of_subset {interner : Interner} {words : List Bytes}
    (seen : words ⊆ interner.texts) : interner.learn words = interner := by
  induction words with
  | nil => rfl
  | cons word rest ih =>
      rw [List.cons_subset] at seen
      change (interner.intern word).2.learn rest = interner
      rw [intern_of_mem seen.1]
      exact ih seen.2

theorem nodup_intern {interner : Interner} (text : Bytes) (distinct : interner.texts.Nodup) :
    (interner.intern text).2.texts.Nodup := by
  by_cases seen : text ∈ interner.texts
  · rw [intern_of_mem seen]
    exact distinct
  · rw [intern_of_not_mem seen, ← List.concat_eq_append]
    exact List.Nodup.concat seen distinct

theorem nodup_learn {interner : Interner} (words : List Bytes) (distinct : interner.texts.Nodup) :
    (interner.learn words).texts.Nodup := by
  induction words generalizing interner with
  | nil => exact distinct
  | cons word rest ih => exact ih (nodup_intern word distinct)

end Interner

namespace Lexeme

/-- The texts in a lexeme: one for an identifier or a string, none for the others. -/
def texts : Lexeme Bytes → List Bytes
  | identifier text => [text]
  | string text => [text]
  | _ => []

theorem intern_eq_learn (interner : Interner) (lexeme : Lexeme Bytes) :
    (lexeme.intern interner).2 = interner.learn lexeme.texts := by
  cases lexeme <;> rfl

/-- The key that a lexeme gets is the one that its text has in the end. -/
theorem intern_eq_map {interner later : Interner} {lexeme : Lexeme Bytes}
    (grown : (lexeme.intern interner).2.texts <+: later.texts) :
    (lexeme.intern interner).1 = lexeme.map later.keyOf := by
  cases lexeme with
  | identifier text => exact congrArg identifier (Interner.key_intern grown)
  | string text => exact congrArg string (Interner.key_intern grown)
  | _ => rfl

theorem resolve_map_keyOf {interner : Interner} {lexeme : Lexeme Bytes}
    (seen : ∀ text ∈ lexeme.texts, text ∈ interner.texts) :
    (lexeme.map interner.keyOf).resolve interner = .ok lexeme := by
  cases lexeme with
  | identifier text =>
      exact congrArg (Except.map identifier) (Interner.resolve_keyOf (seen text List.mem_cons_self))
  | string text =>
      exact congrArg (Except.map string) (Interner.resolve_keyOf (seen text List.mem_cons_self))
  | _ => rfl

theorem map_congr {Other : Type} {convert same : Bytes → Other} {lexeme : Lexeme Bytes}
    (agree : ∀ text ∈ lexeme.texts, convert text = same text) :
    lexeme.map convert = lexeme.map same := by
  cases lexeme with
  | identifier text => exact congrArg identifier (agree text List.mem_cons_self)
  | string text => exact congrArg string (agree text List.mem_cons_self)
  | _ => rfl

end Lexeme

namespace Item

/-- The lexeme of an item, if its bytes form one. -/
def lexeme? (item : Item) : Option (Lexeme Bytes) :=
  item.result.toOption

theorem lexeme?_eq_some_iff {item : Item} {lexeme : Lexeme Bytes} :
    item.lexeme? = some lexeme ↔ item.result = .ok lexeme := by
  rw [lexeme?]
  rcases item.result with misspelling | found <;> simp [Except.toOption]

/-- The texts in the lexemes of some items. -/
def texts (items : List Item) : List Bytes :=
  (items.filterMap lexeme?).flatMap Lexeme.texts

/-- The token of an item, with the key that its text has in an interner. -/
def token? (interner : Interner) (item : Item) : Option Token :=
  item.lexeme?.map fun lexeme => ⟨lexeme.map interner.keyOf, item.span⟩

end Item

namespace Lexer

/-- A lexer makes its interner learn the texts of its items. -/
theorem interner_tokensOf (lexer : Lexer) (items : List Item) :
    (lexer.tokensOf items).2.interner = lexer.interner.learn (Item.texts items) := by
  induction items generalizing lexer with
  | nil => rfl
  | cons item items ih =>
      rw [tokensOf, Item.texts, List.filterMap_cons, Item.lexeme?]
      rcases item.result with misspelling | lexeme
      · exact ih _
      · simp only [ih, Lexeme.intern_eq_learn, Except.toOption, List.flatMap_cons]
        exact List.foldl_append.symm

/-- The tokens of some items have the keys that their texts have in the end. -/
theorem tokensOf_eq (lexer : Lexer) (items : List Item) :
    (lexer.tokensOf items).1 =
      items.filterMap (Item.token? (lexer.tokensOf items).2.interner) := by
  induction items generalizing lexer with
  | nil => rfl
  | cons item items ih =>
      rw [tokensOf, List.filterMap_cons, Item.token?, Item.lexeme?]
      rcases item.result with misspelling | lexeme
      · exact ih _
      · -- The token has its key from now on; what is learned behind it does not change the key.
        let next : Lexer := { lexer with interner := (lexeme.intern lexer.interner).2 }
        have grown := next.texts_tokensOf items
        simp only [Except.toOption, Option.map_some, Lexeme.intern_eq_map grown]
        exact congrArg _ (ih next)

/-- What a lexer gives, and what it is in the end. -/
theorem tokensOf_eq_mk (lexer : Lexer) (items : List Item) :
    lexer.tokensOf items =
      (items.filterMap (Item.token? (lexer.interner.learn (Item.texts items))),
        ⟨lexer.source, [], lexer.interner.learn (Item.texts items),
          lexer.errors ++ items.filterMap (Item.error? lexer.source)⟩) := by
  have same : (lexer.tokensOf items).2.source = lexer.source ∧
      (lexer.tokensOf items).2.pending = [] := by
    induction items generalizing lexer with
    | nil => exact ⟨rfl, rfl⟩
    | cons item items ih =>
        rw [tokensOf]
        rcases item.result with misspelling | lexeme <;> exact ih _
  rw [← interner_tokensOf, ← errors_tokensOf, ← tokensOf_eq, ← same.1, ← same.2]

/-- A text that is read again with what the first reading learned is read as before. -/
theorem tokenize_again (source : SourceId) (text : Bytes) (interner : Interner) :
    (ofText source text ((ofText source text interner).tokenize).2.interner).tokenize =
      (ofText source text interner).tokenize := by
  have learned : ((interner.learn (Item.texts (Item.list text))).learn
      (Item.texts (Item.list text))) = interner.learn (Item.texts (Item.list text)) :=
    Interner.learn_of_subset fun word member =>
      (interner.mem_texts_learn _ word).mpr (.inr member)
  simp only [tokenize, tokensOf_eq_mk, ofText, learned]

/-- The texts of the items are known in the end. -/
theorem mem_texts_tokensOf (lexer : Lexer) {items : List Item} {lexeme : Lexeme Bytes}
    (member : lexeme ∈ items.filterMap Item.lexeme?) {text : Bytes}
    (textMem : text ∈ lexeme.texts) :
    text ∈ (lexer.tokensOf items).2.interner.texts := by
  rw [interner_tokensOf, Interner.mem_texts_learn]
  exact .inr (List.mem_flatMap.mpr ⟨lexeme, member, textMem⟩)

/-- The lexemes of tokens, with the texts of their keys, are those of the items. -/
theorem map_resolve_tokensOf (lexer : Lexer) (items : List Item) :
    (lexer.tokensOf items).1.map
        (fun token => token.lexeme.resolve (lexer.tokensOf items).2.interner) =
      (items.filterMap Item.lexeme?).map .ok := by
  rw [tokensOf_eq, List.map_filterMap, List.map_filterMap]
  refine List.filterMap_congr fun item member => ?_
  rw [Item.token?]
  cases found : item.lexeme? with
  | none => rfl
  | some lexeme =>
      refine congrArg some (Lexeme.resolve_map_keyOf fun text textMem => ?_)
      exact lexer.mem_texts_tokensOf (List.mem_filterMap.mpr ⟨item, member, found⟩) textMem

end Lexer

end TypedLang
