import Mathlib.Data.Finset.Dedup
import Mathlib.Data.Finset.Card
import Mathlib.Data.List.Dedup
import TypedLang.Proofs.Token.Keys

/-!
# Interning one text after the other

However often and in whatever order texts are interned, the key of a text is its rank: the number of
distinct texts in front of the place where it first stood. So texts and issued keys are one to one,
and the keys are all numbers below the number of distinct texts. A word of 32 bits holds every key
of fewer than 2^32 distinct texts.

An interner finds a key by searching its texts. It may as well keep a table that leads from each
text to its key. The two then have to grow together, since each is found out from the other.
-/

namespace TypedLang

namespace Interner

/-- The keys of some texts, one for each of them, and the interner that knows all of them. -/
def internAll (interner : Interner) : List Bytes → List Key × Interner
  | [] => ([], interner)
  | text :: texts =>
      let (key, interner) := interner.intern text
      let (keys, interner) := interner.internAll texts
      (key :: keys, interner)

/-- The number of distinct texts in front of the first occurrence of a text. -/
def rank (texts : List Bytes) (text : Bytes) : Nat :=
  (texts.takeWhile (· ≠ text)).toFinset.card

variable {interner : Interner} {texts : List Bytes}

theorem learn_append (interner : Interner) (texts others : List Bytes) :
    interner.learn (texts ++ others) = (interner.learn texts).learn others := by
  simp [learn]

theorem texts_learn (interner : Interner) (texts : List Bytes) :
    interner.texts <+: (interner.learn texts).texts := by
  induction texts generalizing interner with
  | nil => exact List.prefix_refl _
  | cons text texts ih => exact (interner.texts_intern text).trans (ih _)

/-- Every text gets the key that it has in the end. -/
theorem internAll_eq (interner : Interner) (texts : List Bytes) :
    interner.internAll texts =
      (texts.map (interner.learn texts).keyOf, interner.learn texts) := by
  induction texts generalizing interner with
  | nil => rfl
  | cons text texts ih =>
      have key_eq := key_intern ((interner.intern text).2.texts_learn texts)
      simp only [internAll, ih, List.map_cons, Prod.mk.injEq, List.cons.injEq]
      exact ⟨⟨key_eq, rfl⟩, rfl⟩

theorem nodup_texts (texts : List Bytes) : (empty.learn texts).texts.Nodup :=
  nodup_learn texts List.nodup_nil

theorem mem_texts_iff {text : Bytes} : text ∈ (empty.learn texts).texts ↔ text ∈ texts := by
  simp [mem_texts_learn, empty]

/-- An interner knows as many texts as it was given distinct ones. -/
theorem size_learn (texts : List Bytes) : (empty.learn texts).size = texts.toFinset.card := by
  have same : (empty.learn texts).texts.toFinset = texts.toFinset := by
    ext text
    simp only [List.mem_toFinset, mem_texts_iff]
  rw [size, ← List.toFinset_card_of_nodup (nodup_texts texts), same]

/-- The key of a text is its rank. -/
theorem keyOf_learn {text : Bytes} (member : text ∈ texts) :
    (empty.learn texts).keyOf text = rank texts text := by
  obtain ⟨front, back, rfl, fresh⟩ := List.eq_append_cons_of_mem member
  have front_eq : (front ++ text :: back).takeWhile (· ≠ text) = front := by
    rw [List.takeWhile_append_of_pos]
    · simp
    · intro other other_mem
      simpa using ne_of_mem_of_not_mem other_mem fresh
  have unseen : text ∉ (empty.learn front).texts := mt mem_texts_iff.mp fresh
  have issued : ((empty.learn front).intern text).1 = (empty.learn front).size := by
    rw [intern_of_not_mem unseen]
  have grown : ((empty.learn front).intern text).2.texts <+:
      (empty.learn (front ++ text :: back)).texts := by
    rw [learn_append]
    exact texts_learn _ back
  rw [rank, front_eq, ← size_learn, ← issued, key_intern grown]

theorem resolve_rank {text : Bytes} (member : text ∈ texts) :
    (empty.learn texts).resolve (rank texts text) = .ok text := by
  rw [← keyOf_learn member]
  exact resolve_keyOf (mem_texts_iff.mpr member)

theorem rank_injective {text other : Bytes} (member : text ∈ texts) (otherMember : other ∈ texts)
    (same : rank texts text = rank texts other) : text = other := by
  have resolved := resolve_rank member
  rw [same, resolve_rank otherMember] at resolved
  exact Except.ok.inj resolved.symm

theorem resolve_eq_error_iff (texts : List Bytes) (key : Key) :
    (empty.learn texts).resolve key = .error .unknownKey ↔ texts.toFinset.card ≤ key := by
  rw [← size_learn, size, resolve, ← List.getElem?_eq_none_iff]
  cases (empty.learn texts).texts[key]? <;> simp

/-- The ranks of some texts are all numbers below the number of distinct ones. -/
theorem mem_map_rank_iff (texts : List Bytes) (key : Key) :
    key ∈ texts.map (rank texts) ↔ key < texts.toFinset.card := by
  rw [List.mem_map]
  constructor
  · rintro ⟨text, member, rfl⟩
    apply Nat.lt_of_not_le
    intro behind
    rw [← resolve_eq_error_iff, resolve_rank member] at behind
    cases behind
  · intro lt
    rw [← size_learn] at lt
    have found := List.getElem_mem lt
    refine ⟨_, mem_texts_iff.mp found, ?_⟩
    rw [← keyOf_learn (mem_texts_iff.mp found), keyOf]
    exact (nodup_texts texts).idxOf_getElem key lt

/-- The table of an interner without repetitions leads back from the texts to the keys. -/
theorem find?_eq_some_iff (distinct : interner.texts.Nodup) {text : Bytes} {key : Key} :
    interner.find? text = some key ↔ interner.resolve key = .ok text := by
  rw [find?, resolve_eq_ok_iff]
  constructor
  · intro found
    obtain ⟨lt, isText, _⟩ := List.idxOf?_eq_some_iff.mp found
    exact List.getElem?_eq_some_iff.mpr ⟨lt, isText⟩
  · intro found
    obtain ⟨lt, isText⟩ := List.getElem?_eq_some_iff.mp found
    refine List.idxOf?_eq_some_iff.mpr ⟨lt, isText, ?_⟩
    intro earlier earlier_lt same
    have same_place := distinct.getElem_inj_iff.mp (same.trans isText.symm)
    omega

/-- Texts in the order of their keys, and a table that leads back from each text to its key. -/
structure Indexed where
  texts : List Bytes := []
  table : List (Bytes × Key) := []
  deriving Repr, DecidableEq

namespace Indexed

/-- The key of a text by the table; a text that the table does not know is put into both parts. -/
def intern (indexed : Indexed) (text : Bytes) : Key × Indexed :=
  match indexed.table.lookup text with
  | some key => (key, indexed)
  | none =>
      let key := indexed.texts.length
      (key, ⟨indexed.texts ++ [text], indexed.table ++ [(text, key)]⟩)

/-- The keys of some texts, one for each of them, and the texts and the table behind all of them. -/
def internAll (indexed : Indexed) : List Bytes → List Key × Indexed
  | [] => ([], indexed)
  | text :: texts =>
      let (key, indexed) := indexed.intern text
      let (keys, indexed) := indexed.internAll texts
      (key :: keys, indexed)

/-- The table leads to the keys that a search of the texts finds. -/
structure Mirrors (indexed : Indexed) (interner : Interner) : Prop where
  texts_eq : indexed.texts = interner.texts
  lookup_eq : ∀ text, indexed.table.lookup text = interner.find? text

namespace Mirrors

variable {indexed : Indexed}

theorem start : Mirrors {} empty :=
  ⟨rfl, fun _ => rfl⟩

theorem intern (mirrors : indexed.Mirrors interner) (text : Bytes) :
    (indexed.intern text).1 = (interner.intern text).1 ∧
      (indexed.intern text).2.Mirrors (interner.intern text).2 := by
  simp only [Indexed.intern, Interner.intern, mirrors.lookup_eq]
  cases found : interner.find? text with
  | some key => exact ⟨rfl, mirrors⟩
  | none =>
      refine ⟨by simp [size, mirrors.texts_eq], by simp [mirrors.texts_eq], ?_⟩
      intro other
      rw [List.lookup_append, mirrors.lookup_eq]
      simp only [find?, List.idxOf?, List.findIdx?_append]
      -- Behind the texts that were known, both parts find the new one and nothing else.
      by_cases same : other = text
      · simp [same, mirrors.texts_eq, List.findIdx?_cons]
      · have differs : (other == text) = false := beq_eq_false_iff_ne.mpr same
        simp [differs, Ne.symm same, List.lookup_cons, List.findIdx?_cons]

theorem internAll (mirrors : indexed.Mirrors interner) (texts : List Bytes) :
    (indexed.internAll texts).1 = (interner.internAll texts).1 ∧
      (indexed.internAll texts).2.Mirrors (interner.internAll texts).2 := by
  induction texts generalizing indexed interner with
  | nil => exact ⟨rfl, mirrors⟩
  | cons text texts ih =>
      obtain ⟨key_eq, further⟩ := mirrors.intern text
      obtain ⟨keys_eq, last⟩ := ih further
      simp only [Indexed.internAll, Interner.internAll, key_eq, keys_eq]
      exact ⟨trivial, last⟩

end Mirrors

end Indexed

/--
What holds of the keys that were issued for some texts one after the other, and of the interner
that issued them.
-/
structure Numbers (texts : List Bytes) (keys : List Key) (interner : Interner) : Prop where
  keys_eq : keys = texts.map (rank texts)
  mem_keys_iff : ∀ key, key ∈ keys ↔ key < texts.toFinset.card
  same_iff : ∀ {i j : Nat} {text other : Bytes}, texts[i]? = some text → texts[j]? = some other →
    (keys[i]? = keys[j]? ↔ text = other)
  resolved : List.Forall₂ (fun key text => interner.resolve key = .ok text) keys texts
  resolve_intern : ∀ text, (interner.intern text).2.resolve (interner.intern text).1 = .ok text
  intern_resolve : ∀ key ∈ keys, ∃ text ∈ texts,
    interner.resolve key = .ok text ∧ interner.intern text = (key, interner)
  find_eq : ∀ text, interner.find? text = if text ∈ texts then some (rank texts text) else none
  resolve_fails_iff : ∀ key, interner.resolve key = .error .unknownKey ↔ key ∉ keys
  stable : ∀ more, ∀ key ∈ keys, (interner.internAll more).2.resolve key = interner.resolve key
  indexed : ∃ indexed : Indexed, ({} : Indexed).internAll texts = (keys, indexed) ∧
    indexed.texts = interner.texts ∧
    ∀ text key, indexed.table.lookup text = some key ↔ indexed.texts[key]? = some text

/-- Whatever texts are interned, they and the issued keys are one to one, now and later on. -/
theorem numbers_internAll (texts : List Bytes) :
    Numbers texts (empty.internAll texts).1 (empty.internAll texts).2 := by
  have keys_eq : (empty.internAll texts).1 = texts.map (rank texts) := by
    rw [internAll_eq]
    exact List.map_congr_left fun text member => keyOf_learn member
  have interner_eq : (empty.internAll texts).2 = empty.learn texts := by
    rw [internAll_eq]
  rw [keys_eq, interner_eq]
  constructor
  case keys_eq => rfl
  case mem_keys_iff => exact mem_map_rank_iff texts
  case same_iff =>
    intro i j text other found otherFound
    simp only [List.getElem?_map, found, otherFound, Option.map_some, Option.some.injEq]
    constructor
    · exact rank_injective (List.mem_of_getElem? found) (List.mem_of_getElem? otherFound)
    · rintro rfl
      rfl
  case resolved =>
    rw [List.forall₂_map_left_iff, List.forall₂_same]
    exact fun text member => resolve_rank member
  case resolve_intern => exact fun text => Interner.resolve_intern _ text
  case intern_resolve =>
    intro key issued
    obtain ⟨text, member, rfl⟩ := List.mem_map.mp issued
    refine ⟨text, member, resolve_rank member, ?_⟩
    rw [intern_of_mem (mem_texts_iff.mpr member), keyOf_learn member]
  case find_eq =>
    intro text
    split
    · rename_i member
      exact (find?_eq_some_iff (nodup_texts texts)).mpr (resolve_rank member)
    · rename_i unseen
      exact List.idxOf?_eq_none_iff.mpr (mt mem_texts_iff.mp unseen)
  case resolve_fails_iff =>
    intro key
    rw [mem_map_rank_iff, resolve_eq_error_iff, Nat.not_lt]
  case stable =>
    intro more key issued
    obtain ⟨text, member, rfl⟩ := List.mem_map.mp issued
    rw [resolve_rank member, internAll_eq]
    exact resolve_of_extends (texts_learn _ more) (resolve_rank member)
  case indexed =>
    obtain ⟨same, mirrors⟩ := Indexed.Mirrors.start.internAll texts
    rw [keys_eq] at same
    rw [interner_eq] at mirrors
    refine ⟨_, Prod.ext same rfl, mirrors.texts_eq, ?_⟩
    intro text key
    rw [mirrors.lookup_eq, mirrors.texts_eq, find?_eq_some_iff (nodup_texts texts),
      resolve_eq_ok_iff]

/-- A text that begins another one and the empty text have keys of their own. -/
example : (empty.internAll ["ab", "", "a", "ab", ""]).1 = [0, 1, 2, 0, 1] := by
  decide

end Interner

end TypedLang
