import Mathlib.Data.List.Induction
import Mathlib.Data.List.TakeWhile
import Mathlib.Data.Nat.Digits.Defs
import TypedLang.Proofs.Token.Nearest
import TypedLang.Token

/-!
# Lexemes

The lexical grammar as a relation between bytes and lexemes, and what may not follow a lexeme of
each kind. It knows nothing of how a text is scanned. A lexeme with nothing behind it that would
continue it is the longest one at its place: no more of the text forms a lexeme of any kind.
-/

namespace TypedLang

/-- The ways in which a lexeme starts. -/
inductive Start where
  | letter | digit | quote | mark
  deriving DecidableEq

/-- How a lexeme that starts with a byte goes on. -/
def Byte.start (byte : Byte) : Start :=
  if byte.isLetter then .letter
  else if byte.isDigit then .digit
  else if byte = quote then .quote
  else .mark

namespace Bytes

/-- A letter in front of any number of letters, digits and underscores. -/
def IsWord (text : Bytes) : Prop :=
  (∃ first ∈ text.head?, first.isLetter) ∧ ∀ byte ∈ text, byte.continuesName

/-- One or more digits. -/
def IsDigits (text : Bytes) : Prop :=
  text ≠ [] ∧ ∀ byte ∈ text, byte.isDigit

/-- The number that some digits write in base ten, in which the last one of them counts ones. -/
def inBaseTen (digits : Bytes) : Nat :=
  Nat.ofDigits 10 (digits.reverse.map fun digit => digit.toNat - 48)

/-- Reading digits from the left on gives the number that they write. -/
theorem toNumber_eq_inBaseTen (digits : Bytes) : digits.toNumber = digits.inBaseTen := by
  induction digits using List.reverseRecOn with
  | nil => rfl
  | append_singleton digits digit ih =>
      rw [inBaseTen, List.reverse_append, List.reverse_singleton, List.singleton_append,
        List.map_cons, Nat.ofDigits_cons, Nat.add_comm]
      rw [toNumber, List.foldl_append, ← toNumber, ih]
      rfl

/-- What may stand between two quotes: a quote only right behind a backslash, which is not last. -/
structure IsQuotable (text : Bytes) : Prop where
  escaped : ∀ before after, text = before ++ Byte.quote :: after →
    before.getLast? = some Byte.backslash
  closable : text.getLast? ≠ some Byte.backslash

/-- The words that are no names. -/
def reserved : List Bytes :=
  [ofText "true", ofText "false"] ++ Keyword.all.map (fun word => ofText word.spelling) ++
    TypeName.all.map (fun word => ofText word.spelling)

/-- A word that is no keyword, no name of a type and no truth value. -/
structure IsName (word : Bytes) : Prop where
  isWord : word.IsWord
  free : word ∉ reserved

/-- Some bytes form a lexeme, be it a number of any size. -/
inductive Forms : Start → Bytes → Prop where
  | word {word : Bytes} : word.IsWord → Forms .letter word
  | integer {digits : Bytes} : digits.IsDigits → Forms .digit digits
  | decimal {whole fraction : Bytes} :
      whole.IsDigits → (∀ byte ∈ fraction, byte.isDigit) →
      Forms .digit (whole ++ Byte.dot :: fraction)
  | string {body : Bytes} :
      body.IsQuotable → Forms .quote (Byte.quote :: body ++ [Byte.quote])
  | punct (mark : Punct) : Forms .mark (ofText mark.spelling)

end Bytes

namespace Punct

/-- The mark that a mark and an equals sign make together. -/
def fused? : Punct → Option Punct
  | plus => some plusEqual
  | minus => some minusEqual
  | star => some starEqual
  | slash => some slashEqual
  | less => some lessEqual
  | greater => some greaterEqual
  | equal => some equalEqual
  | bang => some bangEqual
  | _ => none

end Punct

namespace Lexeme

/-- Some bytes spell a lexeme. -/
inductive Spelled : Bytes → Lexeme Bytes → Prop where
  | keyword (word : Keyword) : Spelled (Bytes.ofText word.spelling) (.keyword word)
  | typeName (word : TypeName) : Spelled (Bytes.ofText word.spelling) (.typeName word)
  | boolean (value : Bool) :
      Spelled (Bytes.ofText (if value then "true" else "false")) (.boolean value)
  | identifier {word : Bytes} :
      word.IsWord → word ∉ Bytes.reserved → Spelled word (.identifier word)
  | integer {digits : Bytes} {value : UInt64} :
      digits.IsDigits → value.toNat = digits.inBaseTen → Spelled digits (.integer value)
  | decimal {whole fraction : Bytes} {value : Binary64} :
      whole.IsDigits → (∀ byte ∈ fraction, byte.isDigit) →
      value.IsDecimal (Bytes.inBaseTen (whole ++ fraction)) fraction.length →
      Spelled (whole ++ Byte.dot :: fraction) (.decimal value)
  | string {body : Bytes} :
      body.IsQuotable → Spelled (Byte.quote :: body ++ [Byte.quote]) (.string body)
  | punct (mark : Punct) : Spelled (Bytes.ofText mark.spelling) (.punct mark)

/-- The byte behind a lexeme, if there is one, does not continue it. -/
def Ends : Lexeme Bytes → Bytes → Prop
  | .integer _, others => ∀ next ∈ others.head?, next.isDigit = false ∧ next ≠ Byte.dot
  | .decimal _, others => ∀ next ∈ others.head?, next.isDigit = false
  | .string _, _ => True
  | .punct mark, others => ∀ next ∈ others.head?, mark.fused?.isSome → next ≠ Byte.equals
  | _, others => ∀ next ∈ others.head?, next.continuesName = false

end Lexeme

theorem Bytes.isWord_of_mem_reserved {word : Bytes} (member : word ∈ reserved) : word.IsWord := by
  have all : reserved.all fun word =>
      word.head?.any Byte.isLetter && word.all Byte.continuesName := by
    decide +kernel
  have isWord := List.all_eq_true.mp all word member
  simpa [IsWord, Option.any_eq_true] using isWord

theorem Keyword.mem_reserved (word : Keyword) : Bytes.ofText word.spelling ∈ Bytes.reserved := by
  cases word <;> decide

theorem TypeName.mem_reserved (word : TypeName) : Bytes.ofText word.spelling ∈ Bytes.reserved := by
  cases word <;> decide

theorem Bytes.boolean_mem_reserved (value : Bool) :
    ofText (if value then "true" else "false") ∈ reserved := by
  cases value <;> decide

namespace Punct

theorem mem_all (mark : Punct) : mark ∈ all := by
  cases mark <;> decide

/-- What is said of every mark can be decided one by one. -/
instance {holds : Punct → Prop} [DecidablePred holds] : Decidable (∀ mark, holds mark) :=
  decidable_of_iff (∀ mark ∈ all, holds mark)
    ⟨fun each mark => each mark mark.mem_all, fun each mark _ => each mark⟩

theorem start_spelling : ∀ mark : Punct, (Bytes.ofText mark.spelling).head?.map Byte.start =
    some .mark := by
  decide +kernel

/-- A mark has one byte, or it has two and is fused already. -/
theorem spelling_cases : ∀ mark : Punct, (Bytes.ofText mark.spelling).length = 1 ∨
    ((Bytes.ofText mark.spelling).length = 2 ∧ mark.fused? = none) := by
  decide +kernel

/-- A mark goes on with another one only if both are fused by an equals sign. -/
theorem fused_of_extends : ∀ mark other : Punct,
    Bytes.ofText mark.spelling <+: Bytes.ofText other.spelling → mark = other ∨
      (mark.fused? = some other ∧
        Bytes.ofText other.spelling = Bytes.ofText mark.spelling ++ [Byte.equals]) := by
  decide +kernel

theorem spelling_fused : ∀ mark other : Punct, mark.fused? = some other →
    Bytes.ofText other.spelling = Bytes.ofText mark.spelling ++ [Byte.equals] := by
  decide +kernel

end Punct

theorem Byte.start_of_isLetter {byte : Byte} (isLetter : byte.isLetter) : byte.start = .letter :=
  if_pos isLetter

theorem Byte.isLetter_eq_false_of_isDigit {byte : Byte} (digit : byte.isDigit) :
    byte.isLetter = false := by
  simp only [isDigit, isLetter, UInt8.le_iff_toNat_le, Bool.and_eq_true, Bool.or_eq_false_iff,
    Bool.and_eq_false_iff, decide_eq_true_eq, decide_eq_false_iff_not, UInt8.reduceToNat]
    at digit ⊢
  omega

theorem Byte.start_of_isDigit {byte : Byte} (digit : byte.isDigit) : byte.start = .digit := by
  simp [start, isLetter_eq_false_of_isDigit digit, digit]

theorem Bytes.IsDigits.start {digits : Bytes} (isDigits : digits.IsDigits) (others : Bytes) :
    (digits ++ others).head?.map Byte.start = some .digit := by
  rcases isDigits with ⟨nonempty, all⟩
  rcases List.exists_cons_of_ne_nil nonempty with ⟨first, rest, rfl⟩
  simp [Byte.start_of_isDigit (all first List.mem_cons_self)]

/-- The first byte of a lexeme tells how it goes on. -/
theorem Bytes.Forms.start {start : Start} {text : Bytes} (forms : Forms start text) :
    text.head?.map Byte.start = some start := by
  cases forms with
  | word isWord =>
      rcases isWord.1 with ⟨first, head_eq, isLetter⟩
      rw [Option.mem_def.mp head_eq, Option.map_some, Byte.start_of_isLetter isLetter]
  | integer isDigits => simpa using isDigits.start []
  | decimal isDigits _ => exact isDigits.start _
  | string => rfl
  | punct mark => exact mark.start_spelling

theorem Bytes.Forms.ne_nil {start : Start} {text : Bytes} (forms : Forms start text) :
    text ≠ [] := by
  rintro rfl
  cases forms.start

/-- Whatever bytes spell a lexeme form one. -/
theorem Lexeme.Spelled.forms {taken : Bytes} {lexeme : Lexeme Bytes}
    (spelled : Spelled taken lexeme) : ∃ start, taken.Forms start := by
  cases spelled with
  | keyword word => exact ⟨_, .word (Bytes.isWord_of_mem_reserved word.mem_reserved)⟩
  | typeName word => exact ⟨_, .word (Bytes.isWord_of_mem_reserved word.mem_reserved)⟩
  | boolean value =>
      exact ⟨_, .word (Bytes.isWord_of_mem_reserved (Bytes.boolean_mem_reserved value))⟩
  | identifier isWord _ => exact ⟨_, .word isWord⟩
  | integer isDigits _ => exact ⟨_, .integer isDigits⟩
  | decimal isDigits digits _ => exact ⟨_, .decimal isDigits digits⟩
  | string isQuotable => exact ⟨_, .string isQuotable⟩
  | punct mark => exact ⟨_, .punct mark⟩

theorem Lexeme.Spelled.isName {taken word : Bytes} (spelled : Spelled taken (.identifier word)) :
    taken = word ∧ word.IsName := by
  cases spelled with
  | identifier isWord free => exact ⟨rfl, isWord, free⟩

namespace Bytes.Forms

variable {start other : Start} {text more : Bytes}

/-- However a lexeme goes on, more bytes behind it leave it a lexeme of the same start at best. -/
theorem start_eq (forms : text.Forms start) (longer : (text ++ more).Forms other) :
    other = start := by
  have same := longer.start
  rw [List.head?_append, Option.or_of_isSome (by simpa using forms.ne_nil), forms.start] at same
  exact (Option.some.inj same).symm

theorem isWord (forms : text.Forms .letter) : text.IsWord := by
  cases forms with
  | word isWord => exact isWord

theorem isNumber (forms : text.Forms .digit) :
    text.IsDigits ∨ ∃ whole fraction : Bytes, text = whole ++ Byte.dot :: fraction ∧
      whole.IsDigits ∧ ∀ byte ∈ fraction, byte.isDigit := by
  cases forms with
  | integer isDigits => exact .inl isDigits
  | decimal isDigits digits => exact .inr ⟨_, _, rfl, isDigits, digits⟩

theorem isString (forms : text.Forms .quote) :
    ∃ body : Bytes, text = Byte.quote :: body ++ [Byte.quote] ∧ body.IsQuotable := by
  cases forms with
  | string isQuotable => exact ⟨_, rfl, isQuotable⟩

theorem isMark (forms : text.Forms .mark) : ∃ mark : Punct, text = ofText mark.spelling := by
  cases forms with
  | punct mark => exact ⟨mark, rfl⟩

end Bytes.Forms

namespace Bytes

/-- Bytes of a class at the front of others stop where the first of those is not in the class. -/
theorem eq_nil_of_ends {accepts : Byte → Bool} {more others : Bytes} (ahead : more <+: others)
    (accepted : ∀ byte ∈ more, accepts byte)
    (ends : ∀ next ∈ others.head?, accepts next = false) : more = [] := by
  cases more with
  | nil => rfl
  | cons next more =>
      rcases ahead with ⟨rest, rfl⟩
      have refused := ends next rfl
      rw [accepted next List.mem_cons_self] at refused
      cases refused

/-- The digits before the dot of a number end at the dot. -/
theorem whole_eq {whole fraction other rest : Bytes} (digits : ∀ byte ∈ whole, byte.isDigit)
    (otherDigits : ∀ byte ∈ other, byte.isDigit)
    (same : whole ++ Byte.dot :: fraction = other ++ Byte.dot :: rest) :
    whole = other ∧ fraction = rest := by
  have taken := congrArg (List.takeWhile Byte.isDigit) same
  rw [List.takeWhile_append_of_pos digits, List.takeWhile_append_of_pos otherDigits,
    List.takeWhile_cons_of_neg (by decide), List.takeWhile_cons_of_neg (by decide),
    List.append_nil, List.append_nil] at taken
  subst taken
  exact ⟨rfl, (List.cons.inj (List.append_cancel_left same)).2⟩

end Bytes

namespace Lexeme

variable {taken others more : Bytes} {lexeme : Lexeme Bytes} {start : Start}

theorem longest_word (isWord : taken.IsWord)
    (ends : ∀ next ∈ others.head?, next.continuesName = false) (ahead : more <+: others)
    (longer : (taken ++ more).Forms start) : more = [] := by
  obtain rfl := (Bytes.Forms.word isWord).start_eq longer
  apply Bytes.eq_nil_of_ends ahead _ ends
  intro byte member
  exact longer.isWord.2 byte (List.mem_append_right taken member)

theorem longest_integer (isDigits : taken.IsDigits)
    (ends : ∀ next ∈ others.head?, next.isDigit = false ∧ next ≠ Byte.dot)
    (ahead : more <+: others) (longer : (taken ++ more).Forms start) : more = [] := by
  obtain rfl := (Bytes.Forms.integer isDigits).start_eq longer
  cases more with
  | nil => rfl
  | cons next more =>
      rcases ahead with ⟨rest, rfl⟩
      rcases ends next rfl with ⟨notDigit, notDot⟩
      rcases longer.isNumber with allDigits | ⟨whole, fraction, split, wholeDigits, _⟩
      · rw [allDigits.2 next (by simp)] at notDigit
        cases notDigit
      · have passed := congrArg (List.takeWhile Byte.isDigit) split
        rw [List.takeWhile_append_of_pos isDigits.2, List.takeWhile_append_of_pos wholeDigits.2,
          List.takeWhile_cons_of_neg (by simp [notDigit]), List.takeWhile_cons_of_neg (by decide),
          List.append_nil, List.append_nil] at passed
        subst passed
        exact absurd (List.cons.inj (List.append_cancel_left split)).1 notDot

theorem longest_decimal {whole fraction : Bytes} (isDigits : whole.IsDigits)
    (digits : ∀ byte ∈ fraction, byte.isDigit)
    (ends : ∀ next ∈ others.head?, next.isDigit = false) (ahead : more <+: others)
    (longer : ((whole ++ Byte.dot :: fraction) ++ more).Forms start) : more = [] := by
  obtain rfl := (Bytes.Forms.decimal isDigits digits).start_eq longer
  rcases longer.isNumber with allDigits | ⟨otherWhole, rest, split, wholeDigits, restDigits⟩
  · have isDigit := allDigits.2 Byte.dot (by simp)
    cases isDigit
  · rw [List.append_assoc, List.cons_append] at split
    rcases Bytes.whole_eq isDigits.2 wholeDigits.2 split with ⟨_, rfl⟩
    apply Bytes.eq_nil_of_ends ahead _ ends
    intro byte member
    exact restDigits byte (List.mem_append_right fraction member)

theorem longest_string {body : Bytes} (isQuotable : body.IsQuotable)
    (longer : Bytes.Forms start ((Byte.quote :: body ++ [Byte.quote]) ++ more)) : more = [] := by
  obtain rfl := (Bytes.Forms.string isQuotable).start_eq longer
  rcases longer.isString with ⟨other, split, otherQuotable⟩
  rcases List.eq_nil_or_concat more with rfl | ⟨more, last, rfl⟩
  · rfl
  · have inner : (body ++ Byte.quote :: more) ++ [last] = other ++ [Byte.quote] := by
      simpa using split
    rcases List.append_inj' inner rfl with ⟨rfl, _⟩
    exact absurd (otherQuotable.escaped body more rfl) isQuotable.closable

theorem longest_punct {mark : Punct}
    (ends : ∀ next ∈ others.head?, mark.fused?.isSome → next ≠ Byte.equals)
    (ahead : more <+: others) (longer : (Bytes.ofText mark.spelling ++ more).Forms start) :
    more = [] := by
  obtain rfl := (Bytes.Forms.punct mark).start_eq longer
  rcases longer.isMark with ⟨other, split⟩
  rcases mark.fused_of_extends other ⟨more, split⟩ with rfl | ⟨fused, spelling_eq⟩
  · exact List.append_cancel_left (split.trans (List.append_nil _).symm)
  · rw [spelling_eq] at split
    obtain rfl := List.append_cancel_left split
    rcases ahead with ⟨rest, rfl⟩
    exact absurd rfl (ends Byte.equals rfl (by simp [fused]))

/-- With nothing behind it that continues it, a lexeme is the longest one at its place. -/
theorem Spelled.longest (spelled : Spelled taken lexeme) (ends : lexeme.Ends others)
    (ahead : more <+: others) (longer : (taken ++ more).Forms start) : more = [] := by
  cases spelled with
  | keyword word =>
      exact longest_word (Bytes.isWord_of_mem_reserved word.mem_reserved) ends ahead longer
  | typeName word =>
      exact longest_word (Bytes.isWord_of_mem_reserved word.mem_reserved) ends ahead longer
  | boolean value =>
      exact longest_word (Bytes.isWord_of_mem_reserved (Bytes.boolean_mem_reserved value)) ends
        ahead longer
  | identifier isWord _ => exact longest_word isWord ends ahead longer
  | integer isDigits _ => exact longest_integer isDigits ends ahead longer
  | decimal isDigits digits _ => exact longest_decimal isDigits digits ends ahead longer
  | string isQuotable => exact longest_string isQuotable longer
  | punct mark => exact longest_punct ends ahead longer

end Lexeme

end TypedLang
