import TypedLang.Bytes
import TypedLang.Fault

/-!
# Interned texts

An interner gives every distinct text a small number, its key. Keys count up from zero in the order
in which texts are first seen, equal texts share one key, and a key once issued keeps its text.
Names and the bodies of string literals are interned alike.
-/

namespace TypedLang

/-- The number that stands for an interned text. -/
abbrev Key := Nat

/-- The texts seen so far, the text of key `k` at position `k`. -/
structure Interner where
  texts : List Bytes := []
  deriving Repr, DecidableEq

namespace Interner

/-- The interner that has seen no text. -/
def empty : Interner := {}

/-- The number of texts seen. -/
def size (interner : Interner) : Nat :=
  interner.texts.length

/-- The key of a text, if it was interned. -/
def find? (interner : Interner) (text : Bytes) : Option Key :=
  interner.texts.idxOf? text

/-- The key of a text and the interner that knows it. -/
def intern (interner : Interner) (text : Bytes) : Key × Interner :=
  match interner.find? text with
  | some key => (key, interner)
  | none => (interner.size, ⟨interner.texts ++ [text]⟩)

/-- The text of a key, refused for a key that was not issued. -/
def resolve (interner : Interner) (key : Key) : Except Fault Bytes :=
  match interner.texts[key]? with
  | some text => .ok text
  | none => .error .unknownKey

/-- The text of a key, empty for a key that was not issued. -/
def textOf (interner : Interner) (key : Key) : Bytes :=
  interner.texts.getD key []

end Interner

end TypedLang
