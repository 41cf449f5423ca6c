import TypedLang.Bytes
import TypedLang.Span

/-!
# Sources

A source is a named text. Its line table holds one span per line without the newline; the newline
belongs to the line that it ends, and a text that ends in a newline has no empty line behind it. The
line of an offset is found by binary search in that table, and a location counts lines and columns
from one. A registry numbers the sources of a run in the order in which they were added.
-/

namespace TypedLang

/-- The number of a source in its registry. -/
abbrev SourceId := Nat

/-- A place in a source, line and column counted from one. -/
structure Location where
  line : Nat
  column : Nat
  deriving Repr, DecidableEq

/-- A named text. -/
structure Source where
  name : Bytes
  text : Bytes
  deriving Repr, DecidableEq

namespace Source

/--
The lines of a text that starts at offset `position`, when the current line started `length` bytes
before it. A last line without newline counts unless it is empty.
-/
def linesFrom (position length : Nat) : Bytes → List Span
  | [] =>
      if length = 0 then [] else [.ofLength (position - length) length]
  | byte :: rest =>
      if byte = Byte.newline then
        .ofLength (position - length) length :: linesFrom (position + 1) 0 rest
      else
        linesFrom (position + 1) (length + 1) rest

/-- One span for every line of a source, newlines left out. -/
def lines (source : Source) : List Span :=
  linesFrom 0 0 source.text

/-- The bytes of a span, if it ends inside the source. -/
def slice (source : Source) (span : Span) : Option Bytes :=
  if source.text.length < span.stop then none
  else some ((source.text.drop span.start).take span.length)

/--
The first position in `[low, low + width)` whose line ends at or behind an offset, or `low + width`
if there is none. The table is in ascending order, so halving the range keeps the answer in it.
-/
def searchLine (table : Array Span) (offset low width : Nat) : Nat :=
  if width = 0 then low
  else
    let half := width / 2
    match table[low + half]? with
    | none => low
    | some line =>
        if line.stop < offset then searchLine table offset (low + half + 1) (width - half - 1)
        else searchLine table offset low half
termination_by width
decreasing_by all_goals omega

/--
The line that contains an offset, counted from zero. The end of the text belongs to the last line
even behind a final newline; an empty text has no lines.
-/
def lineContaining (source : Source) (offset : Nat) : Option Nat :=
  if source.text.length < offset then none
  else
    let table := source.lines.toArray
    if table.size = 0 then none
    else
      let found := searchLine table offset 0 table.size
      match table[found]? with
      | none => some (table.size - 1)
      | some line => if line.contains offset then some found else none

/-- The first and the last line that a span touches, if both its bounds lie inside the source. -/
def lineSpan (source : Source) (span : Span) : Except Fault (Option Span) :=
  match source.lineContaining span.start, source.lineContaining span.stop with
  | some first, some last => (Span.ofBounds first last).map some
  | _, _ => .ok none

/-- The line and column of an offset. -/
def location (source : Source) (offset : Nat) : Option Location := do
  let line ← source.lineContaining offset
  let span ← source.lines[line]?
  pure ⟨line + 1, offset - span.start + 1⟩

end Source

/-- The sources of a run, the source with number `k` at position `k`. -/
structure Registry where
  sources : List Source := []
  deriving Repr, DecidableEq

namespace Registry

/-- The registry without sources. -/
def empty : Registry := {}

/-- The number of sources. -/
def size (registry : Registry) : Nat :=
  registry.sources.length

/-- Whether a number was given to a source. -/
def contains (registry : Registry) (id : SourceId) : Bool :=
  id < registry.size

/-- The number of a new source and the registry that holds it. -/
def add (registry : Registry) (name text : Bytes) : SourceId × Registry :=
  (registry.size, ⟨registry.sources ++ [⟨name, text⟩]⟩)

/-- The source with a number, refused for a number that was not given. -/
def get (registry : Registry) (id : SourceId) : Except Fault Source :=
  match registry.sources[id]? with
  | some source => .ok source
  | none => .error (.unknownSource id)

end Registry

end TypedLang
