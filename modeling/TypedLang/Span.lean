import TypedLang.Fault

/-!
# Spans

A span is a range of byte offsets inside one source. It holds the bytes from its start up to, but
not including, its stop; the start never lies behind the stop. Two tests count both bounds in: a
span contains the offset at its stop, and two spans that merely touch intersect.
-/

namespace TypedLang

/-- A range of byte offsets, the stop excluded. -/
structure Span where
  start : Nat
  stop : Nat
  start_le_stop : start ≤ stop := by omega
  deriving Repr, DecidableEq

namespace Span

@[ext]
theorem eq_of_bounds {left right : Span} (start_eq : left.start = right.start)
    (stop_eq : left.stop = right.stop) : left = right := by
  cases left
  cases right
  simp_all

/-- The span with the given bounds, refused when they are swapped. -/
def ofBounds (start stop : Nat) : Except Fault Span :=
  if ordered : start ≤ stop then .ok ⟨start, stop, ordered⟩ else .error .spanReversed

/-- The empty span at an offset. -/
def single (offset : Nat) : Span :=
  ⟨offset, offset, Nat.le_refl offset⟩

/-- The span of a number of bytes from an offset on. -/
def ofLength (start length : Nat) : Span :=
  ⟨start, start + length, Nat.le_add_right start length⟩

/-- The least span that covers two spans and all between them. -/
def combine (left right : Span) : Span where
  start := min left.start right.start
  stop := max left.stop right.stop
  start_le_stop := by
    have := left.start_le_stop
    omega

/-- The number of bytes in a span. -/
def length (span : Span) : Nat :=
  span.stop - span.start

/-- Whether a span holds no byte. -/
def isEmpty (span : Span) : Bool :=
  span.start == span.stop

/-- Whether two spans share an offset, both bounds counted in. -/
def intersects (left right : Span) : Bool :=
  right.start ≤ left.stop && left.start ≤ right.stop

/-- Whether an offset lies between the bounds of a span, both counted in. -/
def contains (span : Span) (offset : Nat) : Bool :=
  span.start ≤ offset && offset ≤ span.stop

end Span

end TypedLang
