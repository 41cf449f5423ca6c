/-!
# Faults

A fault is a misuse of the library by its caller: an unknown identifier of a source, a name or a
symbol, a span whose bounds are swapped, a report that lacks a part. Mistakes in the program text
that is being compiled are never faults; they are reported as diagnostics.
-/

namespace TypedLang

/-- The ways in which a caller can misuse the library. -/
inductive Fault where
  | spanReversed
  | unknownSource (id : Nat)
  | unknownKey
  | unknownSymbol
  | exitGlobalScope
  | missingMessage
  | missingCode
  | missingSeverity
  | overlappingLabels
  deriving Repr, DecidableEq

namespace Fault

/-- The one-line explanation of a fault. -/
def message : Fault → String
  | spanReversed => "span end must not precede its start"
  | unknownSource id => "unknown source id " ++ Nat.repr id
  | unknownKey => "unknown intern key"
  | unknownSymbol => "unknown symbol id"
  | exitGlobalScope => "cannot exit the global scope"
  | missingMessage => "report is missing a message"
  | missingCode => "report is missing a code"
  | missingSeverity => "report is missing a severity"
  | overlappingLabels => "report labels must not overlap"

end Fault

end TypedLang
