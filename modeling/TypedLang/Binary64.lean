/-!
# Binary floating point of 64 bits

A decimal literal denotes a number in the binary interchange format of 64 bits. Such a number is
held as its bits: a sign, eleven bits of exponent and a fraction of 52 bits. Every magnitude is
counted in units of the least positive number, `2 ^ (-1074)`, so that reading a literal is one
exact division of natural numbers, rounded once to the nearest value with ties to the even one.
-/

namespace TypedLang

/-- The powers of two. -/
def powerOfTwo (exponent : Nat) : Nat :=
  Nat.pow 2 exponent

/-- The powers of ten. -/
def powerOfTen (exponent : Nat) : Nat :=
  Nat.pow 10 exponent

/-- Rounds a quotient to the nearest natural number; a half goes to the even neighbour. -/
def roundQuotient (numerator denominator : Nat) : Nat :=
  let quotient := numerator / denominator
  let rest := numerator % denominator
  if denominator < 2 * rest ∨ (2 * rest = denominator ∧ quotient % 2 = 1) then quotient + 1
  else quotient

/-- A floating-point number of 64 bits. -/
structure Binary64 where
  bits : UInt64
  deriving Repr, DecidableEq

namespace Binary64

/-- The number of bits of the fraction. -/
def fractionBits : Nat := 52

/-- The exponent field that infinities and the values that are no numbers share. -/
def topExponent : Nat := 2047

/-- The number of least units in one. -/
def unitsInOne : Nat := powerOfTwo 1074

/-- Whether the sign bit is set. -/
def isNegative (value : Binary64) : Bool :=
  powerOfTwo 63 ≤ value.bits.toNat

/-- The bits without the sign, as a number; they grow with the magnitude. -/
def magnitudeBits (value : Binary64) : Nat :=
  value.bits.toNat % powerOfTwo 63

/-- The exponent field. -/
def exponent (value : Binary64) : Nat :=
  value.magnitudeBits / powerOfTwo fractionBits

/-- The fraction field. -/
def fraction (value : Binary64) : Nat :=
  value.magnitudeBits % powerOfTwo fractionBits

/-- The magnitude of a finite number, counted in units of the least positive one. -/
def units (value : Binary64) : Nat :=
  if value.exponent = 0 then value.fraction
  else (powerOfTwo fractionBits + value.fraction) * powerOfTwo (value.exponent - 1)

/--
The bits of the number nearest to `numerator / denominator` units, among all multiples of the powers
of two that the format can tell apart; the result may lie beyond the finite numbers.

A quotient below `2 ^ 53` is rounded to a whole unit. Any other one is rounded to a multiple of
`2 ^ shift` that keeps 53 bits. Since a carry out of the fraction falls into the exponent field, one
addition serves both cases.
-/
def nearestBits (numerator denominator : Nat) : Nat :=
  let shift := (numerator / denominator).log2 - fractionBits
  shift * powerOfTwo fractionBits + roundQuotient numerator (denominator * powerOfTwo shift)

/--
The number nearest to `digits / 10 ^ places`, a tie going to the even neighbour. There is none if
rounding leads beyond the finite numbers or turns a number other than zero into zero.
-/
def ofDecimal? (digits places : Nat) : Option Binary64 :=
  let bits := nearestBits (digits * unitsInOne) (powerOfTen places)
  if topExponent * powerOfTwo fractionBits ≤ bits then none
  else if bits = 0 ∧ digits ≠ 0 then none
  else some ⟨UInt64.ofNat bits⟩

end Binary64

end TypedLang
