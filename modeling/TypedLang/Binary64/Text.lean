import TypedLang.Binary64
import TypedLang.Bytes

/-!
# Printed floating-point numbers

A floating-point number is printed with at most six significant digits, rounded from its exact
value. Zeros at the end of the fraction are left out. Numbers below `0.0001` and numbers that
would need more than six digits before the point are written with a power of ten.
-/

namespace TypedLang

namespace Binary64

/-- The number of significant digits that are printed. -/
def significantDigits : Nat := 6

/-- The least power of ten of a leading digit that is still written without an exponent. -/
def leastPositionalExponent : Int := -4

/-- The least number of digits in an exponent. -/
def exponentDigits : Nat := 2

/-- A decimal number `d.ddddd * 10 ^ exponent`, its digits given as one number. -/
structure Scientific where
  digits : Nat
  exponent : Int
  deriving Repr, DecidableEq

/-- The number of digits of a number in base ten. -/
def digitCount (number : Nat) : Nat :=
  (Nat.toDigits 10 number).length

/-- The power of ten of the leading digit of `numerator / denominator`, which is not zero. -/
def leadingExponent (numerator denominator : Nat) : Int :=
  if denominator ≤ numerator then
    (digitCount (numerator / denominator) : Int) - 1
  else
    -(digitCount ((denominator + numerator - 1) / numerator - 1) : Int)

/-- The first significant digits of `numerator / denominator`, a tie going to the even neighbour. -/
def Scientific.ofQuotient (numerator denominator : Nat) : Scientific :=
  let exponent := leadingExponent numerator denominator
  let scale : Int := (significantDigits : Int) - 1 - exponent
  let digits :=
    if 0 ≤ scale then roundQuotient (numerator * powerOfTen scale.toNat) denominator
    else roundQuotient numerator (denominator * powerOfTen (-scale).toNat)
  if digits = powerOfTen significantDigits then
    ⟨powerOfTen (significantDigits - 1), exponent + 1⟩
  else ⟨digits, exponent⟩

/-- A text without the zeros at its end. -/
def trimZeros (digits : Bytes) : Bytes :=
  (digits.reverse.dropWhile (· == Byte.zero)).reverse

/-- The digits before and after a point; a fraction without digits has no point either. -/
def withPoint (whole fraction : Bytes) : Bytes :=
  match trimZeros fraction with
  | [] => whole
  | fraction => Bytes.concat [whole, ".", fraction]

/-- An exponent with its sign and at least two digits. -/
def exponentText (exponent : Int) : Bytes :=
  let digits := Bytes.ofNat exponent.natAbs
  Bytes.concat [if exponent < 0 then "e-" else "e+",
    List.replicate (exponentDigits - digits.length) Byte.zero, digits]

/-- The printed form of a decimal number. -/
def Scientific.text (number : Scientific) : Bytes :=
  let digits := Bytes.ofNat number.digits
  if number.exponent < leastPositionalExponent ∨ (significantDigits : Int) ≤ number.exponent then
    withPoint (digits.take 1) (digits.drop 1) ++ exponentText number.exponent
  else if number.exponent < 0 then
    let zeros := List.replicate (number.exponent.natAbs - 1) Byte.zero
    withPoint "0" (zeros ++ digits)
  else
    let whole := number.exponent.toNat + 1
    withPoint (digits.take whole) (digits.drop whole)

/-- The printed form of a magnitude. -/
def magnitudeText (value : Binary64) : Bytes :=
  if value.exponent = topExponent then
    if value.fraction = 0 then "inf" else "nan"
  else if value.units = 0 then "0"
  else (Scientific.ofQuotient value.units unitsInOne).text

/-- The printed form of a floating-point number. -/
def text (value : Binary64) : Bytes :=
  if value.isNegative then "-" ++ value.magnitudeText else value.magnitudeText

end Binary64

end TypedLang
