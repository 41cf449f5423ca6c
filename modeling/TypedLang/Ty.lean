import TypedLang.Binary64

/-!
# Types and their rules

The values of the language are integers of four widths with or without sign, decimals of two
widths and booleans. This module holds the rules that relate types to each other: which type may
stand where another is expected, and which type an operator yields.
-/

namespace TypedLang

/-- The widths of an integer type. -/
inductive IntegerWidth where
  | bits8 | bits16 | bits32 | bits64
  deriving Repr, DecidableEq

namespace IntegerWidth

/-- The number of bits of a width. -/
def bits : IntegerWidth → Nat
  | bits8 => 8
  | bits16 => 16
  | bits32 => 32
  | bits64 => 64

/-- The wider of two widths. -/
def max (left right : IntegerWidth) : IntegerWidth :=
  if left.bits ≤ right.bits then right else left

/-- The width of twice as many bits, which the widest one lacks. -/
def double? : IntegerWidth → Option IntegerWidth
  | bits8 => some bits16
  | bits16 => some bits32
  | bits32 => some bits64
  | bits64 => none

end IntegerWidth

/-- The widths of a decimal type. -/
inductive DecimalWidth where
  | bits32 | bits64
  deriving Repr, DecidableEq

namespace DecimalWidth

/-- The number of bits of a width. -/
def bits : DecimalWidth → Nat
  | bits32 => 32
  | bits64 => 64

/-- The wider of two widths. -/
def max (left right : DecimalWidth) : DecimalWidth :=
  if left.bits ≤ right.bits then right else left

end DecimalWidth

/-- Whether an integer type has negative values. -/
inductive Signedness where
  | signed | unsigned
  deriving Repr, DecidableEq

/-- The types of the language. -/
inductive Ty where
  | integer (signedness : Signedness) (width : IntegerWidth)
  | decimal (width : DecimalWidth)
  | boolean
  deriving Repr, DecidableEq

namespace Ty

/-- The name of a type. -/
def name : Ty → String
  | integer .unsigned width => "u" ++ Nat.repr width.bits
  | integer .signed width => "i" ++ Nat.repr width.bits
  | decimal width => "f" ++ Nat.repr width.bits
  | boolean => "bool"

/--
Whether a value of one type may initialise a variable or stand for a parameter of another. A value
never changes its category, and the target must hold every value of the origin: an unsigned integer
fits into a strictly wider signed one, a signed integer into no unsigned one.
-/
def isAssignable : (origin target : Ty) → Bool
  | boolean, boolean => true
  | decimal origin, decimal target => origin.bits ≤ target.bits
  | integer .signed origin, integer .signed target => origin.bits ≤ target.bits
  | integer .unsigned origin, integer .unsigned target => origin.bits ≤ target.bits
  | integer .unsigned origin, integer .signed target => origin.bits < target.bits
  | _, _ => false

/-- The type of a test for equality: operands of one category can be compared at any width. -/
def equality? : (left right : Ty) → Option Ty
  | integer _ _, integer _ _ => some boolean
  | decimal _, decimal _ => some boolean
  | boolean, boolean => some boolean
  | _, _ => none

/-- The type of a comparison by size, which booleans do not have. -/
def comparison? : (left right : Ty) → Option Ty
  | integer _ _, integer _ _ => some boolean
  | decimal _, decimal _ => some boolean
  | _, _ => none

/--
The type of a sum, difference, product or quotient. Operands of one kind promote to the wider one.
An unsigned operand beside a signed one needs a signed type of more bits than it has, which the
widest unsigned type lacks.
-/
def arithmetic? : (left right : Ty) → Option Ty
  | integer .signed left, integer .signed right => some (integer .signed (left.max right))
  | integer .unsigned left, integer .unsigned right => some (integer .unsigned (left.max right))
  | integer .signed left, integer .unsigned right =>
      right.double?.map fun doubled => integer .signed (left.max doubled)
  | integer .unsigned left, integer .signed right =>
      left.double?.map fun doubled => integer .signed (right.max doubled)
  | decimal left, decimal right => some (decimal (left.max right))
  | _, _ => none

/-- The type of a negated number, which unsigned integers do not have. -/
def negation? : Ty → Option Ty
  | integer .signed width => some (integer .signed width)
  | decimal width => some (decimal width)
  | _ => none

/-- The type of a logical complement, which only booleans have. -/
def complement? : Ty → Option Ty
  | boolean => some boolean
  | _ => none

/-- The type of an integer literal: the narrowest unsigned one that holds its value. -/
def ofInteger (value : UInt64) : Ty :=
  if value.toNat < powerOfTwo 8 then integer .unsigned .bits8
  else if value.toNat < powerOfTwo 16 then integer .unsigned .bits16
  else if value.toNat < powerOfTwo 32 then integer .unsigned .bits32
  else integer .unsigned .bits64

/-- The bits of the largest finite number that a decimal of 32 bits holds. -/
def largestSingle : Nat := 0x47EFFFFFE0000000

/--
The type of a decimal literal: the narrow one when the magnitude does not exceed its largest number,
whether or not the narrow type can tell the value from its neighbours.
-/
def ofDecimal (value : Binary64) : Ty :=
  if value.magnitudeBits ≤ largestSingle then decimal .bits32 else decimal .bits64

end Ty

end TypedLang
