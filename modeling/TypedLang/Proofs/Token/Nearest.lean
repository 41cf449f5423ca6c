import Mathlib.Algebra.Order.Ring.Nat
import Mathlib.Tactic.Ring
import TypedLang.Binary64

/-!
# Nearest numbers

The bits of a number without a sign count the numbers that the format can tell apart, from zero
upwards, also beyond the finite ones. A quotient is rounded to that one of them that is nearest to
it. Of two that are equally near, one has even bits, and that one is taken.

Magnitudes are counted in least units, and a quotient is never divided out: the distance to it is
that of the products with its denominator.
-/

namespace TypedLang

@[simp]
theorem powerOfTwo_eq (exponent : Nat) : powerOfTwo exponent = 2 ^ exponent :=
  rfl

namespace Binary64

/-- The magnitude that some bits stand for, counted in least units, whatever their exponent. -/
def unitsOf (bits : Nat) : Nat :=
  if bits / powerOfTwo fractionBits = 0 then bits % powerOfTwo fractionBits
  else (powerOfTwo fractionBits + bits % powerOfTwo fractionBits) *
    powerOfTwo (bits / powerOfTwo fractionBits - 1)

theorem units_eq (value : Binary64) : value.units = unitsOf value.magnitudeBits :=
  rfl

/-- How far a number of units is from a quotient, times the denominator of the quotient. -/
def distance (units numerator denominator : Nat) : Nat :=
  (((units * denominator : Nat) : Int) - numerator).natAbs

/-- Some bits are those of the number nearest to a quotient, ties going to even bits. -/
structure IsNearest (bits numerator denominator : Nat) : Prop where
  nearest : ∀ other, distance (unitsOf bits) numerator denominator ≤
    distance (unitsOf other) numerator denominator
  even : ∀ other ≠ bits, distance (unitsOf other) numerator denominator =
    distance (unitsOf bits) numerator denominator → bits % 2 = 0

theorem unitsOf_fields {exponent fraction : Nat} (lt : fraction < 2 ^ 52) :
    unitsOf (exponent * 2 ^ 52 + fraction) =
      if exponent = 0 then fraction else (2 ^ 52 + fraction) * 2 ^ (exponent - 1) := by
  have exponent_eq : (exponent * 2 ^ 52 + fraction) / 2 ^ 52 = exponent := by omega
  have fraction_eq : (exponent * 2 ^ 52 + fraction) % 2 ^ 52 = fraction := by omega
  simp only [unitsOf, powerOfTwo_eq, fractionBits, exponent_eq, fraction_eq]

theorem exists_fields (bits : Nat) :
    ∃ exponent fraction, bits = exponent * 2 ^ 52 + fraction ∧ fraction < 2 ^ 52 :=
  ⟨bits / 2 ^ 52, bits % 2 ^ 52, by omega, by omega⟩

/-- A significand above the bits of an exponent stands for a multiple of a power of two. -/
theorem unitsOf_add {shift significand : Nat} (le : significand ≤ 2 ^ 53)
    (normal : shift = 0 ∨ 2 ^ 52 ≤ significand) :
    unitsOf (shift * 2 ^ 52 + significand) = significand * 2 ^ shift := by
  rcases Nat.lt_or_ge significand (2 ^ 52) with subnormal | above
  · obtain rfl : shift = 0 := by omega
    rw [unitsOf_fields subnormal, if_pos rfl, Nat.pow_zero, Nat.mul_one]
  · rcases Nat.lt_or_ge significand (2 ^ 53) with fits | carries
    · have fields :
          shift * 2 ^ 52 + significand = (shift + 1) * 2 ^ 52 + (significand - 2 ^ 52) := by
        omega
      rw [fields, unitsOf_fields (by omega), if_neg (Nat.succ_ne_zero shift),
        Nat.add_sub_cancel' above, Nat.add_sub_cancel]
    · obtain rfl : significand = 2 ^ 53 := by omega
      have fields : shift * 2 ^ 52 + 2 ^ 53 = (shift + 2) * 2 ^ 52 + 0 := by omega
      rw [fields, unitsOf_fields (by omega), if_neg (Nat.succ_ne_zero _)]
      simp only [Nat.add_zero, Nat.succ_sub_one, Nat.pow_succ]
      ring

theorem unitsOf_lt_succ (bits : Nat) : unitsOf bits < unitsOf (bits + 1) := by
  rcases exists_fields bits with ⟨exponent, fraction, rfl, lt⟩
  have positive : 0 < 2 ^ (exponent - 1) := Nat.two_pow_pos _
  rcases Nat.lt_or_ge (fraction + 1) (2 ^ 52) with fits | carries
  · rw [Nat.add_assoc, unitsOf_fields lt, unitsOf_fields fits]
    split
    · exact Nat.lt_succ_self fraction
    · exact Nat.mul_lt_mul_of_pos_right (by omega) positive
  · have fields : exponent * 2 ^ 52 + fraction + 1 = (exponent + 1) * 2 ^ 52 + 0 := by omega
    rw [fields, unitsOf_fields lt, unitsOf_fields (by omega), if_neg (Nat.succ_ne_zero exponent),
      Nat.add_sub_cancel, Nat.add_zero]
    cases exponent with
    | zero => simpa using lt
    | succ exponent =>
        have doubled : 2 ^ 52 * 2 ^ (exponent + 1) = (2 ^ 52 * 2) * 2 ^ exponent := by ring
        rw [if_neg (Nat.succ_ne_zero exponent), Nat.add_sub_cancel, doubled]
        exact Nat.mul_lt_mul_of_pos_right (by omega) (Nat.two_pow_pos _)

theorem unitsOf_strictMono : StrictMono unitsOf :=
  strictMono_nat_of_lt_succ unitsOf_lt_succ

/-- The magnitudes from a power of two on are multiples of the step between them. -/
theorem dvd_unitsOf_or_lt (shift bits : Nat) :
    2 ^ shift ∣ unitsOf bits ∨ unitsOf bits < 2 ^ 52 * 2 ^ shift := by
  rcases exists_fields bits with ⟨exponent, fraction, rfl, lt⟩
  rw [unitsOf_fields lt]
  split
  · right
    exact Nat.lt_of_lt_of_le lt (Nat.le_mul_of_pos_right _ (Nat.two_pow_pos shift))
  · rename_i normal
    rcases Nat.lt_or_ge shift exponent with above | below
    · left
      exact Nat.dvd_mul_left_of_dvd (Nat.pow_dvd_pow 2 (by omega)) _
    · right
      have step : 2 ^ (exponent - 1) * 2 ≤ 2 ^ shift := by
        rw [← Nat.pow_succ]
        exact Nat.pow_le_pow_right Nat.two_pos (by omega)
      have positive : 0 < 2 ^ (exponent - 1) := Nat.two_pow_pos _
      calc
        (2 ^ 52 + fraction) * 2 ^ (exponent - 1) < (2 ^ 52 * 2) * 2 ^ (exponent - 1) :=
          Nat.mul_lt_mul_of_pos_right (by omega) positive
        _ = 2 ^ 52 * (2 ^ (exponent - 1) * 2) := by ring
        _ ≤ 2 ^ 52 * 2 ^ shift := Nat.mul_le_mul_left _ step

section Quotient

variable {denominator rest quotient other : Nat}

theorem distance_quotient :
    distance quotient (denominator * quotient + rest) denominator = rest := by
  simp only [distance, Nat.mul_comm quotient]
  omega

theorem distance_succ (lt : rest < denominator) :
    distance (quotient + 1) (denominator * quotient + rest) denominator = denominator - rest := by
  have product : (quotient + 1) * denominator = denominator * quotient + denominator := by ring
  rw [distance, product]
  omega

theorem distance_of_lt (denominator rest : Nat) (lt : other < quotient) :
    rest + denominator ≤ distance other (denominator * quotient + rest) denominator := by
  have far : (other + 1) * denominator ≤ quotient * denominator := Nat.mul_le_mul_right _ lt
  rw [Nat.succ_mul, Nat.mul_comm quotient] at far
  simp only [distance]
  omega

theorem distance_of_gt (gt : quotient + 1 < other) (lt : rest < denominator) :
    denominator - rest + denominator ≤
      distance other (denominator * quotient + rest) denominator := by
  have far : (quotient + 2) * denominator ≤ other * denominator := Nat.mul_le_mul_right _ gt
  have product : (quotient + 2) * denominator =
      denominator * quotient + denominator + denominator := by ring
  rw [product] at far
  simp only [distance]
  omega

end Quotient

/-- Other numbers are further from a quotient than the rounded one, or as far and that is even. -/
theorem roundQuotient_nearest {numerator denominator : Nat} (positive : 0 < denominator)
    {other : Nat} (ne : other ≠ roundQuotient numerator denominator) :
    distance (roundQuotient numerator denominator) numerator denominator <
        distance other numerator denominator ∨
      (distance (roundQuotient numerator denominator) numerator denominator =
          distance other numerator denominator ∧
        roundQuotient numerator denominator % 2 = 0) := by
  have split := Nat.div_add_mod numerator denominator
  have rest_lt := Nat.mod_lt numerator positive
  simp only [roundQuotient] at ne ⊢
  generalize numerator / denominator = quotient at *
  generalize numerator % denominator = rest at *
  subst split
  have placed : other < quotient ∨ other = quotient ∨ other = quotient + 1 ∨
      quotient + 1 < other := by
    omega
  by_cases up : denominator < 2 * rest ∨ (2 * rest = denominator ∧ quotient % 2 = 1)
  · rw [if_pos up] at ne ⊢
    rw [distance_succ rest_lt]
    rcases placed with lt | rfl | rfl | gt
    · have far := distance_of_lt denominator rest lt
      omega
    · rw [distance_quotient]
      omega
    · exact absurd rfl ne
    · have far := distance_of_gt gt rest_lt
      omega
  · rw [if_neg up] at ne ⊢
    rw [distance_quotient]
    rcases placed with lt | rfl | rfl | gt
    · have far := distance_of_lt denominator rest lt
      omega
    · exact absurd rfl ne
    · rw [distance_succ rest_lt]
      omega
    · have far := distance_of_gt gt rest_lt
      omega

/-- Below a quotient, a number is further from it than a greater one. -/
theorem distance_of_below {numerator denominator units least : Nat} (positive : 0 < denominator)
    (reached : least * denominator ≤ numerator) (below : units < least) :
    distance least numerator denominator < distance units numerator denominator := by
  have further := Nat.mul_lt_mul_of_pos_right below positive
  simp only [distance]
  omega

theorem distance_mul (units step numerator denominator : Nat) :
    distance (units * step) numerator denominator =
      distance units numerator (denominator * step) := by
  rw [distance, distance, Nat.mul_assoc, Nat.mul_comm step]

theorem le_roundQuotient (numerator denominator : Nat) :
    numerator / denominator ≤ roundQuotient numerator denominator ∧
      roundQuotient numerator denominator ≤ numerator / denominator + 1 := by
  simp only [roundQuotient]
  split <;> omega

/-- The significand of a rounded quotient fits, and it is a normal one above the least exponent. -/
theorem significand_bounds (numerator denominator : Nat) :
    let shift := (numerator / denominator).log2 - fractionBits
    numerator / (denominator * 2 ^ shift) < 2 ^ 53 ∧
      (shift = 0 ∨ 2 ^ 52 ≤ numerator / (denominator * 2 ^ shift)) := by
  intro shift
  have shift_eq : shift = (numerator / denominator).log2 - 52 := rfl
  rw [← Nat.div_div_eq_div_mul]
  generalize numerator / denominator = quotient at *
  constructor
  · rw [Nat.div_lt_iff_lt_mul (Nat.two_pow_pos shift), ← Nat.pow_add]
    exact Nat.lt_of_lt_of_le Nat.lt_log2_self (Nat.pow_le_pow_right Nat.two_pos (by omega))
  · rcases Nat.eq_zero_or_pos shift with none | some
    · exact .inl none
    · right
      have quotient_ne : quotient ≠ 0 := by
        rintro rfl
        simp [shift_eq] at some
      rw [Nat.le_div_iff_mul_le (Nat.two_pow_pos shift), ← Nat.pow_add,
        show 52 + shift = quotient.log2 by omega]
      exact Nat.log2_self_le quotient_ne

/-- Every other magnitude is further from a quotient, or as far and the bits are even. -/
theorem nearestBits_nearer {numerator denominator other : Nat} (positive : 0 < denominator)
    (ne : other ≠ nearestBits numerator denominator) :
    let bits := nearestBits numerator denominator
    distance (unitsOf bits) numerator denominator <
        distance (unitsOf other) numerator denominator ∨
      (distance (unitsOf bits) numerator denominator =
          distance (unitsOf other) numerator denominator ∧ bits % 2 = 0) := by
  intro bits
  have bounds := significand_bounds numerator denominator
  have rounded := le_roundQuotient numerator
    (denominator * 2 ^ ((numerator / denominator).log2 - fractionBits))
  have bits_eq : bits = ((numerator / denominator).log2 - fractionBits) * 2 ^ 52 +
      roundQuotient numerator
        (denominator * 2 ^ ((numerator / denominator).log2 - fractionBits)) := rfl
  have nearer := fun (other : Nat) => @roundQuotient_nearest numerator
    (denominator * 2 ^ ((numerator / denominator).log2 - fractionBits))
    (Nat.mul_pos positive (Nat.two_pow_pos _)) other
  generalize (numerator / denominator).log2 - fractionBits = shift at *
  generalize roundQuotient numerator (denominator * 2 ^ shift) = significand at *
  have units_eq : unitsOf bits = significand * 2 ^ shift := by
    rw [bits_eq]
    exact unitsOf_add (by omega) (by omega)
  have onGrid : 2 ^ shift ∣ unitsOf other ∨
      (2 ^ 52 ≤ numerator / (denominator * 2 ^ shift) ∧ unitsOf other < 2 ^ 52 * 2 ^ shift) := by
    rcases bounds.2 with rfl | normal
    · exact .inl (Nat.one_dvd _)
    · exact (dvd_unitsOf_or_lt shift other).imp id fun small => ⟨normal, small⟩
  rw [units_eq, distance_mul]
  rcases onGrid with ⟨factor, factor_eq⟩ | ⟨normal, small⟩
  · have factor_ne : factor ≠ significand := by
      rintro rfl
      apply ne
      apply unitsOf_strictMono.injective
      rw [factor_eq, Nat.mul_comm, ← units_eq]
    rw [factor_eq, Nat.mul_comm (2 ^ shift), distance_mul]
    rcases nearer factor factor_ne with closer | ⟨same, even⟩
    · exact .inl closer
    · exact .inr ⟨same, by omega⟩
  · left
    -- A finer magnitude is below the least normal significand, which is no further from the
    -- quotient than the rounded one.
    have reached : 2 ^ 52 * (denominator * 2 ^ shift) ≤ numerator :=
      (Nat.le_div_iff_mul_le (Nat.mul_pos positive (Nat.two_pow_pos shift))).mp normal
    have nearest : distance significand numerator (denominator * 2 ^ shift) ≤
        distance (2 ^ 52) numerator (denominator * 2 ^ shift) := by
      by_cases same : 2 ^ 52 = significand
      · rw [same]
      · rcases nearer _ same with closer | ⟨same, _⟩
        · exact Nat.le_of_lt closer
        · exact Nat.le_of_eq same
    apply Nat.lt_of_le_of_lt nearest
    rw [← distance_mul]
    rw [← Nat.mul_assoc, Nat.mul_right_comm] at reached
    exact distance_of_below positive reached small

theorem nearestBits_isNearest {denominator : Nat} (positive : 0 < denominator) (numerator : Nat) :
    IsNearest (nearestBits numerator denominator) numerator denominator where
  nearest other := by
    by_cases ne : other = nearestBits numerator denominator
    · rw [ne]
    · rcases nearestBits_nearer positive ne with closer | ⟨same, _⟩
      · exact Nat.le_of_lt closer
      · exact Nat.le_of_eq same
  even other ne same := by
    rcases nearestBits_nearer positive ne with closer | ⟨_, even⟩
    · omega
    · exact even

/-- Between two magnitudes that are equally far from a quotient, every other one is nearer. -/
theorem distance_between {numerator denominator low middle high : Nat}
    (positive : 0 < denominator) (above : low < middle) (below : middle < high)
    (same : distance low numerator denominator = distance high numerator denominator) :
    distance middle numerator denominator < distance low numerator denominator := by
  have left := Nat.mul_lt_mul_of_pos_right above positive
  have right := Nat.mul_lt_mul_of_pos_right below positive
  simp only [distance] at same ⊢
  omega

theorem IsNearest.le_of_isNearest {numerator denominator bits other : Nat}
    (positive : 0 < denominator) (isNearest : IsNearest bits numerator denominator)
    (otherNearest : IsNearest other numerator denominator) : other ≤ bits := by
  by_contra lt
  have same := Nat.le_antisymm (isNearest.nearest other) (otherNearest.nearest bits)
  have even := isNearest.even other (by omega) same.symm
  have otherEven := otherNearest.even bits (by omega) same
  -- Both are even, so there is another number between them.
  have closer := distance_between positive (unitsOf_strictMono (Nat.lt_add_one bits))
    (unitsOf_strictMono (show bits + 1 < other by omega)) same
  have nearest := isNearest.nearest (bits + 1)
  omega

/-- At most one number is nearest to a quotient. -/
theorem IsNearest.unique {numerator denominator bits other : Nat} (positive : 0 < denominator)
    (isNearest : IsNearest bits numerator denominator)
    (otherNearest : IsNearest other numerator denominator) : bits = other :=
  Nat.le_antisymm (otherNearest.le_of_isNearest positive isNearest)
    (isNearest.le_of_isNearest positive otherNearest)

/--
A number is the value of a decimal with some digits, of which a number of places stand behind the
dot. It is the nearest one, finite, and zero only if all digits are.
-/
structure IsDecimal (value : Binary64) (digits places : Nat) : Prop where
  finite : value.bits.toNat < topExponent * 2 ^ fractionBits
  nearest : IsNearest value.bits.toNat (digits * unitsInOne) (10 ^ places)
  zero : value.bits = 0 → digits = 0

theorem ofDecimal?_eq_some_iff {digits places : Nat} {value : Binary64} :
    ofDecimal? digits places = some value ↔ value.IsDecimal digits places := by
  have positive : 0 < 10 ^ places := Nat.pow_pos (by decide)
  have nearest := nearestBits_isNearest positive (digits * unitsInOne)
  have fits : topExponent * 2 ^ fractionBits < 2 ^ 64 := by decide
  change (if topExponent * 2 ^ fractionBits ≤ nearestBits (digits * unitsInOne) (10 ^ places) then
      none
    else if nearestBits (digits * unitsInOne) (10 ^ places) = 0 ∧ digits ≠ 0 then none
    else some ⟨UInt64.ofNat (nearestBits (digits * unitsInOne) (10 ^ places))⟩) = some value ↔ _
  generalize nearestBits (digits * unitsInOne) (10 ^ places) = bits at *
  constructor
  · intro read
    split at read
    · cases read
    · split at read
      · cases read
      · rename_i finite notLost
        cases read
        have bits_eq : (UInt64.ofNat bits).toNat = bits :=
          UInt64.toNat_ofNat_of_lt' (Nat.lt_trans (Nat.lt_of_not_le finite) fits)
        refine ⟨?_, ?_, fun zero => ?_⟩
        · simp only [bits_eq]
          omega
        · simp only [bits_eq]
          exact nearest
        · simp only [← UInt64.toNat_inj, bits_eq] at zero
          by_contra nonzero
          exact notLost ⟨zero, nonzero⟩
  · rintro ⟨finite, isNearest, zero⟩
    obtain rfl := isNearest.unique positive nearest
    rw [if_neg (by omega), if_neg ?_, UInt64.ofNat_toNat]
    rintro ⟨bits_eq, nonzero⟩
    exact nonzero (zero (UInt64.toNat_inj.mp bits_eq))

end Binary64

end TypedLang
