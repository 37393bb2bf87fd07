import Montage.Numeric.Binary64

/-!
# Rounding to the nearest binary64 number

Every finite number is a whole multiple of the least positive one, `2 ^ (-1074)`. With that number
as unit, a rank has an exact value (`units`), and a fraction of whole numbers of units has a nearest
rank (`nearestRank`), where of two equally near ranks the even one is taken. Reading a decimal,
adding and dividing all round through this one function.
-/

set_option autoImplicit false
set_option relaxedAutoImplicit false

namespace Montage.Numeric

/-- One is this power of two of the units in which ranks are measured. -/
def unitsPerOneLog : Nat := 1074

/-- One, in units. -/
def unitsPerOne : Nat := Nat.pow 2 unitsPerOneLog

/-- The whole number nearest to a fraction; of two equally near ones the even one. -/
def roundQuotient (numerator denominator : Nat) : Nat :=
  let whole := numerator / denominator
  let rest := numerator % denominator
  if denominator < 2 * rest ∨ (2 * rest = denominator ∧ whole % 2 = 1) then whole + 1 else whole

/-- The absolute value of a rank, in units. The numbers of the first two exponents lie one unit
apart, and the distance doubles with each further exponent. -/
def units (rank : Nat) : Nat :=
  if rank < ranksPerExponent then rank
  else
    (ranksPerExponent + rank % ranksPerExponent) * Nat.pow 2 (rank / ranksPerExponent - 1)

/-- The rank nearest to a fraction of units. The significand keeps 53 bits of the fraction, or as
many as there are down to the unit; a significand that rounds up to the next power of two gives the
rank that follows. -/
def nearestRank (numerator denominator : Nat) : Nat :=
  let shift := (numerator / denominator).log2 - 52
  min infinityRank
    (shift * ranksPerExponent + roundQuotient numerator (denominator * Nat.pow 2 shift))

end Montage.Numeric
