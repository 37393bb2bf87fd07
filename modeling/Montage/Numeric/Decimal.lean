import Montage.Numeric.Rounding

/-!
# Decimals that stand for binary64 numbers

A decimal is a whole number of digits and a power of ten. It stands for the rank nearest to its
value (`Decimal.nearestRank`). In the other direction, `Decimal.ofRank` finds the shortest decimal
that stands for a rank: the first count of digits for which one of the two neighbours of the value
on the grid of that many digits stands for the rank, and of two such neighbours the nearer. A value
halfway between them goes up.

Scope. The layout of the digits as text is in `Montage.Numeric.Notation`.
-/

set_option autoImplicit false
set_option relaxedAutoImplicit false

namespace Montage.Numeric

/-- The value `digits * 10 ^ exponent`. -/
structure Decimal where
  /-- All digits, read as one whole number. -/
  digits : Nat
  /-- The power of ten that belongs to the last digit. -/
  exponent : Int
deriving DecidableEq, Repr

namespace Decimal

/-- The digits of a whole number, the first one first. -/
def digitsOf (n : Nat) : List Char := Nat.toDigits 10 n

/-- The power of ten just above the value of a nonzero decimal. -/
def magnitude (d : Decimal) : Int := d.exponent + (digitsOf d.digits).length

/-- The rank that a decimal stands for. Powers of ten far outside the range of the format are
decided without computing them. -/
def nearestRank (d : Decimal) : Nat :=
  if d.digits = 0 ∨ d.magnitude < -400 then 0
  else if 400 < d.magnitude then infinityRank
  else if 0 ≤ d.exponent then
    Numeric.nearestRank (d.digits * Nat.pow 10 d.exponent.toNat * unitsPerOne) 1
  else Numeric.nearestRank (d.digits * unitsPerOne) (Nat.pow 10 (-d.exponent).toNat)

/-- The number of decimal places that the value of a rank needs at most. Numbers of this exponent
are whole multiples of one over two to this power. -/
def places (rank : Nat) : Nat := unitsPerOneLog - (rank / ranksPerExponent - 1)

/-- All digits of the value of a rank, down to the last of its places. -/
def exactDigits (rank : Nat) : Nat :=
  units rank / Nat.pow 2 (unitsPerOneLog - places rank) * Nat.pow 5 (places rank)

/-- The value of a rank with the last `dropped` of its digits given up, rounded down or up. -/
def truncated (rank dropped : Nat) (up : Bool) : Decimal where
  digits := exactDigits rank / Nat.pow 10 dropped + if up then 1 else 0
  exponent := dropped - places rank

/-- The better neighbour of the value of a rank on the grid without its last `dropped` digits, among
those that stand for the rank. -/
def neighbour? (rank dropped : Nat) : Option Decimal :=
  let below := truncated rank dropped false
  let above := truncated rank dropped true
  match below.nearestRank == rank, above.nearestRank == rank with
  | true, true =>
    if Nat.pow 10 dropped ≤ 2 * (exactDigits rank % Nat.pow 10 dropped) then some above
    else some below
  | true, false => some below
  | false, true => some above
  | false, false => none

/-- The shortest decimal that stands for a rank, or all digits of its value. -/
def ofRank (rank : Nat) : Decimal :=
  let length := (digitsOf (exactDigits rank)).length
  let shortest? := (List.range length).findSome? fun i ↦ neighbour? rank (length - (i + 1))
  shortest?.getD (truncated rank 0 false)

end Decimal

end Montage.Numeric
