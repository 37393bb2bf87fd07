import Montage.Numeric.Rounding

/-!
# Arithmetic of binary64 numbers

Sums, differences and quotients are computed exactly in units and rounded once. The exceptional
cases are those of the format: a difference of equal numbers is a positive zero, opposite infinities
have no sum, and a quotient by zero is infinite.
-/

set_option autoImplicit false
set_option relaxedAutoImplicit false

namespace Montage.Numeric.Binary64

/-- The number with the opposite sign. -/
def neg : Binary64 → Binary64
  | nan => nan
  | number negative rank => number (!negative) rank

instance : Neg Binary64 where
  neg := neg

/-- The value of a finite number of this sign and rank, in units. -/
def signedUnits (negative : Bool) (rank : Nat) : Int :=
  if negative then -(units rank : Int) else units rank

/-- The sum, rounded once. A sum of zero is negative only if both terms are. -/
def add : Binary64 → Binary64 → Binary64
  | nan, _ => nan
  | number _ _, nan => nan
  | number s x, number t y =>
    if x.val = infinityRank then
      if y.val = infinityRank ∧ s ≠ t then nan else infinite s
    else if y.val = infinityRank then infinite t
    else
      let total := signedUnits s x + signedUnits t y
      if total = 0 then zero (s && t)
      else ofRank (decide (total < 0)) (nearestRank total.natAbs 1)

instance : Add Binary64 where
  add := add

instance : Sub Binary64 where
  sub x y := x + -y

/-- The quotient, rounded once. -/
def div : Binary64 → Binary64 → Binary64
  | nan, _ => nan
  | number _ _, nan => nan
  | number s x, number t y =>
    if x.val = infinityRank then
      if y.val = infinityRank then nan else infinite (s != t)
    else if y.val = infinityRank then zero (s != t)
    else if y.val = 0 then
      if x.val = 0 then nan else infinite (s != t)
    else ofRank (s != t) (nearestRank (units x * unitsPerOne) (units y))

instance : Div Binary64 where
  div := div

/-- The number nearest to a whole number. -/
def ofNat (n : Nat) : Binary64 := ofRank false (nearestRank (n * unitsPerOne) 1)

/-- One, the speed of undisturbed playback. -/
def one : Binary64 := ofNat 1

/-- The sum from left to right. An empty sum is the negative zero, which any first term replaces. -/
def sum (terms : List Binary64) : Binary64 := terms.foldl (· + ·) (zero true)

end Montage.Numeric.Binary64
