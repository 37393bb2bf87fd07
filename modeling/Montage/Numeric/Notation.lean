import Montage.Numeric.Arithmetic
import Montage.Numeric.Decimal

/-!
# Decimal notation of binary64 numbers

A number is written with the fewest digits that read back, always positionally: no exponent, no
point without digits after it, and a minus sign also in front of a negative zero
(`Binary64.toText`). Reading (`Binary64.ofChars?`) takes plain and scientific notation, and the
words for the two values without digits in any letter case.
-/

set_option autoImplicit false
set_option relaxedAutoImplicit false

namespace Montage.Numeric

/-- Digits with a point in front of the last `places` of them, and at least one digit before it. -/
def withPoint (digits : List Char) (places : Nat) : List Char × List Char :=
  let padded := List.replicate (places + 1 - digits.length) '0' ++ digits
  padded.splitAt (padded.length - places)

/-- The positional notation of a decimal, without zeros at the end of its fraction. -/
def Decimal.toChars (d : Decimal) : List Char :=
  if 0 ≤ d.exponent then digitsOf d.digits ++ List.replicate d.exponent.toNat '0'
  else
    let (whole, fraction) := withPoint (digitsOf d.digits) (-d.exponent).toNat
    match (fraction.reverse.dropWhile (· == '0')).reverse with
    | [] => whole
    | kept => whole ++ '.' :: kept

namespace Binary64

/-- The text of a number, given the text of its finite absolute values. -/
def signedChars (absolute : Nat → List Char) : Binary64 → List Char
  | nan => ['N', 'a', 'N']
  | number negative rank =>
    (if negative then ['-'] else []) ++
      if rank.val = infinityRank then ['i', 'n', 'f'] else absolute rank

/-- The shortest positional notation that reads back as the number. -/
def toChars : Binary64 → List Char :=
  signedChars fun rank ↦ if rank = 0 then ['0'] else (Decimal.ofRank rank).toChars

/-- The shortest positional notation that reads back as the number. -/
def toText (x : Binary64) : String := String.ofList x.toChars

/-- The notation with exactly one decimal place, of two equally near ones the even one. -/
def toTenthsText (x : Binary64) : String :=
  String.ofList <| x.signedChars fun rank ↦
    let (whole, fraction) :=
      withPoint (Decimal.digitsOf (roundQuotient (units rank * 10) unitsPerOne)) 1
    whole ++ '.' :: fraction

end Binary64

/-! ### Reading -/

/-- The value of a string of digits. -/
def digitsValue (digits : List Char) : Nat :=
  digits.foldl (fun value c ↦ 10 * value + (c.toNat - '0'.toNat)) 0

/-- Reads the exponent part of scientific notation, which may be absent. -/
def readExponent? : List Char → Option Int
  | [] => some 0
  | e :: rest =>
    if e = 'e' ∨ e = 'E' then
      let (negative, digits) := match rest with
        | '-' :: digits => (true, digits)
        | '+' :: digits => (false, digits)
        | digits => (false, digits)
      if digits ≠ [] ∧ digits.all Char.isDigit then
        some (if negative then -(digitsValue digits : Int) else digitsValue digits)
      else none
    else none

/-- Reads an unsigned decimal: digits with at most one point among or beside them, and an
exponent. -/
def readDecimal? (text : List Char) : Option Decimal :=
  let whole := text.takeWhile Char.isDigit
  let afterWhole := text.dropWhile Char.isDigit
  let (fraction, afterFraction) := match afterWhole with
    | '.' :: rest => (rest.takeWhile Char.isDigit, rest.dropWhile Char.isDigit)
    | rest => ([], rest)
  if whole = [] ∧ fraction = [] then none
  else (readExponent? afterFraction).map fun exponent ↦
    { digits := digitsValue (whole ++ fraction), exponent := exponent - fraction.length }

/-- Reads an unsigned number, and gives it the sign. -/
def readUnsigned? (negative : Bool) (text : List Char) : Option Binary64 :=
  let word := String.ofList (text.map Char.toLower)
  if word = "inf" ∨ word = "infinity" then some (.infinite negative)
  else if word = "nan" then some .nan
  else (readDecimal? text).map fun d ↦ .ofRank negative d.nearestRank

namespace Binary64

/-- Reads a number, with an optional sign in front. -/
def ofChars? : List Char → Option Binary64
  | '-' :: text => readUnsigned? true text
  | '+' :: text => readUnsigned? false text
  | text => readUnsigned? false text

/-- Reads a number. -/
def ofText? (text : String) : Option Binary64 := ofChars? text.toList

end Binary64

end Montage.Numeric
