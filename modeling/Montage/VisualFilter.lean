import Montage.Timing.RunCode

/-!
# Visual filters

An output can be turned, transposed or cropped. A filter is written as a name, an equals sign and
its numbers, as in `rotate=90`, `transpose=1` and `crop=640:480:0:0`.
-/

set_option autoImplicit false
set_option relaxedAutoImplicit false

namespace Montage

open Numeric

/-- A change of the picture. -/
inductive VisualFilter where
  /-- A turn by any angle. -/
  | rotate (degrees : Binary64)
  /-- One of the four quarter turns with or without a flip. -/
  | transpose (direction : Nat)
  /-- The part of the picture of this size, with its corner at this place. -/
  | crop (width height x y : Nat)
deriving DecidableEq, Repr

namespace VisualFilter

/-- The greatest direction of a transposition. -/
def maxDirection : Nat := 3

/-- The greatest size or place of a crop. -/
def maxPixels : Nat := 4294967295

/-- Reads a whole number of at most `limit`, with an optional plus sign. -/
def readNumber? (limit : Nat) (text : List Char) : Option Nat :=
  let digits := match text with
    | '+' :: digits => digits
    | digits => digits
  if digits ≠ [] ∧ digits.all Char.isDigit ∧ digitsValue digits ≤ limit then
    some (digitsValue digits)
  else none

/-- Reads a filter. -/
def ofText? (text : String) : Option VisualFilter :=
  (Text.cutOnce? '=' (Text.trim text.toList)).bind fun (name, value) ↦
    let name := String.ofList (name.map Char.toLower)
    if name = "rotate" then
      match Binary64.ofChars? value with
      | some degrees => if degrees.isFinite then some (rotate degrees) else none
      | none => none
    else if name = "transpose" then (readNumber? maxDirection value).map transpose
    else if name = "crop" then
      match (Text.cut (· == ':') value).mapM (readNumber? maxPixels) with
      | some [width, height, x, y] => some (crop width height x y)
      | _ => none
    else none

end VisualFilter

end Montage
