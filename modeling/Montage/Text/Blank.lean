/-!
# Blank characters

The characters with the property of white space, in all scripts. Fields of a line are separated by
them, and they are trimmed from both ends of a text.
-/

set_option autoImplicit false
set_option relaxedAutoImplicit false

namespace Montage.Text

/-- The first and the last code point of every range of blank characters. -/
def blankRanges : List (Nat × Nat) := [
  (0x9, 0xD), (0x20, 0x20), (0x85, 0x85), (0xA0, 0xA0), (0x1680, 0x1680), (0x2000, 0x200A),
  (0x2028, 0x2029), (0x202F, 0x202F), (0x205F, 0x205F), (0x3000, 0x3000)]

/-- Whether a character is blank. -/
def isBlank (c : Char) : Bool :=
  blankRanges.any fun (first, last) ↦ decide (first ≤ c.toNat) && decide (c.toNat ≤ last)

end Montage.Text
