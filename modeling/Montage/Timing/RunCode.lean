import Montage.Failure

/-!
# Run codes

A run is named by its team and a counter, written together as in `ab12`. Codes are ordered by team
and then by counter. A written code is letters followed by digits, blanks around it aside; the
letters are taken in lower case and the digits as a number of 32 bits.
-/

set_option autoImplicit false
set_option relaxedAutoImplicit false

namespace Montage.Timing

/-- The greatest counter. -/
def maxCounter : Nat := 4294967295

/-- The name of a run. -/
structure RunCode where
  /-- The team, in lower case. -/
  team : String
  /-- The number of the run within its team. -/
  counter : Nat
deriving DecidableEq, Repr

namespace RunCode

/-- The code of a team written in any letter case. -/
def ofTeam (team : String) (counter : Nat) : RunCode := ⟨team.map Char.toLower, counter⟩

/-- The order of codes: by team, then by counter. -/
instance : LT RunCode where
  lt a b := a.team < b.team ∨ a.team = b.team ∧ a.counter < b.counter

instance (a b : RunCode) : Decidable (a < b) :=
  inferInstanceAs (Decidable (_ ∨ _))

/-- Inserts a code into an ordered list without repetitions, unless the list has it. -/
def insertOrdered (code : RunCode) : List RunCode → List RunCode
  | [] => [code]
  | other :: rest =>
    if code = other then other :: rest
    else if code < other then code :: other :: rest
    else other :: insertOrdered code rest

/-- The codes in order, each once. -/
def ordered (codes : List RunCode) : List RunCode := codes.foldr insertOrdered []

/-- The team followed by the counter. -/
def toText (code : RunCode) : String :=
  code.team ++ String.ofList (Numeric.Decimal.digitsOf code.counter)

/-- A number of digits zero to nine, if it is a counter. -/
def counter? (digits : List Char) : Option Nat :=
  if digits ≠ [] ∧ digits.all Char.isDigit ∧ Numeric.digitsValue digits ≤ maxCounter then
    some (Numeric.digitsValue digits)
  else none

/-- Reads a code: letters, then digits. -/
def ofText? (text : String) : Option RunCode :=
  let trimmed := Text.trim text.toList
  let team := trimmed.takeWhile (!·.isDigit)
  let digits := trimmed.dropWhile (!·.isDigit)
  if team ≠ [] ∧ team.all Char.isAlpha then (counter? digits).map (ofTeam (String.ofList team))
  else none

/-- Reads a code. The failure names the text without blanks at its ends. -/
def ofText (text : String) : Except Failure RunCode :=
  match ofText? text with
  | some code => .ok code
  | none => .error (.malformedRunCode (String.ofList (Text.trim text.toList)))

end RunCode

end Montage.Timing
