import Montage.Log
import Montage.Text.Digit
import Montage.Text.Quoted
import Montage.Timing.Run

/-!
# Ticks

A tick is a word of a timing file. It opens or closes a slot of a run, as in `ab1cp0a` and
`ab1intb`, or it changes the speed for the rest of the slots that contain its time, as in `x2`.
Letters count in either case, and two letters outside the alphabet count as letters of a team
because they have the case forms `s` and `k`. Digits of all scripts are recognised, but only those
from `0` to `9` have a value.
-/

set_option autoImplicit false
set_option relaxedAutoImplicit false

namespace Montage.Timing

/-- What a word of a timing file says. -/
inductive Tick where
  /-- A bound of a slot of a run. -/
  | boundary (code : RunCode) (slot : Slot) (endpoint : Endpoint)
  /-- A bound of a run whose counter has no value or is too great. -/
  | counterOutOfRange
  /-- A positive speed for the rest of a slot. -/
  | speed (factor : Nat)
  /-- A speed that is not positive. -/
  | standstill
  /-- Something else. -/
  | unrecognized
deriving DecidableEq, Repr

namespace Tick

/-- The letters of the alphabet in both cases, the long `s` and the sign for the unit of
temperature, whose lower case is `k`. -/
def isTeamLetter (c : Char) : Bool := c.isAlpha || c == '\u017f' || c == '\u212a'

/-- The value of a digit from `0` to `9`, and zero for digits of other scripts. -/
def digitValue (c : Char) : Nat := if c.isDigit then c.toNat - '0'.toNat else 0

/-- Reads the slot and the bound at the end of a tick. -/
def readEnd? (text : List Char) : Option (Slot × Endpoint) :=
  match text with
  | [x, y, z, flag] =>
    let slot? :=
      if [x, y, z].map Char.toLower = ['i', 'n', 't'] then some .intro
      else if [x, y].map Char.toLower = ['c', 'p'] ∧ Text.isDecimalDigit z then
        some (.checkpoint (digitValue z))
      else none
    match slot?, Endpoint.ofFlag? flag with
    | some slot, some endpoint => some (slot, endpoint)
    | _, _ => none
  | _ => none

/-- Reads a word as a bound: the team, the counter, the slot and the flag. -/
def readBoundary? (word : List Char) : Option Tick :=
  let team := word.takeWhile isTeamLetter
  let afterTeam := word.dropWhile isTeamLetter
  let digits := afterTeam.takeWhile Text.isDecimalDigit
  if team = [] ∨ digits = [] then none
  else
    (readEnd? (afterTeam.dropWhile Text.isDecimalDigit)).map fun (slot, endpoint) ↦
      match RunCode.counter? digits with
      | some counter => boundary (.ofTeam (String.ofList team) counter) slot endpoint
      | none => counterOutOfRange

/-- Reads a word as a speed. -/
def readSpeed? (word : List Char) : Option Tick :=
  match word with
  | [x, digit] =>
    if x.toLower = 'x' ∧ Text.isDecimalDigit digit then
      some (if 0 < digitValue digit then speed (digitValue digit) else standstill)
    else none
  | _ => none

/-- Reads a word of a timing file. -/
def ofWord (word : List Char) : Tick :=
  (readBoundary? word).getD ((readSpeed? word).getD unrecognized)

/-- What is reported of a word that was read at a time. -/
def log (word : List Char) (time : Numeric.Binary64) : List LogEntry :=
  match ofWord word with
  | counterOutOfRange =>
    [.warn ("Run counter out of range in tick " ++ Text.quoted (String.ofList word))]
  | standstill =>
    [.warn ("Ignoring non-positive speed tick " ++ Text.quoted (String.ofList word) ++ " at " ++
      time.toText)]
  | _ => []

end Tick

end Montage.Timing
