import Montage.Timing.Tick

/-!
# Lines of a timing file

A timed line has a number, an equals sign and fields after it. If the first field is a number and
another field follows, the first field is the time and the number in front only counts the lines;
otherwise the number in front is the time. The other fields are ticks, separated by bars as well.
Every line is read by itself: nothing depends on the lines before it.
-/

set_option autoImplicit false
set_option relaxedAutoImplicit false

namespace Montage.Timing

open Numeric

/-- What a line of a timing file says. -/
inductive TimedLine where
  /-- The line has no time. -/
  | untimed
  /-- The line has a field in place of a time that is not one. -/
  | unusableTime (field : List Char)
  /-- The line has a time, and words at that time. -/
  | timed (time : Binary64) (words : List (List Char))
deriving DecidableEq, Repr

namespace TimedLine

/-- Splits a line at its equals sign into the number in front and the text behind. The number
consists of digits and points, with blanks around it. The text behind has to hold something besides
line feeds, and no line feed among what it holds. -/
def split? (line : List Char) : Option (List Char × List Char) :=
  let isNumeral := fun c : Char ↦ c.isDigit || c == '.'
  let start := Text.trimStart line
  let numeral := start.takeWhile isNumeral
  match Text.trimStart (start.dropWhile isNumeral) with
  | '=' :: behind =>
    let content := Text.trim behind
    let hasContent := if content = [] then behind.any (· != '\n') else !content.contains '\n'
    if numeral ≠ [] ∧ hasContent then some (numeral, behind) else none
  | _ => none

/-- The field that holds the time and the fields that hold ticks. -/
def timeAndFields (numeral behind : List Char) : List Char × List (List Char) :=
  match Text.words behind with
  | first :: second :: rest =>
    if (Binary64.ofChars? first).isSome then (first, second :: rest)
    else (numeral, first :: second :: rest)
  | fields => (numeral, fields)

/-- Reads a line. -/
def ofLine (line : List Char) : TimedLine :=
  match split? line with
  | none => untimed
  | some (numeral, behind) =>
    let (timeField, fields) := timeAndFields numeral behind
    match Binary64.ofChars? timeField with
    | some time =>
      if time.isFinite then
        timed time (fields.flatMap fun field ↦ (Text.cut (· == '|') field).filter (· ≠ []))
      else unusableTime timeField
    | none => unusableTime timeField

/-- Whether a line has a time. -/
def isTimed : TimedLine → Bool
  | timed _ _ => true
  | _ => false

/-- What is reported of a line. -/
def log (line : List Char) : List LogEntry :=
  match ofLine line with
  | untimed => []
  | unusableTime field =>
    [.warn ("Skipping line with invalid time " ++ Text.quoted (String.ofList field) ++ ": " ++
      String.ofList line)]
  | timed time words => words.flatMap (Tick.log · time)

end TimedLine

end Montage.Timing
