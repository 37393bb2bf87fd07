import Montage.Log
import Montage.Text.Quoted
import Montage.VisualFilter

/-!
# Manifests

A manifest says which runs make up which output. Its lines come in pairs: a name with filters, and
the codes of the runs, separated by commas. Blank lines and lines that start with `#` do not count.
Words that are no filters and codes that are no codes are reported and left out, and so is a last
line without a partner.
-/

set_option autoImplicit false
set_option relaxedAutoImplicit false

namespace Montage

open Timing

/-- An output that is asked for. -/
structure OutputSpec where
  /-- The name of the output, without extension. -/
  name : String
  /-- The filters for its picture. -/
  filters : List VisualFilter
  /-- Its runs, in the order of playback. -/
  runs : List RunCode
deriving DecidableEq, Repr

/-- What a manifest says, and what is reported of it. -/
structure Manifest where
  /-- The outputs, in order. -/
  outputs : List OutputSpec := []
  /-- What was left out. -/
  log : List LogEntry := []
deriving DecidableEq, Repr

namespace Manifest

/-- The lines that count, without blanks at their ends. -/
def significantLines (text : String) : List (List Char) :=
  ((Text.lines text.toList).map Text.trim).filter fun line ↦
    line ≠ [] ∧ line.head? ≠ some '#'

/-- The items between commas, without blanks at their ends and without empty ones. -/
def items (line : List Char) : List String :=
  (((Text.cut (· == ',') line).map Text.trim).filter (· ≠ [])).map String.ofList

/-- The values that words have, and a report of the words without one. -/
def readEach {α : Type} (read : String → Option α) (complaint : String → String)
    (words : List String) : List α × List LogEntry :=
  (words.filterMap read,
    (words.filter fun word ↦ (read word).isNone).map fun word ↦ .warn (complaint word))

/-- Reads a line with a name and filters and a line with codes. -/
def readPair (header codes : List Char) : Manifest :=
  match (Text.words header).map String.ofList with
  | [] => {}
  | name :: words =>
    let (filters, filterLog) := readEach VisualFilter.ofText?
      (fun word ↦ "Unknown filter " ++ Text.quoted word ++ " for output " ++ name) words
    let (runs, runLog) := readEach RunCode.ofText?
      (fun word ↦ "Invalid run code " ++ Text.quoted word ++ " for output " ++ name) (items codes)
    { outputs := [{ name, filters, runs }], log := filterLog ++ runLog }

/-- Reads the lines that count, two at a time. -/
def ofLines : List (List Char) → Manifest
  | [] => {}
  | [header] =>
    { log := [.warn ("Manifest output " ++ Text.quoted (String.ofList header) ++
        " has no run list")] }
  | header :: codes :: rest =>
    let first := readPair header codes
    let others := ofLines rest
    { outputs := first.outputs ++ others.outputs, log := first.log ++ others.log }

/-- Reads a manifest. -/
def ofText (text : String) : Manifest := ofLines (significantLines text)

end Manifest

end Montage
