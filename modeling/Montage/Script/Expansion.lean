import Montage.Script.Machine

/-!
# Values of words

A word becomes fields. Its pieces are replaced by their values, the values without quotes fall apart
at blanks, and a field that is a pattern becomes the names of the files that it matches, if there
are any. All arguments between quotes are one field each.
-/

set_option autoImplicit false
set_option relaxedAutoImplicit false

namespace Montage.Script

/-- A part of a word that is being taken apart into fields. -/
inductive Atom where
  /-- A character. -/
  | marked (c : Marked)
  /-- Nothing; but there is a field. -/
  | presence
  /-- The end of a field, unless the word is one field: then it is this character. -/
  | boundary (c : Char)
deriving DecidableEq, Repr

/-- The atoms of a value. -/
def atomsOf (quoted : Bool) (value : List Char) : List Atom :=
  if quoted then .presence :: value.map fun c ↦ .marked (c, true)
  else value.map fun c ↦ if isSpace c || c == '\n' then .boundary c else .marked (c, false)

/-- The fields of atoms, after the characters of a field that has begun. -/
def fieldsFrom (begun : Option (List Marked)) : List Atom → List (List Marked)
  | [] => begun.toList
  | .boundary _ :: atoms => begun.toList ++ fieldsFrom none atoms
  | .presence :: atoms => fieldsFrom (some (begun.getD [])) atoms
  | .marked c :: atoms => fieldsFrom (some (begun.getD [] ++ [c])) atoms

/-- The text of a field. -/
def fieldText (field : List Marked) : String := String.ofList (field.map (·.1))

/-- The names of the files that a field matches, in order. Only the last step of a path may be a
pattern, and names with a point in front are matched only by patterns with one. -/
def filesMatching (store : Store) (field : List Marked) : List String :=
  let name := (field.reverse.takeWhile (·.1 != '/')).reverse
  let directory := String.ofList ((field.take (field.length - name.length)).map (·.1))
  let names := (store.namesIn ⟨if directory.isEmpty then "." else directory⟩).toOption.getD []
  let fits (candidate : String) : Bool :=
    (candidate.toList.head? != some '.' || name.head?.map (·.1) == some '.') &&
      patternMatches name candidate.toList
  ((names.filter fits).mergeSort (fun a b ↦ decide (a ≤ b))).map (directory ++ ·)

/-- The texts that a field stands for. -/
def textsOfField (store : Store) (field : List Marked) : List String :=
  let files := if isPattern field then filesMatching store field else []
  if files = [] then [fieldText field] else files

/-- Runs a text as a script within another one, and returns its output. -/
abbrev Capture := List Char → Machine → List Char × Machine

/-- The text that atoms stand for when they do not fall apart. -/
def joinedAtoms (atoms : List Atom) : List Marked :=
  atoms.filterMap fun
    | .marked c => some c
    | .boundary c => some (c, true)
    | .presence => none

/-- The atoms of all arguments, one field each if they are quoted. -/
def argumentAtoms (quoted : Bool) (arguments : List String) : List Atom :=
  [Atom.boundary ' '].intercalate (arguments.map fun argument ↦ atomsOf quoted argument.toList)

/-- The number that a variable holds, zero if it holds nothing. -/
def integerVariable? (machine : Machine) (name : String) : Option Int :=
  integerOf? ((machine.parameter? name).getD "0").toList

/-- The atoms of pieces, which may hold other words at most `depth` deep. A sum that has no value
becomes nothing. -/
def atomsOfPieces (capture : Capture) :
    (depth : Nat) → List Piece → Machine → List Atom × Machine
  | 0, _, machine => ([], machine)
  | depth + 1, pieces, machine =>
    let expand (quoted : Bool) (text : List Char) (machine : Machine) : List Atom × Machine :=
      let (atoms, machine) := atomsOfPieces capture depth (wordOf quoted text) machine
      (if quoted then .presence :: atoms else atoms, machine)
    let value (machine : Machine) : Piece → List Atom × Machine
      | .characters true text => (atomsOf true text, machine)
      | .characters false text => (text.map fun c ↦ .marked (c, false), machine)
      | .parameter quoted name modifier =>
        let value? := machine.parameter? name
        let present := value?.isSome
        let given := value?.any (· != "")
        let whole :=
          if name = "@" then argumentAtoms quoted machine.arguments
          else atomsOf quoted (value?.getD "").toList
        match modifier with
        | .whole => (whole, machine)
        | .length => (atomsOf quoted (toString (value?.getD "").length).toList, machine)
        | .orElse orEmpty assigns word =>
          if given || present && !orEmpty then (whole, machine)
          else
            let (atoms, machine) := expand quoted word machine
            let text := fieldText (joinedAtoms atoms)
            (atoms, if assigns then machine.assign name text else machine)
        | .ifPresent orEmpty word =>
          if given || present && !orEmpty then expand quoted word machine
          else (atomsOf quoted [], machine)
        | .without atStart longest pattern =>
          let (atoms, machine) := expand false pattern machine
          let kept := withoutMatch atStart longest (joinedAtoms atoms) (value?.getD "").toList
          (atomsOf quoted kept, machine)
      | .outputOf quoted script =>
        let (output, machine) := capture script machine
        (atomsOf quoted output, machine)
      | .sum quoted expression =>
        let (atoms, machine) := expand true expression machine
        match sumOf? (integerVariable? machine) ((joinedAtoms atoms).map (·.1)) with
        | some result => (atomsOf quoted (toString result).toList, machine)
        | none => ([], machine.withStatus 2)
    pieces.foldl
      (fun (atoms, machine) piece ↦
        let (more, machine) := value machine piece
        (atoms ++ more, machine))
      ([], machine)

/-- How deep words may lie within words. -/
def maxWordDepth : Nat := 40

/-- The fields of a word. -/
def expandFields (capture : Capture) (word : Word) (machine : Machine) : List String × Machine :=
  let (atoms, machine) := atomsOfPieces capture maxWordDepth word machine
  ((fieldsFrom none atoms).flatMap (textsOfField machine.store), machine)

/-- The fields of words. -/
def expandAll (capture : Capture) (words : List Word) (machine : Machine) :
    List String × Machine :=
  words.foldl
    (fun (fields, machine) word ↦
      let (more, machine) := expandFields capture word machine
      (fields ++ more, machine))
    ([], machine)

/-- A word as one field. -/
def expandOne (capture : Capture) (word : Word) (machine : Machine) : List Marked × Machine :=
  let (atoms, machine) := atomsOfPieces capture maxWordDepth word machine
  (joinedAtoms atoms, machine)

end Montage.Script
