/-!
# Patterns

A pattern matches texts as a whole. A star matches any text, a question mark any character and
brackets one of several characters or ranges; quoted characters match only themselves.
-/

set_option autoImplicit false
set_option relaxedAutoImplicit false

namespace Montage.Script

/-- A part of a pattern. -/
inductive PatternPart where
  /-- A character. -/
  | character (c : Char)
  /-- Any character. -/
  | anyCharacter
  /-- Any text. -/
  | anyText
  /-- A character in one of these ranges, or in none of them. -/
  | oneOf (inside : Bool) (ranges : List (Char × Char))
deriving DecidableEq, Repr

/-- A character, and whether it is quoted. -/
abbrev Marked := Char × Bool

/-- The ranges that characters between brackets describe. -/
def rangesOf : List Char → List (Char × Char)
  | first :: '-' :: last :: rest => (first, last) :: rangesOf rest
  | c :: rest => (c, c) :: rangesOf rest
  | [] => []

/-- Splits a pattern before a closing bracket, which does not close right away. -/
def splitBracket (text : List Marked) : Option (List Char × List Marked) :=
  match text with
  | first :: rest =>
    match rest.dropWhile (· != (']', false)) with
    | _ :: after => some ((first :: rest.takeWhile (· != (']', false))).map (·.1), after)
    | [] => none
  | [] => none

/-- The parts of a pattern, read with at most `fuel` steps. -/
def patternParts : (fuel : Nat) → List Marked → List PatternPart
  | 0, _ => []
  | _ + 1, [] => []
  | fuel + 1, ('*', false) :: rest => .anyText :: patternParts fuel rest
  | fuel + 1, ('?', false) :: rest => .anyCharacter :: patternParts fuel rest
  | fuel + 1, ('[', false) :: rest =>
    let (inside, content) := match rest with
      | ('!', false) :: content => (false, content)
      | content => (true, content)
    match splitBracket content with
    | some (characters, after) => .oneOf inside (rangesOf characters) :: patternParts fuel after
    | none => .character '[' :: patternParts fuel rest
  | fuel + 1, (c, _) :: rest => .character c :: patternParts fuel rest

/-- Whether parts match a text. -/
def partsMatch : List PatternPart → List Char → Bool
  | [], text => text.isEmpty
  | .anyText :: parts, text =>
    (List.range (text.length + 1)).any fun count ↦ partsMatch parts (text.drop count)
  | _, [] => false
  | .character d :: parts, c :: text => c == d && partsMatch parts text
  | .anyCharacter :: parts, _ :: text => partsMatch parts text
  | .oneOf inside ranges :: parts, c :: text =>
    (ranges.any (fun (first, last) ↦ first ≤ c && c ≤ last) == inside) && partsMatch parts text

/-- Whether a pattern matches a text. -/
def patternMatches (pattern : List Marked) (text : List Char) : Bool :=
  partsMatch (patternParts (pattern.length + 1) pattern) text

/-- Whether a text has characters that match others. -/
def isPattern (text : List Marked) : Bool :=
  text.any fun marked ↦ marked ∈ [('*', false), ('?', false), ('[', false)]

/-- A text without what a pattern matches at its start or end, as little or as much as it can. -/
def withoutMatch (atStart longest : Bool) (pattern : List Marked) (text : List Char) : List Char :=
  let counts := List.range (text.length + 1)
  let fits := fun count : Nat ↦
    patternMatches pattern (if atStart then text.take count else text.drop (text.length - count))
  match (if longest then counts.reverse else counts).find? fits with
  | some count => if atStart then text.drop count else text.take (text.length - count)
  | none => text

end Montage.Script
