/-!
# Words of a script

A word of a script is put together from pieces: characters as they stand, values of parameters, the
output of other commands and sums. Quotes decide whether a value may fall apart into several fields
and whether its characters may stand for others. A word is read up to the first character that
separates words; what stands between the braces and parentheses of a piece is kept as text, and read
when the piece gets its value.
-/

set_option autoImplicit false
set_option relaxedAutoImplicit false

namespace Montage.Script

/-- What is taken of the value of a parameter. -/
inductive Modifier where
  /-- The value. -/
  | whole
  /-- The number of its characters. -/
  | length
  /-- The value, or a word if the parameter is missing, or also if it is `orEmpty`. The word may
  become the parameter's value. -/
  | orElse (orEmpty assigns : Bool) (word : List Char)
  /-- A word, unless the parameter is missing, or also if it is `orEmpty`. -/
  | ifPresent (orEmpty : Bool) (word : List Char)
  /-- The value without what a pattern matches at its start or end. -/
  | without (atStart longest : Bool) (pattern : List Char)
deriving DecidableEq, Repr

/-- A piece of a word. -/
inductive Piece where
  /-- Characters as they stand. -/
  | characters (quoted : Bool) (text : List Char)
  /-- The value of a parameter. -/
  | parameter (quoted : Bool) (name : String) (modifier : Modifier)
  /-- The output of a script. -/
  | outputOf (quoted : Bool) (script : List Char)
  /-- The value of a sum. -/
  | sum (quoted : Bool) (expression : List Char)
deriving DecidableEq, Repr

/-- A word, as its pieces. -/
abbrev Word := List Piece

/-- The text of a word without quotes and values. -/
def plainText? : Word → Option (List Char)
  | [] => some []
  | .characters false text :: pieces => (plainText? pieces).map (text ++ ·)
  | _ => none

/-- The space and the tab. -/
def isSpace (c : Char) : Bool := c == ' ' || c == '\t'

/-- Whether a character ends a word. -/
def endsWord (c : Char) : Bool := isSpace c || c ∈ ['\n', ';', '&', '|', '<', '>', '(', ')']

/-- Whether a character may begin a name. -/
def startsName (c : Char) : Bool := c.isAlpha || c == '_'

/-- Whether a character may stand in a name. -/
def isNameChar (c : Char) : Bool := startsName c || c.isDigit

/-- Whether a text is a name. -/
def isName (text : List Char) : Bool := text.head?.any startsName && text.all isNameChar

/-- Splits a text before the closing character that belongs to an opening one in front of the text.
Characters between quotes do not count. -/
def untilClosing (opening closing : Char) :
    (depth : Nat) → (quote : Option Char) → List Char → Option (List Char × List Char)
  | _, _, [] => none
  | depth, some '\'', c :: rest =>
    (untilClosing opening closing depth (if c = '\'' then none else some '\'') rest).map
      fun (inside, rest) ↦ (c :: inside, rest)
  | depth, quote, '\\' :: c :: rest =>
    (untilClosing opening closing depth quote rest).map
      fun (inside, rest) ↦ ('\\' :: c :: inside, rest)
  | depth, some quote, c :: rest =>
    (untilClosing opening closing depth (if c = quote then none else some quote) rest).map
      fun (inside, rest) ↦ (c :: inside, rest)
  | depth, none, c :: rest =>
    if c = closing ∧ depth = 0 then some ([], rest)
    else
      let depth := if c = closing then depth - 1 else if c = opening then depth + 1 else depth
      let quote := if c = '\'' ∨ c = '"' then some c else none
      (untilClosing opening closing depth quote rest).map fun (inside, rest) ↦ (c :: inside, rest)

/-- Reads what stands after the name of a parameter between braces. -/
def modifierOf? : List Char → Option Modifier
  | [] => some .whole
  | ':' :: '-' :: word => some (.orElse true false word)
  | '-' :: word => some (.orElse false false word)
  | ':' :: '=' :: word => some (.orElse true true word)
  | '=' :: word => some (.orElse false true word)
  | ':' :: '+' :: word => some (.ifPresent true word)
  | '+' :: word => some (.ifPresent false word)
  | '#' :: '#' :: pattern => some (.without true true pattern)
  | '#' :: pattern => some (.without true false pattern)
  | '%' :: '%' :: pattern => some (.without false true pattern)
  | '%' :: pattern => some (.without false false pattern)
  | _ => none

/-- The names of parameters that are a single character. -/
def isSpecial (c : Char) : Bool := c ∈ ['@', '*', '#', '?', '$', '!', '-'] || c.isDigit

/-- Splits a text after the name of a parameter. -/
def splitName (text : List Char) : List Char × List Char :=
  match text with
  | c :: rest =>
    if startsName c then (text.takeWhile isNameChar, text.dropWhile isNameChar)
    else if c.isDigit then (text.takeWhile Char.isDigit, text.dropWhile Char.isDigit)
    else if isSpecial c then ([c], rest)
    else ([], text)
  | [] => ([], [])

/-- Reads a parameter between braces. -/
def parameterOf? (quoted : Bool) (inside : List Char) : Option Piece :=
  match inside with
  | '#' :: c :: rest =>
    let (name, after) := splitName (c :: rest)
    if name ≠ [] ∧ after = [] then some (.parameter quoted (String.ofList name) .length)
    else (modifierOf? ('#' :: c :: rest)).map (.parameter quoted "#")
  | _ =>
    let (name, after) := splitName inside
    if name = [] then none
    else (modifierOf? after).map (.parameter quoted (String.ofList name))

/-- Reads a piece after a dollar sign, which stands for itself if nothing fitting follows. -/
def readDollar (quoted : Bool) (text : List Char) : Option (Piece × List Char) :=
  match text with
  | '(' :: rest =>
    (untilClosing '(' ')' 0 none rest).map fun (inside, rest) ↦
      match inside with
      | '(' :: expression => (.sum quoted expression.dropLast, rest)
      | script => (.outputOf quoted script, rest)
  | '\x7b' :: rest =>
    (untilClosing '\x7b' '\x7d' 0 none rest).bind fun (inside, rest) ↦
      (parameterOf? quoted inside).map fun piece ↦ (piece, rest)
  | c :: rest =>
    if startsName c then
      some (.parameter quoted (String.ofList (text.takeWhile isNameChar)) .whole,
        text.dropWhile isNameChar)
    else if isSpecial c then some (.parameter quoted c.toString .whole, rest)
    else some (.characters quoted ['$'], text)
  | [] => some (.characters quoted ['$'], [])

/-- Reads the pieces of a word, or those up to a closing double quote, at most `fuel` of them. -/
def readPieces : (fuel : Nat) → (quoted : Bool) → List Char → Option (List Piece × List Char)
  | 0, _, _ => none
  | fuel + 1, quoted, text =>
    let next (piece : List Piece) (rest : List Char) : Option (List Piece × List Char) :=
      (readPieces fuel quoted rest).map fun (pieces, rest) ↦ (piece ++ pieces, rest)
    match quoted, text with
    | true, [] => none
    | true, '"' :: rest => some ([], rest)
    | false, [] => some ([], [])
    | _, '\\' :: '\n' :: rest => next [] rest
    | true, '\\' :: c :: rest =>
      if c ∈ ['$', '\x60', '"', '\\'] then next [.characters true [c]] rest
      else next [.characters true ['\\', c]] rest
    | false, '\\' :: c :: rest => next [.characters true [c]] rest
    | _, '$' :: rest => (readDollar quoted rest).bind fun (piece, rest) ↦ next [piece] rest
    | _, '\x60' :: rest =>
      (untilClosing '\x60' '\x60' 0 none rest).bind fun (script, rest) ↦
        next [.outputOf quoted script] rest
    | false, '\'' :: rest =>
      match rest.dropWhile (· != '\'') with
      | [] => none
      | _ :: after => next [.characters true (rest.takeWhile (· != '\''))] after
    | false, '"' :: rest =>
      (readPieces fuel true rest).bind fun (inside, rest) ↦
        next (if inside = [] then [.characters true []] else inside) rest
    | _, c :: rest =>
      if !quoted && endsWord c then some ([], c :: rest) else next [.characters quoted [c]] rest

/-- Reads a whole text as the inside of a word, between double quotes or not. -/
def wordOf (quoted : Bool) (text : List Char) : Word :=
  let enclosed := if quoted then text ++ ['"'] else text
  match readPieces (enclosed.length + 1) quoted enclosed with
  | some (pieces, []) => pieces
  | _ => [.characters true text]

end Montage.Script
