import Montage.Toml.Text

/-!
# Writing a settings file

A text is written in the quotes that need the fewest escapes. Double quotes are tried first: on one
line if the text has no line end, no quote and nothing to be escaped; then single quotes, which
escape nothing; then three double quotes and three single quotes, in which line ends and up to two
quotes in a row may stand. Failing all of these, the text is escaped. A list of two or more items
has each of them on a line of its own.
-/

set_option autoImplicit false
set_option relaxedAutoImplicit false

namespace Montage.Toml

/-- Whether a character can only be written as an escape. -/
def needsCode (c : Char) : Bool :=
  decide (c.toNat < 0x20) && c != '\t' && c != '\n' || c == '\x7f'

/-- The escape of a character by its code point. -/
def codeEscape (c : Char) : List Char :=
  let digits := (Nat.toDigits 16 c.toNat).map Char.toUpper
  '\\' :: 'u' :: List.replicate (4 - digits.length) '0' ++ digits

/-- A character between double quotes. -/
def escapeChar (c : Char) : List Char :=
  match c with
  | '\x08' => ['\\', 'b']
  | '\t' => ['\\', 't']
  | '\n' => ['\\', 'n']
  | '\x0c' => ['\\', 'f']
  | '\r' => ['\\', 'r']
  | '"' => ['\\', '"']
  | '\\' => ['\\', '\\']
  | _ => if needsCode c then codeEscape c else [c]

/-- A text between three double quotes, after a number of quotes in a row: line ends stand for
themselves, and so do quotes, except every third one in a row. -/
def escapeLines : (quotes : Nat) → List Char → List Char
  | _, [] => []
  | quotes, '"' :: rest =>
    if quotes = 2 then '\\' :: '"' :: escapeLines 0 rest else '"' :: escapeLines (quotes + 1) rest
  | _, '\n' :: rest => '\n' :: escapeLines 0 rest
  | _, c :: rest => escapeChar c ++ escapeLines 0 rest

/-- The greatest number of times that a character stands in a row. -/
def longestRun (c : Char) (text : List Char) : Nat :=
  ((text.splitBy (· == ·)).map fun run ↦ if run.head? = some c then run.length else 0).foldl max 0

/-- Quotes around a text. -/
inductive Quotes where
  /-- Double quotes. -/
  | double
  /-- Single quotes. -/
  | single
  /-- Three double quotes. -/
  | tripleDouble
  /-- Three single quotes. -/
  | tripleSingle
deriving DecidableEq, Repr

/-- The quotes that a text is written in. -/
def Quotes.of (text : List Char) : Quotes :=
  let coded := text.any needsCode
  let lines := text.contains '\n'
  let backslash := text.contains '\\'
  if !coded && !lines && !backslash && !text.contains '"' then double
  else if !coded && !lines && !text.contains '\'' then single
  else if !coded && !backslash && decide (longestRun '"' text ≤ 2) then tripleDouble
  else if !coded && decide (longestRun '\'' text ≤ 2) then tripleSingle
  else if lines then tripleDouble
  else double

/-- A text between quotes. Three quotes are followed by a line end if the text has one. -/
def textChars (text : List Char) : List Char :=
  let opening := if text.contains '\n' then ['\n'] else []
  match Quotes.of text with
  | .double => '"' :: text.flatMap escapeChar ++ ['"']
  | .single => '\'' :: text ++ ['\'']
  | .tripleDouble => ['"', '"', '"'] ++ opening ++ escapeLines 0 text ++ ['"', '"', '"']
  | .tripleSingle => ['\'', '\'', '\''] ++ opening ++ text ++ ['\'', '\'', '\'']

/-- A list of texts. -/
def listChars (items : List (List Char)) : List Char :=
  match items with
  | [] => ['[', ']']
  | [item] => '[' :: textChars item ++ [']']
  | _ =>
    '[' :: '\n' ::
      items.flatMap (fun item ↦ [' ', ' ', ' ', ' '] ++ textChars item ++ [',', '\n']) ++
      [']']

/-- A truth value. -/
def truthChars (value : Bool) : List Char := (if value then "true" else "false").toList

/-- The line that gives a key its written value. -/
def lineChars (key : String) (value : List Char) : List Char :=
  key.toList ++ [' ', '=', ' '] ++ value ++ ['\n']

/-- The header of a table, with its lines. -/
def tableChars (key : String) (lines : List (List Char)) : List Char :=
  '[' :: key.toList ++ [']', '\n'] ++ lines.flatten

end Montage.Toml
