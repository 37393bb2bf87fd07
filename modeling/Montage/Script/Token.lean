import Montage.Script.Word
import Montage.Text.Pieces

/-!
# Tokens of a script

A script is cut into words, operators and redirections. A comment runs from a number sign that
begins a word to the end of its line. Every word knows its line, which messages mention.
-/

set_option autoImplicit false
set_option relaxedAutoImplicit false

namespace Montage.Script

/-- A token. -/
inductive Token where
  /-- A word. -/
  | word (line : Nat) (pieces : Word)
  /-- Characters that join or end commands; the end of a line is one too. -/
  | operator (text : String)
  /-- The beginning of a redirection, and the number of the channel if it is given. -/
  | redirection (channel : Option Nat) (operator : String)
deriving DecidableEq, Repr

/-- The operators of redirections, longer ones first. -/
def redirectionOperators : List String := ["<<-", "<<", ">>", ">&", "<&", ">|", ">", "<"]

/-- The operators that join or end commands, longer ones first. -/
def commandOperators : List String := ["&&", "||", ";;", ";", "&", "|", "(", ")", "\n"]

/-- Takes the first of some operators off the front of a text. -/
def readOperator? (operators : List String) (text : List Char) : Option (String × List Char) :=
  (operators.find? fun operator ↦ operator.toList.isPrefixOf text).map fun operator ↦
    (operator, text.drop operator.length)

/-- The number that digits stand for. -/
def numberOf (digits : List Char) : Nat :=
  digits.foldl (fun value c ↦ 10 * value + (c.toNat - '0'.toNat)) 0

/-- Reads a redirection, which may begin with the number of a channel. -/
def readRedirection? (text : List Char) : Option (Token × List Char) :=
  let digits := text.takeWhile Char.isDigit
  (readOperator? redirectionOperators (text.drop digits.length)).map fun (operator, rest) ↦
    (.redirection (if digits = [] then none else some (numberOf digits)) operator, rest)

/-- Splits lines before the line that is a mark, perhaps after tabs that do not count. -/
def splitAtMark (dropsTabs : Bool) (mark : List Char) :
    List (List Char) → List (List Char) × List (List Char)
  | [] => ([], [])
  | line :: lines =>
    let line := if dropsTabs then line.dropWhile (· == '\t') else line
    if line = mark then ([], lines)
    else
      let (inside, after) := splitAtMark dropsTabs mark lines
      (line :: inside, after)

/-- A word whose text stands in the lines that follow, up to a mark, and the text without those
lines. Values are put in unless the mark is quoted. -/
def readInline? (dropsTabs : Bool) (text : List Char) : Option (Word × List Char) :=
  (readPieces (text.length + 2) false (text.dropWhile isSpace)).bind fun (pieces, rest) ↦
    let isQuoted := (plainText? pieces).isNone
    let mark := pieces.flatMap fun
      | .characters _ text => text
      | _ => []
    match Text.cut (· == '\n') rest with
    | [] => none
    | thisLine :: following =>
      let (inside, after) := splitAtMark dropsTabs mark following
      let content := inside.flatMap (· ++ ['\n'])
      let escaped := content.flatMap fun c ↦ if c = '"' then ['\\', c] else [c]
      let word := if isQuoted then [.characters true content] else wordOf true escaped
      some (word, ['\n'].intercalate (thisLine :: after))

/-- Reads tokens to the end of the text, at most `fuel` tokens and blanks. -/
def readTokens : (fuel line : Nat) → List Char → Option (List Token)
  | 0, _, _ => none
  | _ + 1, _, [] => some []
  | fuel + 1, line, '\\' :: '\n' :: rest => readTokens fuel (line + 1) rest
  | fuel + 1, line, c :: rest =>
    if isSpace c then readTokens fuel line rest
    else if c = '#' then readTokens fuel line (rest.dropWhile (· != '\n'))
    else match readRedirection? (c :: rest), readOperator? commandOperators (c :: rest) with
      | some (.redirection channel "<<", rest), _ =>
        (readInline? false rest).bind fun (word, rest) ↦
          (readTokens fuel line rest).map ([.redirection channel "<<", .word line word] ++ ·)
      | some (.redirection channel "<<-", rest), _ =>
        (readInline? true rest).bind fun (word, rest) ↦
          (readTokens fuel line rest).map ([.redirection channel "<<", .word line word] ++ ·)
      | some (token, rest), _ => (readTokens fuel line rest).map (token :: ·)
      | none, some (operator, rest) =>
        (readTokens fuel (if operator = "\n" then line + 1 else line) rest).map
          (.operator operator :: ·)
      | none, none =>
        (readPieces (rest.length + 2) false (c :: rest)).bind fun (pieces, after) ↦
          let lines := (c :: rest).count '\n' - after.count '\n'
          (readTokens fuel (line + lines) after).map (.word line pieces :: ·)

/-- The tokens of a script. -/
def tokensOf? (text : List Char) : Option (List Token) := readTokens (text.length + 1) 1 text

end Montage.Script
