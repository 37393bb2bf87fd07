import Montage.Toml.Scalar

/-!
# Lines of a settings file

A settings file is a sequence of statements, each of which ends with its line: a header opens a
table, a header between double brackets adds an item to a list of tables, and an assignment gives a
key its value. A value may be a list, over as many lines as it likes, or a table between braces.
Lists and tables may lie in one another only so deep, and keys have only so many parts.

What a sequence of statements means is in `Montage.Toml.Document`.
-/

set_option autoImplicit false
set_option relaxedAutoImplicit false

namespace Montage.Toml

/-- The greatest depth of values, and the greatest number of parts of a key. -/
def maxDepth : Nat := 79

/-! ### Blanks and comments -/

/-- The text without spaces in front. -/
def skipSpaces (text : List Char) : List Char := text.dropWhile isSpace

/-- The text after a comment, which ends where its line ends. -/
def skipComment : List Char → Option (List Char)
  | [] => some []
  | '\n' :: rest => some ('\n' :: rest)
  | '\r' :: '\n' :: rest => some ('\r' :: '\n' :: rest)
  | c :: rest => if isVisible c then skipComment rest else none

/-- The text after the rest of a line, which may hold a comment but nothing else. -/
def endLine (text : List Char) : Option (List Char) :=
  let after? := match skipSpaces text with
    | '#' :: comment => skipComment comment
    | rest => some rest
  after?.bind fun after ↦
    if after.isEmpty then some []
    else if startsLine after then some (dropLineEnd after)
    else none

/-- The text without spaces, line ends and comments in front, where it may begin inside a comment. A
comment that does not end in a line end is none. -/
def skipGap : (inComment : Bool) → List Char → Option (List Char)
  | inComment, [] => if inComment then none else some []
  | _, '\n' :: rest => skipGap false rest
  | _, '\r' :: '\n' :: rest => skipGap false rest
  | true, c :: rest => if isVisible c then skipGap true rest else none
  | false, '#' :: rest => skipGap true rest
  | false, c :: rest => if isSpace c then skipGap false rest else some (c :: rest)

/-! ### Keys -/

/-- Whether a character may stand in a key without quotes. -/
def isKeyChar (c : Char) : Bool := c.isAlphanum || c == '_' || c == '-'

/-- Reads a part of a key. -/
def readKeyPart (text : List Char) : Option (String × List Char) :=
  if startsQuoted text then
    (readLineText text).map fun (characters, rest) ↦ (String.ofList characters, rest)
  else
    let characters := text.takeWhile isKeyChar
    if characters = [] then none
    else some (String.ofList characters, text.dropWhile isKeyChar)

/-- Reads a key of at most this many parts, with points between them and spaces around them. -/
def readKey : (parts : Nat) → Reader (List String)
  | 0, _ => none
  | parts + 1, text =>
    (readKeyPart (skipSpaces text)).bind fun (part, rest) ↦
      match skipSpaces rest with
      | '.' :: more => (readKey parts more).map fun (key, rest) ↦ (part :: key, rest)
      | rest => some ([part], rest)

/-! ### Values -/

/-- An assignment: the parts of the key and the value. -/
abbrev Assignment := List String × Value

/-- Reads an assignment, given how to read its value. -/
def readAssignment (readValue : Reader Value) : Reader Assignment := fun text ↦
  (readKey maxDepth text).bind fun (key, rest) ↦
    match rest with
    | '=' :: rest => (readValue (skipSpaces rest)).map fun (value, rest) ↦ ((key, value), rest)
    | _ => none

/-- Reads the items of a list up to its closing bracket, at most `fuel` of them. -/
def readItems (readValue : Reader Value) : (fuel : Nat) → Reader (List Value)
  | 0, _ => none
  | fuel + 1, text =>
    (skipGap false text).bind fun
      | ']' :: rest => some ([], rest)
      | text =>
        (readValue text).bind fun (item, rest) ↦
          (skipGap false rest).bind fun
            | ']' :: rest => some ([item], rest)
            | ',' :: rest =>
              (readItems readValue fuel rest).map fun (items, rest) ↦ (item :: items, rest)
            | _ => none

/-- Reads the assignments of a table up to its closing brace, at most `fuel` of them. -/
def readPairs (readValue : Reader Value) : (fuel : Nat) → Reader (List Assignment)
  | 0, _ => none
  | fuel + 1, text =>
    (readAssignment readValue text).bind fun (pair, rest) ↦
      match skipSpaces rest with
      | '\x7d' :: rest => some ([pair], rest)
      | ',' :: rest =>
        (readPairs readValue fuel rest).map fun (pairs, rest) ↦ (pair :: pairs, rest)
      | _ => none

/-- Changes the value of a key, which may be missing, unless the change fails. -/
def alterEntry (key : String) (change : Option Value → Option Value) : Entries → Option Entries
  | [] => (change none).map fun value ↦ [(key, value)]
  | (other, value) :: rest =>
    if other = key then (change (some value)).map fun value ↦ (other, value) :: rest
    else (alterEntry key change rest).map fun rest ↦ (other, value) :: rest

/-- Gives a key its value. Tables on the way are made when they are missing; otherwise they must
not have a header or braces of their own, and the last one has to come from such a key too. -/
def assign (value : Value) : (key : List String) → Entries → Option Entries
  | [] => fun _ ↦ none
  | [last] => alterEntry last fun
    | none => some value
    | some _ => none
  | part :: key => alterEntry part fun
    | none => (assign value key []).map (.table .dotted)
    | some (.table .dotted entries) => (assign value key entries).map (.table .dotted)
    | some (.table .implied entries) =>
      if key.length = 1 then none else (assign value key entries).map (.table .implied)
    | some (.tables items) =>
      if key.length = 1 then none
      else items.getLast?.bind fun entries ↦
        (assign value key entries).map fun entries ↦ .tables (items.dropLast ++ [entries])
    | some _ => none

/-- The entries that assignments make. -/
def assignAll (assignments : List Assignment) (entries : Entries) : Option Entries :=
  assignments.foldlM (fun entries (key, value) ↦ assign value key entries) entries

/-- Reads a value at most `depth` lists and tables deep. -/
def readValue : (depth : Nat) → Reader Value
  | 0, text => readScalar text
  | depth + 1, text =>
    match text with
    | '[' :: rest =>
      (readItems (readValue depth) (rest.length + 1) rest).map fun (items, rest) ↦
        (.array items, rest)
    | '\x7b' :: rest =>
      match skipSpaces rest with
      | '\x7d' :: rest => some (.table .braced [], rest)
      | rest =>
        (readPairs (readValue depth) rest.length rest).bind fun (pairs, rest) ↦
          (assignAll pairs []).map fun entries ↦ (.table .braced entries, rest)
    | text => readScalar text

/-! ### Statements -/

/-- What a line says. -/
inductive Statement where
  /-- The lines that follow are about the table of this key. -/
  | header (key : List String)
  /-- The lines that follow are about a new item of the list of tables of this key. -/
  | item (key : List String)
  /-- A key has a value. -/
  | assignment (key : List String) (value : Value)
deriving Repr

/-- Reads a statement, without the rest of its line. -/
def readStatement (text : List Char) : Option (Statement × List Char) :=
  match text with
  | '[' :: '[' :: rest =>
    (readKey maxDepth rest).bind fun
      | (key, ']' :: ']' :: rest) => some (.item key, rest)
      | _ => none
  | '[' :: rest =>
    (readKey maxDepth rest).bind fun
      | (key, ']' :: rest) => some (.header key, rest)
      | _ => none
  | text =>
    (readAssignment (readValue maxDepth) text).map fun ((key, value), rest) ↦
      (.assignment key value, rest)

/-- Reads statements to the end of the text, at most `fuel` lines. -/
def readStatements : (fuel : Nat) → List Char → Option (List Statement)
  | 0, _ => none
  | fuel + 1, text =>
    match skipSpaces text with
    | [] => some []
    | rest =>
      if rest.head? = some '#' ∨ startsLine rest then
        (endLine rest).bind (readStatements fuel)
      else
        (readStatement rest).bind fun (statement, rest) ↦
          (endLine rest).bind fun rest ↦
            (readStatements fuel rest).map (statement :: ·)

/-- Reads the statements of a settings file, which may begin with a byte order mark. -/
def statements? (text : List Char) : Option (List Statement) :=
  let text := if text.head? = some '\ufeff' then text.tail else text
  readStatements (text.length + 1) text

end Montage.Toml
