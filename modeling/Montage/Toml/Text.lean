/-!
# Texts of a settings file

A text stands between double quotes, where a backslash begins an escape, or between single quotes,
where every character stands for itself. Three quotes in place of one allow the text to span lines:
a line end right after the opening quotes does not count, and up to two quotes in a row belong to
the text. What is read is returned with what is left to read.
-/

set_option autoImplicit false
set_option relaxedAutoImplicit false

namespace Montage.Toml

/-- Takes something from the front of a text, and returns it with the rest. -/
abbrev Reader (α : Type) := List Char → Option (α × List Char)

/-- Puts a character in front of what is read next. -/
def before (c : Char) (next : Option (List Char × List Char)) : Option (List Char × List Char) :=
  next.map fun (text, rest) ↦ (c :: text, rest)

/-- The space and the tab. -/
def isSpace (c : Char) : Bool := c == ' ' || c == '\t'

/-- The characters that can stand for themselves: the tab and all that are no controls. -/
def isVisible (c : Char) : Bool :=
  c == '\t' || decide (0x20 ≤ c.toNat) && decide (c.toNat ≠ 0x7F)

/-- The value of a hexadecimal digit. -/
def hexDigit? (c : Char) : Option Nat :=
  if c.isDigit then some (c.toNat - '0'.toNat)
  else if 'a' ≤ c ∧ c ≤ 'f' then some (c.toNat - 'a'.toNat + 10)
  else if 'A' ≤ c ∧ c ≤ 'F' then some (c.toNat - 'A'.toNat + 10)
  else none

/-- The character whose code point has these hexadecimal digits. -/
def ofHex? (digits : List Char) : Option Char :=
  (digits.mapM hexDigit?).bind fun values ↦
    let code := values.foldl (fun code value ↦ 16 * code + value) 0
    if code.isValidChar then some (Char.ofNat code) else none

/-- The character that a letter stands for after a backslash. -/
def unescape? : Char → Option Char
  | 'b' => some '\x08'
  | 't' => some '\t'
  | 'n' => some '\n'
  | 'f' => some '\x0c'
  | 'r' => some '\r'
  | '"' => some '"'
  | '\\' => some '\\'
  | _ => none

/-- Puts a character that may not exist in front of what is read next. -/
def beforeSome (c? : Option Char) (next : Option (List Char × List Char)) :
    Option (List Char × List Char) :=
  c?.bind fun c ↦ before c next

/-- Reads a text up to its closing double quote. -/
def readQuoted : Reader (List Char)
  | [] => none
  | '"' :: rest => some ([], rest)
  | '\\' :: 'u' :: a :: b :: c :: d :: rest => beforeSome (ofHex? [a, b, c, d]) (readQuoted rest)
  | '\\' :: 'U' :: a :: b :: c :: d :: e :: f :: g :: h :: rest =>
    beforeSome (ofHex? [a, b, c, d, e, f, g, h]) (readQuoted rest)
  | '\\' :: c :: rest => beforeSome (unescape? c) (readQuoted rest)
  | c :: rest => if isVisible c ∧ c ≠ '\\' then before c (readQuoted rest) else none

/-- Reads a text up to its closing single quote. -/
def readLiteral : Reader (List Char)
  | [] => none
  | '\'' :: rest => some ([], rest)
  | c :: rest => if isVisible c then before c (readLiteral rest) else none

/-- Whether a text begins with a line end. -/
def startsLine : List Char → Bool
  | '\n' :: _ => true
  | '\r' :: '\n' :: _ => true
  | _ => false

/-- A text without a line end at its start. -/
def dropLineEnd : List Char → List Char
  | '\n' :: rest => rest
  | '\r' :: '\n' :: rest => rest
  | text => text

/-- Reads a text of several lines up to its closing double quotes. A backslash at the end of a line
joins the line to the next one: line ends and spaces after it are `joined` to it and do not
count. -/
def readQuotedLines : (joined : Bool) → Reader (List Char)
  | _, [] => none
  | _, '"' :: '"' :: '"' :: '"' :: '"' :: rest => some (['"', '"'], rest)
  | _, '"' :: '"' :: '"' :: '"' :: rest => some (['"'], rest)
  | _, '"' :: '"' :: '"' :: rest => some ([], rest)
  | _, '\\' :: 'u' :: a :: b :: c :: d :: rest =>
    beforeSome (ofHex? [a, b, c, d]) (readQuotedLines false rest)
  | _, '\\' :: 'U' :: a :: b :: c :: d :: e :: f :: g :: h :: rest =>
    beforeSome (ofHex? [a, b, c, d, e, f, g, h]) (readQuotedLines false rest)
  | _, '\\' :: c :: rest =>
    if startsLine ((c :: rest).dropWhile isSpace) then readQuotedLines true (c :: rest)
    else beforeSome (unescape? c) (readQuotedLines false rest)
  | joined, '\r' :: '\n' :: rest =>
    if joined then readQuotedLines true rest else before '\n' (readQuotedLines false rest)
  | joined, '\n' :: rest =>
    if joined then readQuotedLines true rest else before '\n' (readQuotedLines false rest)
  | joined, c :: rest =>
    if joined ∧ isSpace c then readQuotedLines true rest
    else if isVisible c ∧ c ≠ '\\' then before c (readQuotedLines false rest)
    else none

/-- Reads a text of several lines up to its closing single quotes. -/
def readLiteralLines : Reader (List Char)
  | [] => none
  | '\'' :: '\'' :: '\'' :: '\'' :: '\'' :: rest => some (['\'', '\''], rest)
  | '\'' :: '\'' :: '\'' :: '\'' :: rest => some (['\''], rest)
  | '\'' :: '\'' :: '\'' :: rest => some ([], rest)
  | '\r' :: '\n' :: rest => before '\n' (readLiteralLines rest)
  | '\n' :: rest => before '\n' (readLiteralLines rest)
  | c :: rest => if isVisible c then before c (readLiteralLines rest) else none

/-- Reads a text on one line. -/
def readLineText : Reader (List Char)
  | '"' :: rest => readQuoted rest
  | '\'' :: rest => readLiteral rest
  | _ => none

/-- Reads a text. -/
def readText : Reader (List Char)
  | '"' :: '"' :: '"' :: rest => readQuotedLines false (dropLineEnd rest)
  | '\'' :: '\'' :: '\'' :: rest => readLiteralLines (dropLineEnd rest)
  | text => readLineText text

end Montage.Toml
