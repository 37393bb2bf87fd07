import Montage.Numeric.Notation
import Montage.Text.Pieces
import Montage.Toml.Text
import Montage.Toml.Value

/-!
# Single values of a settings file

Numbers, truth values, dates and times are written without quotes. The characters of such a value
run up to the first character that cannot belong to it (`readWord`), and its form decides what it
is. Underscores may stand between digits, whole numbers have 64 bits and a sign, and dates and times
have to exist. A date may be followed by one space and a time.
-/

set_option autoImplicit false
set_option relaxedAutoImplicit false

namespace Montage.Toml

open Numeric

/-! ### Numbers -/

/-- The digits of a number, without the underscores between them. -/
def ungroup? (isDigit : Char → Bool) (word : List Char) : Option (List Char) :=
  let groups := Text.cut (· == '_') word
  if groups.all fun group ↦ group ≠ [] && group.all isDigit then some groups.flatten else none

/-- The digits of the whole part of a number, which has no zeros in front. -/
def wholeDigits? (word : List Char) : Option (List Char) :=
  match ungroup? Char.isDigit word with
  | some ('0' :: _ :: _) => none
  | digits? => digits?

/-- Whether a word has a sign in front, and the word without it. -/
def splitSign : List Char → Bool × List Char
  | '-' :: word => (true, word)
  | '+' :: word => (false, word)
  | word => (false, word)

/-- The value of digits to a base. -/
def valueInBase (base : Nat) (digits : List Char) : Nat :=
  digits.foldl (fun value c ↦ base * value + (hexDigit? c).getD 0) 0

/-- The whole number that a word stands for, whatever its size. -/
def anyInteger? (word : List Char) : Option Int :=
  let inBase (base : Nat) (digits : List Char) : Option Int :=
    let isDigit := fun c ↦ (hexDigit? c).any (· < base)
    (ungroup? isDigit digits).map fun digits ↦ (valueInBase base digits : Int)
  match word with
  | '0' :: 'x' :: digits => inBase 16 digits
  | '0' :: 'o' :: digits => inBase 8 digits
  | '0' :: 'b' :: digits => inBase 2 digits
  | _ =>
    let (negative, digits) := splitSign word
    (wholeDigits? digits).map fun digits ↦
      if negative then -(digitsValue digits : Int) else digitsValue digits

/-- The number of whole numbers of 64 bits that are not negative. -/
def integerBound : Int := 9223372036854775808

/-- The whole number of 64 bits that a word stands for. -/
def integer? (word : List Char) : Option Int :=
  match anyInteger? word with
  | some value => if -integerBound ≤ value ∧ value < integerBound then some value else none
  | none => none

/-- Whether a word is an exponent: a letter, perhaps a sign, and digits. -/
def isExponent : List Char → Bool
  | [] => false
  | e :: rest => (e == 'e' || e == 'E') && (ungroup? Char.isDigit (splitSign rest).2).isSome

/-- Whether a word follows the whole part of a number with a fraction or an exponent. -/
def isFraction : List Char → Bool
  | '.' :: rest =>
    let isPlace := fun c : Char ↦ c.isDigit || c == '_'
    let exponent := rest.dropWhile isPlace
    (ungroup? Char.isDigit (rest.takeWhile isPlace)).isSome &&
      (exponent.isEmpty || isExponent exponent)
  | rest => isExponent rest

/-- The number with a fraction or an exponent that a word stands for. One that is too great to be
finite is none, but its negative is infinite. -/
def real? (word : List Char) : Option Binary64 :=
  let unsigned := (splitSign word).2
  let isPlace := fun c : Char ↦ c.isDigit || c == '_'
  if unsigned = ['i', 'n', 'f'] ∨ unsigned = ['n', 'a', 'n'] then Binary64.ofChars? word
  else if (wholeDigits? (unsigned.takeWhile isPlace)).isSome ∧
      isFraction (unsigned.dropWhile isPlace) then
    match Binary64.ofChars? (word.filter (· != '_')) with
    | some x => if x = .infinite false then none else some x
    | none => none
  else none

/-! ### Dates and times -/

/-- Takes two digits that stand for a number in a range. -/
def readPair (least greatest : Nat) : Reader Nat
  | a :: b :: rest =>
    let value := digitsValue [a, b]
    if a.isDigit ∧ b.isDigit ∧ least ≤ value ∧ value ≤ greatest then some (value, rest) else none
  | _ => none

/-- Takes one character. -/
def readChar (c : Char) : Reader Unit
  | d :: rest => if d = c then some ((), rest) else none
  | [] => none

/-- The number of days in a month. -/
def daysInMonth (year month : Nat) : Nat :=
  if month = 2 then
    if year % 4 = 0 ∧ (year % 100 ≠ 0 ∨ year % 400 = 0) then 29 else 28
  else if month ∈ [4, 6, 9, 11] then 30
  else 31

/-- Takes a date off the front of a word. -/
def readDate (word : List Char) : Option (List Char) := do
  let (century, rest) ← readPair 0 99 word
  let (year, rest) ← readPair 0 99 rest
  let (_, rest) ← readChar '-' rest
  let (month, rest) ← readPair 1 12 rest
  let (_, rest) ← readChar '-' rest
  let (_, rest) ← readPair 1 (daysInMonth (100 * century + year) month) rest
  return rest

/-- Takes a time of day off the front of a word. -/
def readTime (word : List Char) : Option (List Char) := do
  let (_, rest) ← readPair 0 23 word
  let (_, rest) ← readChar ':' rest
  let (_, rest) ← readPair 0 59 rest
  let (_, rest) ← readChar ':' rest
  let (_, rest) ← readPair 0 60 rest
  match rest with
  | '.' :: fraction =>
    if (fraction.takeWhile Char.isDigit).isEmpty then none
    else return fraction.dropWhile Char.isDigit
  | _ => return rest

/-- Whether a word is the distance of a time zone, or nothing. -/
def isOffset : List Char → Bool
  | [] => true
  | sign :: rest =>
    if sign = 'Z' ∨ sign = 'z' then rest.isEmpty
    else if sign = '+' ∨ sign = '-' then
      let after? := do
        let (_, rest) ← readPair 0 23 rest
        let (_, rest) ← readChar ':' rest
        let (_, rest) ← readPair 0 59 rest
        return rest
      after? == some []
    else false

/-- Whether a word is a time of day, perhaps with a time zone. -/
def isZonedTime (word : List Char) : Bool := (readTime word).any isOffset

/-- Whether a word is a date, a time of day, or both. -/
def isMoment (word : List Char) : Bool :=
  match readDate word with
  | some [] => true
  | some (delimiter :: time) =>
    (delimiter == 'T' || delimiter == 't' || delimiter == ' ') && isZonedTime time
  | none => readTime word == some []

/-! ### Words -/

/-- Whether a character ends a value without quotes. -/
def endsWord (c : Char) : Bool := c ∈ [' ', '\t', '\r', '\n', '#', ',', ']', '\x7d']

/-- Takes a value without quotes: a date, a space and a time are one value. -/
def readWord (text : List Char) : List Char × List Char :=
  let word := text.takeWhile (!endsWord ·)
  match readDate word, text.dropWhile (!endsWord ·) with
  | some [], ' ' :: c :: rest =>
    if c.isDigit then
      (word ++ ' ' :: (c :: rest).takeWhile (!endsWord ·), (c :: rest).dropWhile (!endsWord ·))
    else (word, ' ' :: c :: rest)
  | _, rest => (word, rest)

/-- The value that a word stands for. -/
def valueOfWord? (word : List Char) : Option Value :=
  if word = ['t', 'r', 'u', 'e'] then some (.boolean true)
  else if word = ['f', 'a', 'l', 's', 'e'] then some (.boolean false)
  else if isMoment word then some (.moment (String.ofList word))
  else match integer? word, real? word with
    | some n, _ => some (.integer n)
    | none, some x => some (.real x)
    | none, none => none

/-- Whether a text begins with a quote. -/
def startsQuoted (text : List Char) : Bool :=
  text.head? == some '"' || text.head? == some '\''

/-- Reads a value that is neither a list nor a table. -/
def readScalar (text : List Char) : Option (Value × List Char) :=
  if startsQuoted text then
    (readText text).map fun (characters, rest) ↦ (.text (String.ofList characters), rest)
  else
    let (word, rest) := readWord text
    (valueOfWord? word).map fun value ↦ (value, rest)

end Montage.Toml
