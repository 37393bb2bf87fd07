import Montage.Text.Blank

/-!
# Pieces of a text

Texts are taken apart as lists of characters: cut at separators (`cut`), into lines (`lines`) and
into words between blanks (`words`), and trimmed of blanks at their ends (`trim`). A text cut at
separators always has one piece more than it has separators; lines and words leave out empty pieces
as their doc comments say.
-/

set_option autoImplicit false
set_option relaxedAutoImplicit false

namespace Montage.Text

/-- The pieces between the characters that are separators. -/
def cut (isSeparator : Char → Bool) : List Char → List (List Char)
  | [] => [[]]
  | c :: rest =>
    if isSeparator c then [] :: cut isSeparator rest
    else match cut isSeparator rest with
      | [] => [[c]]
      | piece :: pieces => (c :: piece) :: pieces

/-- The part before the first separator and the part after it, if there is a separator. -/
def cutOnce? (separator : Char) (text : List Char) : Option (List Char × List Char) :=
  match text.dropWhile (· != separator) with
  | [] => none
  | _ :: rest => some (text.takeWhile (· != separator), rest)

/-- The text without a carriage return at its end. -/
def dropReturn (text : List Char) : List Char :=
  if text.getLast? = some '\r' then text.dropLast else text

/-- The lines of a text. A line ends with a line feed, or with a carriage return and a line feed;
the last line may lack its end, and then keeps its carriage return. -/
def lines (text : List Char) : List (List Char) :=
  let pieces := cut (· == '\n') text
  let ended := pieces.dropLast.map dropReturn
  match pieces.getLast? with
  | none | some [] => ended
  | some last => ended ++ [last]

/-- The longest pieces without blanks. -/
def words (text : List Char) : List (List Char) :=
  (cut isBlank text).filter (· ≠ [])

/-- The text without blanks at its start. -/
def trimStart (text : List Char) : List Char := text.dropWhile isBlank

/-- The text without blanks at its end. -/
def trimEnd (text : List Char) : List Char := (text.reverse.dropWhile isBlank).reverse

/-- The text without blanks at its ends. -/
def trim (text : List Char) : List Char := trimEnd (trimStart text)

end Montage.Text
