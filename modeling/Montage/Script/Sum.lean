import Montage.Script.Token

/-!
# Sums

A sum is an expression over whole numbers of 64 bits, which wrap around. Truth is a number other
than zero. The operators bind as they do in the notation of most programming languages, and a name
stands for the number that its parameter holds.
-/

set_option autoImplicit false
set_option relaxedAutoImplicit false

namespace Montage.Script

/-- The number of numbers of 64 bits. -/
def wordCount : Nat := 18446744073709551616

/-- The number of 64 bits that a whole number wraps around to. -/
def wrap (n : Int) : Int := n.bmod wordCount

/-- The bits of a number of 64 bits, read as a number that is not negative. -/
def bitsOf (n : Int) : Nat := (n % wordCount).toNat

/-- One for truth. -/
def ofTruth (truth : Bool) : Int := if truth then 1 else 0

/-- The operators with two operands, from those that bind least, longer ones first. -/
def operatorLevels : List (List String) := [
  ["||"], ["&&"], ["|"], ["^"], ["&"], ["==", "!="], ["<=", ">=", "<", ">"], ["<<", ">>"],
  ["+", "-"], ["*", "/", "%"]]

/-- The characters after which an operator would be another one. -/
def isOtherOperator (operator : String) (rest : List Char) : Bool :=
  match operator, rest with
  | "|", '|' :: _ | "&", '&' :: _ | "<", '<' :: _ | ">", '>' :: _ => true
  | _, _ => false

/-- The value of an operator, unless it divides by zero. -/
def operate (operator : String) (a b : Int) : Option Int :=
  match operator with
  | "||" => some (ofTruth (a != 0 || b != 0))
  | "&&" => some (ofTruth (a != 0 && b != 0))
  | "|" => some (wrap (Nat.lor (bitsOf a) (bitsOf b)))
  | "^" => some (wrap (Nat.xor (bitsOf a) (bitsOf b)))
  | "&" => some (wrap (Nat.land (bitsOf a) (bitsOf b)))
  | "==" => some (ofTruth (a == b))
  | "!=" => some (ofTruth (a != b))
  | "<=" => some (ofTruth (a ≤ b))
  | ">=" => some (ofTruth (b ≤ a))
  | "<" => some (ofTruth (a < b))
  | ">" => some (ofTruth (b < a))
  | "<<" => some (wrap (a * Nat.pow 2 (b % 64).toNat))
  | ">>" => some (a / Nat.pow 2 (b % 64).toNat)
  | "+" => some (wrap (a + b))
  | "-" => some (wrap (a - b))
  | "*" => some (wrap (a * b))
  | "/" => if b = 0 then none else some (wrap (a.tdiv b))
  | "%" => if b = 0 then none else some (a.tmod b)
  | _ => none

/-- A text without blanks in front. -/
def skipBlanks (text : List Char) : List Char := text.dropWhile fun c ↦ isSpace c || c == '\n'

/-- Whether a character is a blank or ends a line. -/
def isLineBlank (c : Char) : Bool := isSpace c || c ∈ ['\n', '\r', '\x0b', '\x0c']

/-- The number that a text is, with an optional sign and blanks around it. -/
def integerOf? (text : List Char) : Option Int :=
  let trimmed := ((text.dropWhile isLineBlank).reverse.dropWhile isLineBlank).reverse
  let (negative, digits) := match trimmed with
    | '-' :: digits => (true, digits)
    | '+' :: digits => (false, digits)
    | digits => (false, digits)
  if digits ≠ [] ∧ digits.all Char.isDigit then
    some (if negative then -(numberOf digits : Int) else numberOf digits)
  else none

/-- Takes operators and further operands off the front of a text, at most `steps` of them. -/
def readMore (operators : List String) (readOperand : List Char → Option (Int × List Char)) :
    (steps : Nat) → Int → List Char → Option (Int × List Char)
  | 0, _, _ => none
  | steps + 1, value, rest =>
    match readOperator? operators (skipBlanks rest) with
    | some (operator, after) =>
      if isOtherOperator operator after then some (value, rest)
      else do
        let (next, rest) ← readOperand after
        readMore operators readOperand steps (← operate operator value next) rest
    | none => some (value, rest)

/-- Takes the value of an expression off the front of a text. The expression binds at least as the
operators of the levels given, and is read with at most `fuel` steps. -/
def readSum (valueOf : String → Option Int) :
    (fuel : Nat) → List (List String) → List Char → Option (Int × List Char)
  | 0, _, _ => none
  | fuel + 1, operators :: tighter, text => do
    let (first, rest) ← readSum valueOf fuel tighter text
    readMore operators (readSum valueOf fuel tighter) (rest.length + 1) first rest
  | fuel + 1, [], text =>
    match skipBlanks text with
    | '(' :: inside => do
      let (value, rest) ← readSum valueOf fuel operatorLevels inside
      match skipBlanks rest with
      | ')' :: rest => return (value, rest)
      | _ => none
    | '-' :: rest => do
      let (value, rest) ← readSum valueOf fuel [] rest
      return (wrap (-value), rest)
    | '+' :: rest => readSum valueOf fuel [] rest
    | '!' :: rest => do
      let (value, rest) ← readSum valueOf fuel [] rest
      return (ofTruth (value == 0), rest)
    | '~' :: rest => do
      let (value, rest) ← readSum valueOf fuel [] rest
      return (-value - 1, rest)
    | c :: rest =>
      if c.isDigit then
        let digits := (c :: rest).takeWhile Char.isDigit
        some (wrap (numberOf digits), (c :: rest).dropWhile Char.isDigit)
      else if startsName c then do
        let name := String.ofList ((c :: rest).takeWhile isNameChar)
        return (← valueOf name, (c :: rest).dropWhile isNameChar)
      else none
    | [] => none

/-- The value of a sum. An empty one is zero. -/
def sumOf? (valueOf : String → Option Int) (text : List Char) : Option Int :=
  if skipBlanks text = [] then some 0
  else match readSum valueOf (12 * (text.length + 1)) operatorLevels text with
    | some (value, rest) => if skipBlanks rest = [] then some value else none
    | none => none

end Montage.Script
