import Montage.Script.Sum

/-!
# Formatted output

A format is written out with its escapes resolved and its directives replaced by arguments, over and
over until the arguments are used up. What is written are bytes, because an escape may stand for any
byte.
-/

set_option autoImplicit false
set_option relaxedAutoImplicit false

namespace Montage.Script

/-- The bytes of a text. -/
def bytesOf (text : List Char) : List UInt8 := (String.ofList text).toUTF8.toList

/-- Bytes, and whether nothing is written after them. -/
structure Written where
  /-- The bytes. -/
  bytes : List UInt8 := []
  /-- Whether the output ends here. -/
  stops : Bool := false

/-- Puts bytes in front. -/
def Written.after (bytes : List UInt8) (written : Written) : Written :=
  { written with bytes := bytes ++ written.bytes }

/-- Whether a character is an octal digit. -/
def isOctal (c : Char) : Bool := '0' ≤ c && c ≤ '7'

/-- The byte of a letter after a backslash. -/
def escapedByte? : Char → Option UInt8
  | 'a' => some 7
  | 'b' => some 8
  | 't' => some 9
  | 'n' => some 10
  | 'v' => some 11
  | 'f' => some 12
  | 'r' => some 13
  | '\\' => some 92
  | _ => none

/-- Reads an escape after its backslash. An octal number may have to begin with a zero, which then
does not count among its three digits. -/
def readEscape (needsZero : Bool) (text : List Char) : List UInt8 × List Char :=
  match text with
  | [] => ([92], [])
  | c :: rest =>
    let digits :=
      if needsZero then if c = '0' then some (rest.take 3) else none
      else if isOctal c then some (text.take 3) else none
    match digits, escapedByte? c with
    | some digits, _ =>
      let octal := digits.takeWhile isOctal
      let value := octal.foldl (fun value d ↦ 8 * value + (d.toNat - '0'.toNat)) 0
      ([UInt8.ofNat value], (if needsZero then rest else text).drop octal.length)
    | none, some byte => ([byte], rest)
    | none, none => (92 :: bytesOf [c], rest)

/-- A text with its escapes resolved, read with at most `fuel` steps. -/
def resolveEscapes : (fuel : Nat) → List Char → Written
  | 0, _ => {}
  | _ + 1, [] => {}
  | _ + 1, '\\' :: 'c' :: _ => { stops := true }
  | fuel + 1, '\\' :: rest =>
    let (bytes, rest) := readEscape true rest
    (resolveEscapes fuel rest).after bytes
  | fuel + 1, c :: rest => (resolveEscapes fuel rest).after (bytesOf [c])

/-- What `echo` writes. -/
def echoed (arguments : List String) : List UInt8 :=
  let (newline, words) := match arguments with
    | "-n" :: words => (false, words)
    | words => (true, words)
  let text := (" ".intercalate words).toList
  let written := resolveEscapes (text.length + 1) text
  if written.stops || !newline then written.bytes else written.bytes ++ [10]

/-- A directive of a format. -/
structure Directive where
  /-- The characters that change how a value is filled up. -/
  flags : List Char
  /-- The least width. -/
  width : Nat
  /-- The greatest number of characters, or the least number of digits. -/
  precision : Option Nat
  /-- The letter of the directive. -/
  conversion : Char

/-- A number between the flags and the letter of a directive, or an argument in place of it. -/
def readCount (text : List Char) (arguments : List String) :
    Nat × List Char × List String :=
  match text, arguments with
  | '*' :: rest, argument :: arguments =>
    (((integerOf? argument.toList).getD 0).toNat, rest, arguments)
  | '*' :: rest, [] => (0, rest, [])
  | text, arguments =>
    (numberOf (text.takeWhile Char.isDigit), text.dropWhile Char.isDigit, arguments)

/-- Reads a directive after its percent sign. -/
def readDirective? (text : List Char) (arguments : List String) :
    Option (Directive × List Char × List String) :=
  let isFlag := fun c : Char ↦ c ∈ ['-', '0', '+', ' ', '#']
  let flags := text.takeWhile isFlag
  let (width, rest, arguments) := readCount (text.dropWhile isFlag) arguments
  let (precision, rest, arguments) := match rest with
    | '.' :: rest =>
      let (precision, rest, arguments) := readCount rest arguments
      (some precision, rest, arguments)
    | rest => (none, rest, arguments)
  match rest with
  | conversion :: rest => some (⟨flags, width, precision, conversion⟩, rest, arguments)
  | [] => none

/-- Fills up a text to the width of a directive. -/
def Directive.fill (directive : Directive) (text : List Char) : List Char :=
  let padding := directive.width - text.length
  if '-' ∈ directive.flags then text ++ List.replicate padding ' '
  else List.replicate padding ' ' ++ text

/-- A number as a directive writes it. -/
def Directive.number (directive : Directive) (value : Int) : List Char :=
  let base := match directive.conversion with
    | 'x' | 'X' => 16
    | 'o' => 8
    | _ => 10
  let bare := Nat.toDigits base value.natAbs
  let digits := if directive.conversion = 'X' then bare.map Char.toUpper else bare
  let padded := List.replicate (directive.precision.getD 1 - digits.length) '0' ++ digits
  let sign := if value < 0 then ['-'] else if '+' ∈ directive.flags then ['+']
    else if ' ' ∈ directive.flags then [' '] else []
  let zeros := directive.width - sign.length - padded.length
  if '0' ∈ directive.flags ∧ '-' ∉ directive.flags ∧ directive.precision = none then
    sign ++ List.replicate zeros '0' ++ padded
  else directive.fill (sign ++ padded)

/-- What a directive writes for an argument. -/
def Directive.apply (directive : Directive) (argument : Option String) : Written :=
  let text := (argument.getD "").toList
  let value := match text with
    | ['\'', c] | ['"', c] => (c.toNat : Int)
    | _ => (integerOf? text).getD 0
  match directive.conversion with
  | 's' => { bytes := bytesOf (directive.fill (text.take (directive.precision.getD text.length))) }
  | 'b' => resolveEscapes (text.length + 1) text
  | 'c' => { bytes := bytesOf (directive.fill (text.take 1)) }
  | _ => { bytes := bytesOf (directive.number value) }

/-- Writes a format once: what is written, the arguments that are left and whether any was used. -/
def formatOnce : (fuel : Nat) → List Char → List String → Written × List String × Bool
  | 0, _, arguments => ({}, arguments, false)
  | _ + 1, [], arguments => ({}, arguments, false)
  | fuel + 1, '\\' :: rest, arguments =>
    let (bytes, rest) := readEscape false rest
    let (written, left, used) := formatOnce fuel rest arguments
    (written.after bytes, left, used)
  | fuel + 1, '%' :: '%' :: rest, arguments =>
    let (written, left, used) := formatOnce fuel rest arguments
    (written.after [37], left, used)
  | fuel + 1, '%' :: rest, arguments =>
    match readDirective? rest arguments with
    | none => ({ bytes := [37] }, arguments, false)
    | some (directive, rest, arguments) =>
      let first := directive.apply arguments.head?
      if first.stops then (first, [], true)
      else
        let (written, left, _) := formatOnce fuel rest arguments.tail
        (written.after first.bytes, left, true)
  | fuel + 1, c :: rest, arguments =>
    let (written, left, used) := formatOnce fuel rest arguments
    (written.after (bytesOf [c]), left, used)

/-- Writes a format until the arguments are used up, at most `fuel` times. -/
def formatAll : (fuel : Nat) → List Char → List String → List UInt8
  | 0, _, _ => []
  | fuel + 1, format, arguments =>
    let (written, left, used) := formatOnce (format.length + 1) format arguments
    if written.stops || left = [] || !used then written.bytes
    else written.bytes ++ formatAll fuel format left

/-- What `printf` writes. -/
def formatted (format : String) (arguments : List String) : List UInt8 :=
  formatAll (arguments.length + 1) format.toList arguments

end Montage.Script
