/-!
# Switches of a shell

A shell, and the command of scripts that changes how their shell works, are given switches and
operands. Switches are letters after a hyphen, or after a plus sign to turn them off, or names that
follow the letter `o`. Operands begin with the first argument that is none of these, or after one or
two hyphens.
-/

set_option autoImplicit false
set_option relaxedAutoImplicit false

namespace Montage.Script

/-- What a shell is given. -/
structure Switches where
  /-- The letters that were turned on or off, the last one first. -/
  letters : List (Char × Bool) := []
  /-- Whether two hyphens ended the switches. -/
  closed : Bool := false
  /-- The arguments after the switches. -/
  operands : List String := []
deriving DecidableEq, Repr

namespace Switches

/-- Whether a letter is turned on, given whether it was on before. -/
def isOn (switches : Switches) (letter : Char) (before : Bool) : Bool :=
  (switches.letters.lookup letter).getD before

/-- Turns a letter on or off. -/
def turn (switches : Switches) (letter : Char) (on : Bool) : Switches :=
  { switches with letters := (letter, on) :: switches.letters }

/-- The names of the letters. -/
def names : List (String × Char) := [
  ("errexit", 'e'), ("noglob", 'f'), ("ignoreeof", 'I'), ("interactive", 'i'), ("monitor", 'm'),
  ("noexec", 'n'), ("stdin", 's'), ("xtrace", 'x'), ("verbose", 'v'), ("vi", 'V'), ("emacs", 'E'),
  ("noclobber", 'C'), ("allexport", 'a'), ("notify", 'b'), ("nounset", 'u')]

/-- Letters that are known only where a shell starts. -/
def startLetters : List Char := ['c', 'l']

/-- Turns letters on or off, and says how many names have to follow. -/
def turnAll (atStart on : Bool) (switches : Switches) :
    List Char → Except String (Switches × Nat)
  | [] => .ok (switches, 0)
  | 'o' :: letters => (turnAll atStart on switches letters).map fun (turned, count) ↦
      (turned, count + 1)
  | letter :: letters =>
    if names.any (·.2 == letter) || atStart && startLetters.contains letter then
      turnAll atStart on (switches.turn letter on) letters
    else .error ("Illegal option -" ++ letter.toString)

/-- Reads arguments, the first of which have to be names of letters to be turned on or off. -/
def read (atStart : Bool) : (awaited : List Bool) → List String → Switches → Except String Switches
  | _, [], switches => .ok switches
  | on :: awaited, name :: rest, switches =>
    match names.lookup name with
    | some letter => read atStart awaited rest (switches.turn letter on)
    | none => .error ("Illegal option -o " ++ name)
  | [], first :: rest, switches =>
    let readLetters (on : Bool) (letters : List Char) : Except String Switches := do
      let (switches, count) ← turnAll atStart on switches letters
      read atStart (List.replicate count on) rest switches
    match first.toList with
    | ['-'] => .ok { switches with operands := rest }
    | ['-', '-'] => .ok { switches with closed := true, operands := rest }
    | '-' :: letters => readLetters true letters
    | '+' :: letters => readLetters false letters
    | _ => .ok { switches with operands := first :: rest }

/-- Reads the arguments of a shell. -/
def ofStart (arguments : List String) : Except String Switches := read true [] arguments {}

/-- Reads the arguments of the command that changes how a shell works. -/
def ofChange (arguments : List String) : Except String Switches := read false [] arguments {}

end Switches

end Montage.Script
