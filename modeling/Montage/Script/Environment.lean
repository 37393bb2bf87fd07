import Montage.Script.Call
import Montage.Text.Pieces

/-!
# Calls through the environment

The program `env` changes variables and then calls another program, which it finds by name. Its own
options come first; one of them takes a text that is cut into further arguments, because a file can
name an interpreter with one argument only. When a call leads back to the same program over and
over, its arguments grow until they are too long.

Scope. The changed variables are not passed on, and the text of that option has no quotes.
-/

set_option autoImplicit false
set_option relaxedAutoImplicit false

namespace Montage.Script

namespace Environment

/-- Reads the letters of an option and returns the arguments that follow it, or a letter that is
none. The letter `S` puts words in front of them, and two other letters have a value. -/
def afterLetters : List Char → List String → Except Char (List String)
  | [], rest => .ok rest
  | 'S' :: text, rest =>
    let (text, rest) := if text = [] then ((rest.head?.getD "").toList, rest.tail) else (text, rest)
    .ok ((Text.words text).map String.ofList ++ rest)
  | letter :: letters, rest =>
    if letter ∈ ['u', 'C'] then .ok (if letters = [] then rest.tail else rest)
    else if letter ∈ ['i', '0', 'v'] then afterLetters letters rest
    else .error letter

/-- The arguments after at most `count` options. -/
def operandsOf : (count : Nat) → List String → Except Char (List String)
  | 0, arguments => .ok arguments
  | _ + 1, [] => .ok []
  | count + 1, first :: rest =>
    match first.toList with
    | ['-', '-'] => .ok rest
    | '-' :: '-' :: _ => operandsOf count rest
    | '-' :: letters => do operandsOf count (← afterLetters letters rest)
    | _ => .ok (first :: rest)

/-- The complaint of `env`, called by a name, about a program that it cannot call. -/
def complaint (name program : String) (fault : FileFault) : Complaint where
  lines :=
    (name ++ ": '" ++ program ++ "': " ++ fault.reason) ::
      if fault = .notFound ∧ program.toList.any Text.isBlank then
        [name ++ ": use -[v]S to pass options in shebang lines"]
      else []
  status := if fault = .notFound then 127 else 126

/-- The call of a program. A file that names no interpreter is run by the shell. -/
def callOf (store : Store) (name program : String) (arguments : List String) :
    Except Complaint Call :=
  match Call.find store program arguments with
  | .ok call => .ok call
  | .error .notProgram =>
    .ok { program := "sh", name := "/bin/sh", arguments := program :: arguments }
  | .error fault => .error (complaint name program fault)

/-- What `env` calls, given its name and arguments, if it calls anything. -/
def target (store : Store) (name : String) (arguments : List String) :
    Except Complaint (Option Call) :=
  let characters := arguments.foldl (fun count argument ↦ count + (argument.length + 1)) 0
  match operandsOf (characters + 1) arguments with
  | .error letter => .error (.unknownOption name letter 125)
  | .ok operands =>
    match operands.dropWhile (·.toList.contains '=') with
    | [] => .ok none
    | program :: arguments => (callOf store name program arguments).map some

end Environment

/-- The call that a call leads to when at most `count` calls of `env` are followed, if it leads to
any other program. -/
def Call.followed (store : Store) : (count : Nat) → Call → Except Complaint (Option Call)
  | 0, call => .error (Environment.complaint call.name call.program .argumentTooLong)
  | count + 1, call =>
    if call.program = "env" then
      match Environment.target store call.name call.arguments with
      | .error complaint => .error complaint
      | .ok none => .ok none
      | .ok (some next) => followed store count next
    else .ok (some call)

end Montage.Script
