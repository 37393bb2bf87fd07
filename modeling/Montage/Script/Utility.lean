import Montage.Script.Call
import Montage.Script.Condition
import Montage.Script.Machine

/-!
# Commands that are always there

These commands read and write files, the input and the channels, and nothing else of a script. Each
sets the status: zero if all went well. Some are part of the shell (`Utility.builtIn?`), and most
are programs (`Utility.ofProgram?`); those that are both differ in what they say.

Scope. Only what scripts in place of a rendering program need is here: writing and copying files,
counting, waiting and a few more. Waiting takes no time.
-/

set_option autoImplicit false
set_option relaxedAutoImplicit false

namespace Montage.Script

/-- A command, given its arguments. -/
abbrev Utility := Machine → Channels → List String → Machine

namespace Utility

/-- Splits arguments into options and operands. -/
def options (arguments : List String) : List String × List String :=
  arguments.partition fun argument ↦ argument.length > 1 && argument.toList.head? == some '-'

/-- Whether an option with a letter is given. -/
def hasOption (letter : Char) (given : List String) : Bool :=
  given.any (·.toList.contains letter)

/-- Does something with every operand; a fault becomes a message. -/
def onEach (act : Machine → String → Except FileFault Machine) (complaint : String → String)
    (operands : List String) (machine : Machine) (channels : Channels) : Machine :=
  operands.foldl
    (fun machine operand ↦
      match act machine operand with
      | .ok machine => machine
      | .error fault =>
        machine.complain channels (complaint operand ++ ": " ++ fault.reason) 1)
    (machine.withStatus 0)

/-- The bytes of a file, or the whole input in place of a hyphen. -/
def readOperand (machine : Machine) (operand : String) :
    Except FileFault (List UInt8 × Machine) :=
  if operand = "-" then .ok (machine.input, { machine with input := [] })
  else (machine.store.readBytes ⟨operand⟩).map fun content ↦ (content.toList, machine)

/-- Writes what files hold, changed, one after the other. -/
def filtered (name : String) (change : List UInt8 → List UInt8) (operands : List String) :
    Machine → Channels → Machine :=
  fun machine channels ↦
    onEach
      (fun machine operand ↦
        (readOperand machine operand).map fun (bytes, machine) ↦
          machine.emit channels.output (change bytes))
      (fun operand ↦ name ++ ": " ++ operand) (if operands = [] then ["-"] else operands)
      machine channels

/-- Lines of bytes, each with its end. -/
def byteLines (bytes : List UInt8) : List (List UInt8) :=
  bytes.splitBy fun byte _ ↦ byte != 10

/-- The number of lines that options ask for, ten by default, and the operands besides. -/
def lineCount : List String → Nat × List String
  | "-n" :: count :: operands => (numberOf (count.toList.filter Char.isDigit), operands)
  | first :: operands =>
    match first.toList with
    | '-' :: 'n' :: digits => (numberOf digits, operands)
    | '-' :: c :: digits =>
      if c.isDigit then (numberOf (c :: digits), operands) else (10, first :: operands)
    | _ => (10, first :: operands)
  | [] => (10, [])

/-- Writes files. -/
def cat : Utility := fun machine channels arguments ↦
  filtered "cat" id (options arguments).2 machine channels

/-- Writes the first lines of files. -/
def head : Utility := fun machine channels arguments ↦
  let (count, operands) := lineCount arguments
  filtered "head" (fun bytes ↦ ((byteLines bytes).take count).flatten) operands machine channels

/-- Writes the last lines of files. -/
def tail : Utility := fun machine channels arguments ↦
  let (count, operands) := lineCount arguments
  filtered "tail"
    (fun bytes ↦
      let lines := byteLines bytes
      (lines.drop (lines.length - count)).flatten)
    operands machine channels

/-- Makes files. -/
def touch : Utility := fun machine channels arguments ↦
  onEach
    (fun machine operand ↦
      if machine.store.isDirectory ⟨operand⟩ then .ok machine
      else (machine.store.write ⟨operand⟩ id).map fun store ↦ { machine with store })
    (fun operand ↦ "touch: cannot touch '" ++ operand ++ "'")
    (options arguments).2 machine channels

/-- Makes directories, and those above them if asked to. -/
def mkdir : Utility := fun machine channels arguments ↦
  let (given, operands) := options arguments
  onEach
    (fun machine operand ↦
      let made := if hasOption 'p' given then machine.store.makeDirectories (Path.plain ⟨operand⟩)
        else machine.store.makeDirectory ⟨operand⟩
      made.map fun store ↦ { machine with store })
    (fun operand ↦ "mkdir: cannot create directory '" ++ operand ++ "'")
    operands machine channels

/-- Removes files, and directories if asked to. -/
def rm : Utility := fun machine channels arguments ↦
  let (given, operands) := options arguments
  let recursive := hasOption 'r' given || hasOption 'R' given
  onEach
    (fun machine operand ↦
      if machine.store.isDirectory ⟨operand⟩ && !recursive then .error .isDirectory
      else match machine.store.remove ⟨operand⟩ with
        | .ok store => .ok { machine with store }
        | .error fault => if hasOption 'f' given then .ok machine else .error fault)
    (fun operand ↦ "rm: cannot remove '" ++ operand ++ "'")
    operands machine channels

/-- Where a file goes: to a path, or into a directory under its own name. -/
def destination (store : Store) (source target : String) : Path :=
  if store.isDirectory ⟨target⟩ then
    Path.join ⟨target⟩ ⟨String.ofList ((Path.fileName? ⟨source⟩).getD [])⟩
  else ⟨target⟩

/-- Copies or moves files to a path or into a directory. -/
def transfer (name : String) (keeps : Bool) : Utility := fun machine channels arguments ↦
  let operands := (options arguments).2
  let target := operands.getLast?.getD ""
  onEach
    (fun machine operand ↦ do
      let content ← machine.store.readBytes ⟨operand⟩
      let target := destination machine.store operand target
      let written ← machine.store.write target fun _ ↦ content
      let store ← written.setExecutable target (machine.store.isExecutable ⟨operand⟩)
      return { machine with store := ← if keeps then .ok store else store.remove ⟨operand⟩ })
    (fun operand ↦ name ++ ": cannot stat '" ++ operand ++ "'")
    operands.dropLast machine channels

/-- Makes files executable, or not executable any more. -/
def chmod : Utility := fun machine channels arguments ↦
  let change := arguments.head?.getD ""
  let executable := if change.toList.head?.any Char.isDigit
    then change.toList.any fun c ↦ c.isDigit && c.toNat % 2 == 1
    else !change.toList.contains '-'
  if !change.toList.contains 'x' && !change.toList.head?.any Char.isDigit then machine.withStatus 0
  else
    onEach
      (fun machine operand ↦
        (machine.store.setExecutable ⟨operand⟩ executable).map fun store ↦ { machine with store })
      (fun operand ↦ "chmod: cannot access '" ++ operand ++ "'") arguments.tail machine channels

/-- Counts from one number to another. -/
def seq : Utility := fun machine channels arguments ↦
  let numbers := arguments.filterMap fun argument ↦ integerOf? argument.toList
  let count (first step last : Int) : Machine :=
    let terms := if step = 0 then 0 else ((last - first) / step + 1).toNat
    let lines := (List.range terms).map fun (term : Nat) ↦ toString (first + step * term) ++ "\n"
    (machine.emit channels.output (bytesOf ("".intercalate lines).toList)).withStatus 0
  match numbers with
  | [last] => count 1 1 last
  | [first, last] => count first 1 last
  | [first, step, last] => count first step last
  | _ => machine.complain channels "seq: missing operand" 1

/-- Writes the last step of a path, without a suffix. -/
def basename : Utility := fun machine channels arguments ↦
  let path := arguments.head?.getD ""
  let name := ((Path.fileName? ⟨path⟩).map String.ofList).getD path
  let suffix := (arguments[1]?).getD ""
  let kept := if name != suffix && suffix.toList.isSuffixOf name.toList then
      String.ofList (name.toList.take (name.length - suffix.length))
    else name
  (machine.emitLine channels.output kept).withStatus 0

/-- Writes a path without its last step. -/
def dirname : Utility := fun machine channels arguments ↦
  let steps := ((arguments.head?.getD "").toList.reverse.dropWhile (· == '/')).dropWhile (· != '/')
  let directory := (steps.dropWhile (· == '/')).reverse
  let shown := if directory ≠ [] then String.ofList directory else if steps = [] then "." else "/"
  (machine.emitLine channels.output shown).withStatus 0

/-- Writes the arguments. -/
def echo : Utility := fun machine channels arguments ↦
  (machine.emit channels.output (echoed arguments)).withStatus 0

/-- Writes a format. -/
def printf : Utility := fun machine channels arguments ↦
  match if arguments.head? = some "--" then arguments.tail else arguments with
  | format :: arguments =>
    (machine.emit channels.output (formatted format arguments)).withStatus 0
  | [] => machine.withStatus 2

/-- Tests a condition: the status is zero if it is true, one if it is false and two if it has no
meaning. -/
def test (name : String) : Utility := fun machine channels arguments ↦
  match conditionTruth machine.store (arguments.length + 1) arguments with
  | .ok truth => machine.withStatus (if truth then 0 else 1)
  | .error reason => machine.complainHere channels (name ++ ": " ++ reason) 2

/-- Tests a condition that ends with a closing bracket. -/
def bracket : Utility := fun machine channels arguments ↦
  if arguments.getLast? = some "]" then test "[" machine channels arguments.dropLast
  else machine.complainHere channels "[: missing ]" 2

/-- Why the program that tests conditions finds no meaning in one that has these words. -/
def conditionFault : List String → String
  | [] => "missing argument"
  | first :: rest =>
    if first.length = 2 ∧ first.toList.head? = some '-' then
      "'" ++ first ++ "': unary operator expected"
    else "extra argument '" ++ rest.head?.getD "" ++ "'"

/-- Tests a condition as a program that is called by a name. -/
def testProgram (called : String) : Utility := fun machine channels arguments ↦
  match conditionTruth machine.store (arguments.length + 1) arguments with
  | .ok truth => machine.withStatus (if truth then 0 else 1)
  | .error _ => machine.complain channels (called ++ ": " ++ conditionFault arguments) 2

/-- Tests a condition that ends with a closing bracket, as a program that is called by a name. -/
def bracketProgram (called : String) : Utility := fun machine channels arguments ↦
  if arguments.getLast? = some "]" then testProgram called machine channels arguments.dropLast
  else machine.complain channels (called ++ ": missing ']'") 2

/-- Does nothing, with a status. -/
def nothing (status : Nat) : Utility := fun machine _ _ ↦ machine.withStatus status

/-- The first letter of the options among arguments that is not known. After a letter with a value,
the rest of the argument is the value, or else the next argument. -/
def unknownLetter? (letters valued : List Char) : List String → Option Char
  | [] => none
  | "--" :: _ => none
  | argument :: rest =>
    match argument.toList with
    | '-' :: '-' :: _ => unknownLetter? letters valued rest
    | '-' :: given =>
      match given.dropWhile letters.contains with
      | [] => unknownLetter? letters valued rest
      | letter :: value =>
        if !valued.contains letter then some letter
        else match value, rest with
          | [], _ :: rest => unknownLetter? letters valued rest
          | _, rest => unknownLetter? letters valued rest
    | _ => unknownLetter? letters valued rest

/-- A program, called by a name, that knows these letters for options. -/
def withOptions (called letters valued : String) (act : Utility) : Utility :=
  fun machine channels arguments ↦
    match unknownLetter? letters.toList valued.toList arguments with
    | none => act machine channels arguments
    | some letter =>
      let complaint := Complaint.unknownOption called letter 1
      machine.complain channels ("\n".intercalate complaint.lines) complaint.status

/-- The command of a name that is part of the shell. -/
def builtIn? : String → Option Utility
  | "echo" => some echo
  | "printf" => some printf
  | "test" => some (test "test")
  | "[" => some bracket
  | "true" | ":" | "wait" | "trap" | "umask" => some (nothing 0)
  | "false" => some (nothing 1)
  | _ => none

/-- The program of a name, given the name or path that it is called by. -/
def ofProgram? (called : String) : String → Option Utility
  | "echo" => some echo
  | "printf" => some printf
  | "test" => some (testProgram called)
  | "[" => some (bracketProgram called)
  | "true" => some (nothing 0)
  | "false" => some (nothing 1)
  | "cat" => some (withOptions called "AbeEnstTuv" "" cat)
  | "head" => some (withOptions called "qvz0123456789" "nc" head)
  | "tail" => some (withOptions called "fFqvz0123456789" "ncs" tail)
  | "touch" => some (withOptions called "acfhm" "drt" touch)
  | "mkdir" => some (withOptions called "pvZ" "m" mkdir)
  | "rm" => some (withOptions called "dfirvIR" "" rm)
  | "cp" => some (withOptions called "abdfHilLnprsuvxPRTZ" "St" (transfer "cp" true))
  | "mv" => some (withOptions called "bfinuvTZ" "St" (transfer "mv" false))
  | "chmod" => some (withOptions called "RcfvrwxXstugoa,+=01234567" "" chmod)
  | "seq" => some (withOptions called "w.0123456789" "fs" seq)
  | "basename" => some (withOptions called "az" "s" basename)
  | "dirname" => some (withOptions called "z" "" dirname)
  | "sleep" => some (withOptions called "" "" (nothing 0))
  | "sync" => some (withOptions called "df" "" (nothing 0))
  | _ => none

end Utility

end Montage.Script
