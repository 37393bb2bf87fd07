import Montage.Store.Basic
import Montage.Text.Utf8

/-!
# Programs

Some programs are always there, in two directories for programs: the shell, and small commands that
scripts use. Any other program is a file that may be executed and begins with a line that names its
interpreter. To call it means to call the interpreter, which gets the path of the file in front of
the arguments; the interpreter may be such a file again (`Call.ofPath`). A program without a path is
looked for in the directories for programs only (`Call.find`).

Scope. Files in the language of a machine cannot be called, apart from the programs that are always
there.
-/

set_option autoImplicit false
set_option relaxedAutoImplicit false

namespace Montage.Script

/-! ### Interpreters -/

/-- The interpreter that a file names. -/
structure Interpreter where
  /-- The path of the interpreter. -/
  path : String
  /-- The argument that it gets before all others. -/
  argument? : Option String
deriving DecidableEq, Repr

/-- The number of bytes of a file that are looked at. A shorter file counts as if it went on with
zeros. -/
def headLength : Nat := 256

/-- Whether a byte is a space or a tab. -/
def isSpaceByte (byte : UInt8) : Bool := byte == 32 || byte == 9

/-- Whether a byte ends the path of an interpreter. -/
def endsPath (byte : UInt8) : Bool := isSpaceByte byte || byte == 0

/-- The bytes without spaces at their end. -/
def trimBytes (bytes : List UInt8) : List UInt8 := (bytes.reverse.dropWhile isSpaceByte).reverse

/-- The line about the interpreter, given what follows the mark in the head of a file. A line that
is longer than the head only has to show the whole path of the interpreter. -/
def interpreterLine? (bytes : List UInt8) : Option (List UInt8) :=
  if bytes.contains 10 then some (trimBytes (bytes.takeWhile (· != 10)))
  else if (bytes.dropWhile isSpaceByte).any endsPath then some (trimBytes bytes.dropLast)
  else none

/-- The interpreter that a line names: its path, and after a space everything up to a zero as one
argument. -/
def Interpreter.ofLine? (line : List UInt8) : Option Interpreter :=
  match line.dropWhile isSpaceByte with
  | [] => none
  | line =>
    let path := line.takeWhile (!endsPath ·)
    let argument? := match line.drop path.length with
      | [] | 0 :: _ => none
      | rest => some ((rest.dropWhile isSpaceByte).takeWhile (· != 0))
    let toText (bytes : List UInt8) : String := String.ofList (Text.decode bytes)
    some ⟨toText path, argument?.map toText⟩

/-- The interpreter that a file with these bytes names. -/
def Interpreter.ofContent? (content : List UInt8) : Option Interpreter :=
  match content.take headLength ++ List.replicate (headLength - content.length) 0 with
  | 35 :: 33 :: bytes => (interpreterLine? bytes).bind ofLine?
  | _ => none

/-! ### Calls -/

/-- What a program says when it cannot do what it is called for. -/
structure Complaint where
  /-- The lines of its message. -/
  lines : List String
  /-- Its status. -/
  status : Nat
deriving DecidableEq, Repr

/-- The complaint of a program, called by a name, about an option that it does not have. -/
def Complaint.unknownOption (name : String) (letter : Char) (status : Nat) : Complaint where
  lines := [name ++ ": invalid option -- '" ++ letter.toString ++ "'",
    "Try '" ++ name ++ " --help' for more information."]
  status

/-- A call of a program that is always there. -/
structure Call where
  /-- The program. -/
  program : String
  /-- The name or path that it is called by. -/
  name : String
  /-- The arguments. -/
  arguments : List String
deriving DecidableEq, Repr

namespace Call

/-- The shells, which run scripts. -/
def shells : List String := ["sh", "dash", "bash"]

/-- The programs that are always there. -/
def programs : List String :=
  shells ++ ["env", "echo", "printf", "test", "[", "true", "false", "cat", "head", "tail", "touch",
    "mkdir", "rm", "cp", "mv", "chmod", "seq", "basename", "dirname", "sleep", "sync"]

/-- The directories with the programs that are always there. -/
def programDirectories : List Store.Location := [["bin"], ["usr", "bin"]]

/-- Further directories that are always there. -/
def directories : List Store.Location :=
  [["usr"], ["usr", "local"], ["usr", "local", "bin"], ["sbin"], ["usr", "sbin"], ["dev"], ["etc"],
    ["home"], ["lib"], ["opt"], ["proc"], ["root"], ["tmp"], ["var"]]

/-- The store with what is always there. -/
def surroundings (store : Store) : Store :=
  let present := (programDirectories ++ directories).map fun place ↦ (place, Store.Entry.directory)
  let executable := programDirectories.flatMap fun place ↦
    programs.map fun program ↦ (place ++ [program], Store.Entry.file .empty true)
  { store with entries := store.entries ++ present ++ executable }

/-- The program at a place, if there is always one. -/
def programAt? (place : Store.Location) : Option String :=
  if place.dropLast ∈ programDirectories then place.getLast?.filter (· ∈ programs) else none

/-- The length from which an argument is too long, in bytes. -/
def maxArgumentLength : Nat := 131072

/-- Checks the lengths of arguments. -/
def checkArguments (arguments : List String) : Except FileFault Unit :=
  if arguments.any fun argument ↦ maxArgumentLength ≤ argument.utf8ByteSize then
    .error .argumentTooLong
  else .ok ()

/-- The call of the file at a path, where at most this many files are looked at. -/
def ofPath (store : Store) : (files : Nat) → (path : String) → (arguments : List String) →
    Except FileFault Call
  | 0, _, _ => .error .tooManyLinks
  | files + 1, path, arguments => do
    let place ← (surroundings store).locate ⟨path⟩
    match programAt? place, (surroundings store).entryAt? place with
    | some program, _ =>
      checkArguments arguments
      return { program, name := path, arguments }
    | none, some (.file content true) =>
      checkArguments arguments
      match Interpreter.ofContent? content.toList with
      | none => throw .notProgram
      | some interpreter =>
        ofPath store files interpreter.path (interpreter.argument?.toList ++ path :: arguments)
    | none, some _ => throw .denied
    | none, none => throw .notFound

/-- The most files that are looked at for one call. -/
def maxFiles : Nat := 6

/-- The call of a program by a path or, if there is no separator in it, by name. -/
def find (store : Store) (program : String) (arguments : List String) : Except FileFault Call :=
  if program.toList.contains '/' then ofPath store maxFiles program arguments
  else if Store.maxNameLength < program.utf8ByteSize then .error .nameTooLong
  else if program ∈ [".", ".."] then .error .denied
  else if program ∈ programs then do
    checkArguments arguments
    return { program, name := program, arguments }
  else .error .notFound

end Call

end Montage.Script
