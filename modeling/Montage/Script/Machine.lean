import Montage.Script.Command
import Montage.Script.Format
import Montage.Script.Pattern
import Montage.Store.Basic
import Montage.Text.Pieces
import Montage.Text.Utf8

/-!
# The state of a running script

A running script has files around it, arguments, variables and defined commands, the status of the
last command, and what is left of its input. What commands write goes to a channel: to the end of a
file, to one of several collections of output, or nowhere. The first two collections are what the
script itself writes as its output and as its messages; further ones collect the output of commands
whose output is needed within the script.
-/

set_option autoImplicit false
set_option relaxedAutoImplicit false

namespace Montage.Script

/-- Where a channel leads. -/
inductive Sink where
  /-- To a collection of output. -/
  | collection (index : Nat)
  /-- To the end of a file. -/
  | file (path : Path)
  /-- To nowhere. -/
  | nowhere
deriving DecidableEq, Repr

/-- The channels of a command. -/
structure Channels where
  /-- The channel for output. -/
  output : Sink := .collection 0
  /-- The channel for messages. -/
  messages : Sink := .collection 1
  /-- Whether the status of the command is looked at. -/
  watched : Bool := false

/-- A running script. -/
structure Machine where
  /-- The files. -/
  store : Store
  /-- The name that the script was called by. -/
  name : String
  /-- The arguments. -/
  arguments : List String
  /-- The variables. -/
  bindings : List (String × String) := []
  /-- The defined commands. -/
  definitions : List (String × Command) := []
  /-- The status of the last command. -/
  status : Nat := 0
  /-- What is left of the input. -/
  input : List UInt8 := []
  /-- The collections of output. -/
  collections : List (List UInt8) := [[], []]
  /-- Whether the script ends when a command fails that nothing depends on. -/
  endsOnFailure : Bool := false
  /-- Whether commands are shown as messages before they run. -/
  traces : Bool := false
  /-- The line of the current command. -/
  line : Nat := 1
  /-- The channels of the commands that follow, if they were replaced. -/
  replaced : Option Channels := none

/-- How a script goes on after a command. -/
inductive Flow where
  /-- With the next command. -/
  | next
  /-- After this many loops. -/
  | leave (loops : Nat)
  /-- With the next round of this many loops. -/
  | again (loops : Nat)
  /-- After the command that a script defines. -/
  | back
  /-- Not at all. -/
  | stop
  /-- Not at all, because of a signal. -/
  | killed (signal : Nat)
  /-- It is not known how, because the script takes too long. -/
  | endless
deriving DecidableEq, Repr

namespace Machine

/-- The channels of a command, given those that it would have if none had been replaced. -/
def currentChannels (machine : Machine) (channels : Channels) : Channels :=
  match machine.replaced with
  | some replaced => { replaced with watched := channels.watched }
  | none => channels

/-- The machine with the status of a command. -/
def withStatus (machine : Machine) (status : Nat) : Machine := { machine with status := status }

/-- Writes bytes to a channel. -/
def emit (machine : Machine) (sink : Sink) (bytes : List UInt8) : Machine :=
  match sink with
  | .nowhere => machine
  | .collection index =>
    { machine with collections := machine.collections.modify index (· ++ bytes) }
  | .file path =>
    match machine.store.write path fun old ↦ old ++ ⟨bytes.toArray⟩ with
    | .ok store => { machine with store }
    | .error _ => machine

/-- Writes a line of text to a channel. -/
def emitLine (machine : Machine) (sink : Sink) (line : String) : Machine :=
  machine.emit sink (bytesOf (line.toList ++ ['\n']))

/-- Writes a message and sets the status. -/
def complain (machine : Machine) (channels : Channels) (message : String) (status : Nat) :
    Machine :=
  (machine.emitLine channels.messages message).withStatus status

/-- Writes a message of the script itself, with the line that it is about, and sets the status. -/
def complainHere (machine : Machine) (channels : Channels) (message : String) (status : Nat) :
    Machine :=
  machine.complain channels (machine.name ++ ": " ++ toString machine.line ++ ": " ++ message)
    status

/-- The value of a variable. -/
def held? (machine : Machine) (name : String) : Option String := machine.bindings.lookup name

/-- The machine with a value for a variable. -/
def assign (machine : Machine) (name value : String) : Machine :=
  { machine with
    bindings := (name, value) :: machine.bindings.filter fun (other, _) ↦ other ≠ name }

/-- The machine without a variable. -/
def forget (machine : Machine) (name : String) : Machine :=
  { machine with bindings := machine.bindings.filter fun (other, _) ↦ other ≠ name }

/-- The number of the process, as it appears in signals to the script itself. -/
def processNumber : String := "4711"

/-- The value of a parameter, where a name of digits is an argument. -/
def parameter? (machine : Machine) (name : String) : Option String :=
  match name with
  | "?" => some (toString machine.status)
  | "#" => some (toString machine.arguments.length)
  | "$" => some processNumber
  | "@" | "*" =>
    if machine.arguments = [] then none else some (" ".intercalate machine.arguments)
  | "-" => some ((if machine.traces then "x" else "") ++ if machine.endsOnFailure then "e" else "")
  | "0" => some machine.name
  | _ =>
    if name.toList.all Char.isDigit then machine.arguments[numberOf name.toList - 1]?
    else machine.held? name

/-- The machine after a command that was run apart from it: only files, output, input and status
remain. -/
def resume (machine after : Machine) : Machine :=
  { machine with
    store := { after.store with workingDirectory := machine.store.workingDirectory }
    status := after.status
    input := after.input
    collections := after.collections }

/-- Takes the next line off the input, without its end, and whether there was one. -/
def takeLine (machine : Machine) : List Char × Bool × Machine :=
  let line := machine.input.takeWhile (· != 10)
  let rest := machine.input.drop line.length
  (Text.decode line, rest ≠ [], { machine with input := rest.tail })

end Machine

end Montage.Script
