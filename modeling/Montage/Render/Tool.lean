import Montage.Render.Runner
import Montage.Script.Execution
import Montage.Text.Quoted

/-!
# Running the rendering program

A program is a file that may be executed, or one of the common commands. A file begins with a line
that names its interpreter, and the interpreters that there are run scripts. A program that ends
with another status than zero, or by a signal, has failed; its last messages say why.

Scope. Programs in the language of a machine cannot be run.
-/

set_option autoImplicit false
set_option relaxedAutoImplicit false

namespace Montage

/-- How a program ended. -/
inductive Ending where
  /-- With a status. -/
  | exited (status : Nat)
  /-- By a signal. -/
  | killed (signal : Nat)
  /-- It does not end. -/
  | endless
deriving DecidableEq, Repr

/-- The wording of an ending. -/
def Ending.toText : Ending → String
  | exited status => "exit status: " ++ toString status
  | killed signal =>
    let name? := Script.Signal.name? signal
    "signal: " ++ toString signal ++ ((name?.map fun name ↦ " (SIG" ++ name ++ ")").getD "")
  | endless => "no status"

namespace Tool

open Script

/-- A program that has ended. -/
structure Finished where
  /-- The files as the program left them. -/
  store : Store
  /-- What the program wrote as messages. -/
  messages : List UInt8
  /-- How the program ended. -/
  ending : Ending

/-- The number of steps that a script may take. -/
def maxSteps : Nat := 100000

/-- The ending of a script that went on in this way. -/
def endingOf (machine : Machine) : Flow → Ending
  | .killed signal => .killed signal
  | .endless => .endless
  | _ => .exited (machine.status % 256)

/-- Runs a call from a fresh machine to its end. -/
def finish (store : Store) (call : Call) : Finished :=
  let (machine, flow) := runCall (run maxSteps) {} call
    { store, name := call.name, arguments := call.arguments }
  { store := machine.store
    messages := (machine.collections[1]?).getD []
    ending := endingOf machine flow }

/-- Runs a program to its end. -/
def start (store : Store) (program : String) (arguments : List String) :
    Except FileFault Finished :=
  if (program :: arguments).any (·.toList.contains '\x00') then
    .error (.described "nul byte found in provided data")
  else (Call.find store program arguments).map (finish store)

/-- The number of messages of a failed program that are kept. -/
def keptMessages : Nat := 20

/-- The last lines of what a program wrote as messages. -/
def lastMessages (messages : List UInt8) : String :=
  let lines := Text.lines (Text.decode messages)
  "\n".intercalate ((lines.drop (lines.length - keptMessages)).map String.ofList)

/-- Whether a program answers when it is asked for its version, and the files as it left them. -/
def answers (store : Store) (program : String) : Bool × Store :=
  match start store program ["-version"] with
  | .ok finished => (finished.ending == .exited 0, finished.store)
  | .error _ => (false, store)

end Tool

/-- The runner that runs the rendering program. -/
def Runner.tool : Runner Store where
  pathExists := Store.pathExists
  run store command :=
    let log := [LogEntry.info ("Rendering " ++ Text.quoted command.output.text ++ " from " ++
      toString command.inputs.length ++ " inputs"), .debug (" ".intercalate command.words)]
    match Tool.start store command.program command.arguments with
    | .error fault =>
      { world := store, log, failure? := some (.notStarted command.program fault.text) }
    | .ok finished =>
      { world := finished.store
        log
        failure? := match finished.ending with
          | .exited 0 => none
          | .endless => some (.defect (.endlessProgram command.program))
          | ending => some (.processFailed command.program ending.toText
              (Tool.lastMessages finished.messages)) }

end Montage
