import Montage.Script.Environment
import Montage.Script.Expansion
import Montage.Script.Signal
import Montage.Script.Switches
import Montage.Script.Utility

/-!
# Running scripts

A command changes the machine and decides how the script goes on (`run`). Commands that need the
output of others, or run apart from the script, leave only files, output and status behind. The
number of steps is limited; a script that takes more has no end that could be told.

Scope. Signals end the script if they are sent to its own number. Jobs in the background, traps and
channels beyond the first three do nothing.
-/

set_option autoImplicit false
set_option relaxedAutoImplicit false

namespace Montage.Script

/-- What a command becomes: how the machine is left, and how the script goes on. -/
abbrev Step := Machine × Flow

/-- Runs commands. -/
abbrev CommandRunner := Channels → Command → Machine → Step

/-! ### Output of commands -/

/-- Runs a command apart from the script, collects its output and puts it into a new collection that
is taken away again. -/
def collect (runner : CommandRunner) (channels : Channels) (command : Command)
    (machine : Machine) : List UInt8 × Step :=
  let index := machine.collections.length
  let (after, flow) := runner { channels with output := .collection index } command
    { machine with collections := machine.collections ++ [[]], replaced := none }
  ((after.collections[index]?).getD [],
    machine.resume { after with collections := after.collections.take index }, flow)

/-- A text without line ends at its end. -/
def dropLineEnds (text : List Char) : List Char :=
  (text.reverse.dropWhile (· == '\n')).reverse

/-- The output of a text that is run as a script, without line ends at its end. -/
def captureWith (runner : CommandRunner) (channels : Channels) : Capture := fun text machine ↦
  match Command.ofText? text with
  | none => ([], machine.withStatus 2)
  | some command =>
    let (bytes, after, _) := collect runner channels command machine
    (dropLineEnds (Text.decode bytes), after)

/-! ### Redirections -/

/-- The wording of a fault with a file that is opened for writing. -/
def creationReason : FileFault → String
  | .notFound | .notDirectory => "Directory nonexistent"
  | fault => fault.reason

/-- The wording of a fault with a file that is opened for reading. -/
def openingReason : FileFault → String
  | .notFound | .notDirectory => "No such file"
  | fault => fault.reason

/-- The channels with another way for the output or the messages. -/
def Channels.redirect (channels : Channels) (channel : Nat) (sink : Sink) : Channels :=
  match channel with
  | 1 => { channels with output := sink }
  | 2 => { channels with messages := sink }
  | _ => channels

/-- The way to a file by name. Some names are channels. -/
def Channels.sinkOf (channels : Channels) (target : String) : Sink :=
  match target with
  | "/dev/null" => .nowhere
  | "/dev/stdout" => channels.output
  | "/dev/stderr" => channels.messages
  | _ => .file ⟨target⟩

/-- Opens a file for writing. -/
def openSink (channels : Channels) (channel : Nat) (target : String)
    (content : ByteArray → ByteArray) (machine : Machine) :
    Except Machine (Channels × Machine) :=
  let sink := channels.sinkOf target
  let next := channels.redirect channel sink
  match sink with
  | .file path =>
    match machine.store.write path content with
    | .ok store => .ok (next, { machine with store })
    | .error fault =>
      .error (machine.complainHere channels
        ("cannot create " ++ target ++ ": " ++ creationReason fault) 2)
  | _ => .ok (next, machine)

/-- Carries out a redirection. A file that cannot be used ends the command with a message. -/
def redirect (capture : Capture) (channels : Channels) (machine : Machine)
    (redirection : Redirection) : Except Machine (Channels × Machine) :=
  let (field, machine) := expandOne capture redirection.target machine
  let target := fieldText field
  match redirection.access with
  | .write => openSink channels redirection.channel target (fun _ ↦ .empty) machine
  | .append => openSink channels redirection.channel target id machine
  | .inline => .ok (channels, { machine with input := bytesOf target.toList })
  | .read =>
    if target = "/dev/null" then .ok (channels, { machine with input := [] })
    else match machine.store.readBytes ⟨target⟩ with
      | .ok content => .ok (channels, { machine with input := content.toList })
      | .error .isDirectory => .ok (channels, { machine with input := [] })
      | .error fault =>
        .error (machine.complainHere channels
          ("cannot open " ++ target ++ ": " ++ openingReason fault) 2)
  | .duplicate =>
    let sink := match target with
      | "1" => channels.output
      | "2" => channels.messages
      | _ => .nowhere
    .ok (channels.redirect redirection.channel sink, machine)

/-- Carries out redirections one after the other. -/
def redirectAll (capture : Capture) (redirections : List Redirection) (channels : Channels)
    (machine : Machine) : Except Machine (Channels × Machine) :=
  redirections.foldlM
    (fun (channels, machine) redirection ↦ redirect capture channels machine redirection)
    (channels, machine)

/-! ### Signals -/

/-- The signal that a command sends and the processes that it is sent to, or what is wrong with the
arguments. Unless another signal is given, it is the one that ends programs. -/
def signalAndTargets (arguments : List String) : Except String (Nat × List String) :=
  let named (name : String) (targets : List String) : Except String (Nat × List String) :=
    match Signal.ofText? name with
    | some signal => .ok (signal, targets)
    | none => .error ("invalid signal number or name: " ++ name)
  match arguments with
  | [] => .ok (15, [])
  | first :: rest =>
    match first.toList, rest with
    | ['-', '-'], _ => .ok (15, rest)
    | '-' :: name, _ =>
      match Signal.ofText? (String.ofList name), name, rest with
      | some signal, _, _ => .ok (signal, rest)
      | none, ['s'], name :: targets => named name targets
      | none, 's' :: name, _ => named (String.ofList name) rest
      | none, letter :: _, _ => .error ("Illegal option -" ++ letter.toString)
      | none, [], _ => .ok (15, rest)
    | _, _ => .ok (15, first :: rest)

/-- Sends a signal to processes one after the other. Only the script itself is known. -/
def sendSignal (channels : Channels) (signal : Nat) : List String → Machine → Step
  | [], machine => (machine, .next)
  | target :: targets, machine =>
    if target = Machine.processNumber then
      match Signal.effect signal with
      | .ends => (machine, .killed signal)
      | .stops => (machine, .endless)
      | .passes => sendSignal channels signal targets machine
    else if target ≠ "" ∧ target.toList.all Char.isDigit then
      sendSignal channels signal targets
        (machine.complainHere channels "kill: No such process\n" 1)
    else (machine.complainHere channels ("kill: Illegal number: " ++ target) 2, .next)

/-- How signals are sent. -/
def killUsage : String :=
  "Usage: kill [-s sigspec | -signum | -sigspec] [pid | job]... or\nkill -l [exitstatus]"

/-- Sends a signal. -/
def kill (arguments : List String) (channels : Channels) (machine : Machine) : Step :=
  match arguments, signalAndTargets arguments with
  | "-l" :: _, _ => (machine.withStatus 0, .next)
  | _, .error reason => (machine.complainHere channels ("kill: " ++ reason) 2, .next)
  | _, .ok (_, []) => (machine.complainHere channels ("kill: " ++ killUsage) 2, .next)
  | _, .ok (signal, targets) => sendSignal channels signal targets (machine.withStatus 0)

/-! ### Commands about the script itself -/

/-- The number of loops that a command is about. -/
def loopCount (arguments : List String) : Nat :=
  max 1 (numberOf ((arguments.head?.getD "1").toList.filter Char.isDigit))

/-- The number that a command about the script gets, or a number in place of it. -/
def countOf (arguments : List String) (default : Nat) : Except String Nat :=
  match arguments with
  | [] => .ok default
  | first :: _ =>
    match integerOf? first.toList with
    | some n => if 0 ≤ n then .ok n.toNat else .error ("Illegal number: " ++ first)
    | none => .error ("Illegal number: " ++ first)

/-- Ends the script, or the command that it defines, with the given status or that of the last
command. -/
def leaveWith (name : String) (flow : Flow) (arguments : List String) (channels : Channels)
    (machine : Machine) : Step :=
  match countOf arguments machine.status with
  | .ok status => (machine.withStatus (status % 256), flow)
  | .error reason => (machine.complainHere channels (name ++ ": " ++ reason) 2, .stop)

/-- Drops arguments of the script. -/
def shiftArguments (arguments : List String) (channels : Channels) (machine : Machine) : Step :=
  match countOf arguments 1 with
  | .error reason => (machine.complainHere channels ("shift: " ++ reason) 2, .stop)
  | .ok count =>
    if machine.arguments.length < count then
      (machine.complainHere channels "shift: can't shift that many" 2, .stop)
    else ({ machine with arguments := machine.arguments.drop count, status := 0 }, .next)

/-- Turns switches on or off and replaces the arguments, if any are given. -/
def changeSwitches (arguments : List String) (channels : Channels) (machine : Machine) : Step :=
  match Switches.ofChange arguments with
  | .error reason => (machine.complainHere channels ("set: " ++ reason) 2, .stop)
  | .ok switches =>
    ({ machine with
      endsOnFailure := switches.isOn 'e' machine.endsOnFailure
      traces := switches.isOn 'x' machine.traces
      arguments :=
        if switches.closed || switches.operands ≠ [] then switches.operands else machine.arguments
      status := 0 }, .next)

/-- Changes the working directory. -/
def changeDirectory (arguments : List String) (channels : Channels) (machine : Machine) :
    Machine :=
  let target := arguments.head?.getD "."
  match machine.store.locate ⟨target⟩, machine.store.isDirectory ⟨target⟩ with
  | .ok place, true =>
    { machine with store := { machine.store with workingDirectory := place }, status := 0 }
  | _, _ => machine.complainHere channels ("cd: can't cd to " ++ target) 2

/-- Gives variables the words of a line; the last one gets all that are left. -/
def assignWords : List String → List Char → Machine → Machine
  | [], _, machine => machine
  | [name], line, machine => machine.assign name (String.ofList (Text.trim line))
  | name :: names, line, machine =>
    let line := Text.trimStart line
    let isBlank := fun c ↦ isSpace c || c == '\n'
    assignWords names (line.dropWhile (!isBlank ·))
      (machine.assign name (String.ofList (line.takeWhile (!isBlank ·))))

/-- Reads a line of the input into variables. -/
def readLine (arguments : List String) (machine : Machine) : Machine :=
  let names := arguments.filter fun argument ↦ argument.toList.head? != some '-'
  let (line, complete, machine) := machine.takeLine
  (assignWords names line machine).withStatus (if complete then 0 else 1)

/-- Carries out assignments that are written as arguments. -/
def assignArguments (arguments : List String) (machine : Machine) : Machine :=
  arguments.foldl
    (fun machine argument ↦
      let name := argument.toList.takeWhile (· != '=')
      match argument.toList.dropWhile (· != '=') with
      | _ :: value => machine.assign (String.ofList name) (String.ofList value)
      | [] => machine)
    (machine.withStatus 0)

/-- Runs a command about the script itself, if the name is that of one. -/
def control? (name : String) (arguments : List String) (channels : Channels)
    (machine : Machine) : Option Step :=
  match name with
  | "exit" => some (leaveWith name .stop arguments channels machine)
  | "return" => some (leaveWith name .back arguments channels machine)
  | "break" => some (machine.withStatus 0, .leave (loopCount arguments))
  | "continue" => some (machine.withStatus 0, .again (loopCount arguments))
  | "shift" => some (shiftArguments arguments channels machine)
  | "set" => some (changeSwitches arguments channels machine)
  | "cd" => some (changeDirectory arguments channels machine, .next)
  | "export" | "readonly" | "local" => some (assignArguments arguments machine, .next)
  | "unset" => some ((arguments.foldl Machine.forget machine).withStatus 0, .next)
  | "read" => some (readLine arguments machine, .next)
  | "kill" => some (kill arguments channels machine)
  | _ => none

/-! ### Calls -/

/-- Runs a text as a part of the script. -/
def runText (runner : CommandRunner) (channels : Channels) (text : List Char)
    (machine : Machine) : Step :=
  match Command.ofText? text with
  | some command => runner channels command machine
  | none => (machine.complainHere channels "Syntax error" 2, .stop)

/-- Runs a text as a script of its own, under a name and with arguments. -/
def runApart (runner : CommandRunner) (channels : Channels) (switches : Switches) (name : String)
    (arguments : List String) (text : List Char) (machine : Machine) : Step :=
  let fresh : Machine :=
    { store := machine.store, name, arguments, input := machine.input
      collections := machine.collections
      endsOnFailure := switches.isOn 'e' false
      traces := switches.isOn 'x' false }
  if switches.isOn 'n' false then (machine.withStatus 0, .next)
  else
    let (after, flow) := runText runner channels text fresh
    (machine.resume after, flow)

/-- Runs a shell: the script is the first operand, the file that the first operand names, or the
input. -/
def runShell (runner : CommandRunner) (channels : Channels) (name : String)
    (arguments : List String) (machine : Machine) : Step :=
  let fail (reason : String) : Step :=
    (machine.complain channels (name ++ ": 0: " ++ reason) 2, .next)
  match Switches.ofStart arguments with
  | .error reason => fail reason
  | .ok switches =>
    let start := runApart runner channels switches
    match switches.isOn 'c' false, switches.isOn 's' false, switches.operands with
    | true, _, [] => fail "-c requires an argument"
    | true, _, text :: operands =>
      start (operands.head?.getD name) operands.tail text.toList machine
    | false, true, operands =>
      start name operands (Text.decode machine.input) { machine with input := [] }
    | false, false, [] => start name [] (Text.decode machine.input) { machine with input := [] }
    | false, false, file :: operands =>
      match machine.store.readBytes ⟨file⟩ with
      | .ok content => start file operands (Text.decode content.toList) machine
      | .error .isDirectory => start file operands [] machine
      | .error fault => fail ("cannot open " ++ file ++ ": " ++ openingReason fault)

/-- The most programs that are called in place of one another. -/
def maxCalls : Nat := 1000

/-- Runs a program that is called. -/
def runCall (runner : CommandRunner) (channels : Channels) (call : Call) (machine : Machine) :
    Step :=
  match call.followed machine.store maxCalls with
  | .error complaint =>
    (machine.complain channels ("\n".intercalate complaint.lines) complaint.status, .next)
  | .ok none => (machine.withStatus 0, .next)
  | .ok (some call) =>
    if call.program ∈ Call.shells then runShell runner channels call.name call.arguments machine
    else match Utility.ofProgram? call.name call.program with
      | some utility => (utility machine channels call.arguments, .next)
      | none => (machine.withStatus 127, .next)

/-- Runs a program by name or path. A file that names no interpreter is run as a script. -/
def runProgram (runner : CommandRunner) (channels : Channels) (name : String)
    (arguments : List String) (machine : Machine) : Step :=
  match Call.find machine.store name arguments with
  | .ok call => runCall runner channels call machine
  | .error .notProgram => runShell runner channels machine.name (name :: arguments) machine
  | .error fault =>
    let (reason, status) := match fault with
      | .notFound | .notDirectory => ("not found", 127)
      | .nameTooLong | .tooManyLinks => (fault.reason, 127)
      | _ => (fault.reason, 126)
    (machine.complainHere channels (name ++ ": " ++ reason) status, .next)

/-- What a script becomes after a program that it called: a signal that ended the program is
reported. -/
def afterProgram (channels : Channels) : Step → Step
  | (machine, .endless) => (machine, .endless)
  | (machine, .killed signal) =>
    let reported := match Signal.words? signal with
      | some words => machine.emitLine channels.messages words
      | none => machine
    (reported.withStatus (128 + signal), .next)
  | (machine, _) => (machine, .next)

/-- Runs a defined command. -/
def runDefinition (runner : CommandRunner) (channels : Channels) (body : Command)
    (arguments : List String) (machine : Machine) : Step :=
  let (after, flow) := runner channels body { machine with arguments := arguments }
  ({ after with arguments := machine.arguments }, if flow = .back then .next else flow)

/-- Runs a command by name. -/
def call (runner : CommandRunner) (channels : Channels) (name : String)
    (arguments : List String) (machine : Machine) : Step :=
  match control? name arguments channels machine, machine.definitions.lookup name with
  | some step, _ => step
  | none, some body => runDefinition runner channels body arguments machine
  | none, none =>
    match name, arguments with
    | "eval", _ => runText runner channels (" ".intercalate arguments).toList (machine.withStatus 0)
    | ".", file :: _ =>
      match machine.store.readText ⟨file⟩ with
      | .ok text => runText runner channels text.toList machine
      | .error _ => (machine.complainHere channels (".: cannot open " ++ file) 2, .stop)
    | _, _ =>
      match Utility.builtIn? name with
      | some utility => (utility machine channels arguments, .next)
      | none => afterProgram channels (runProgram runner channels name arguments machine)

/-! ### Commands -/

/-- Runs commands until one of them ends the sequence. -/
def runAll (runOne : Command → Machine → Step) : List Command → Machine → Step
  | [], machine => (machine, .next)
  | command :: commands, machine =>
    match runOne command machine with
    | (machine, .next) => runAll runOne commands machine
    | other => other

/-- What becomes of a loop after its body: whether it goes on, or how the script does. -/
def afterBody : Flow → Option Flow
  | .next | .again 0 | .again 1 => none
  | .leave 0 | .leave 1 => some .next
  | .again loops => some (.again (loops - 1))
  | .leave loops => some (.leave (loops - 1))
  | other => some other

/-- Runs the body of a loop for every value of a variable. -/
def runEach (runBody : Machine → Step) (name : String) : List String → Machine → Step
  | [], machine => (machine, .next)
  | value :: values, machine =>
    let (machine, flow) := runBody (machine.assign name value)
    match afterBody flow with
    | none => runEach runBody name values machine
    | some flow => (machine, flow)

/-- Runs a loop at most this many rounds, given the status of the last round. -/
def runLoop (onSuccess : Bool) (runCondition runBody : Machine → Step) :
    (rounds : Nat) → (status : Nat) → Machine → Step
  | 0, _, machine => (machine, .endless)
  | rounds + 1, status, machine =>
    match runCondition machine with
    | (machine, .next) =>
      if (machine.status = 0) = onSuccess then
        let (machine, flow) := runBody machine
        match afterBody flow with
        | none => runLoop onSuccess runCondition runBody rounds machine.status machine
        | some flow => (machine, flow)
      else (machine.withStatus status, .next)
    | other => other

/-- What remains of a command that was run apart: signals and endlessness concern the whole
script. -/
def apart (machine : Machine) (step : Step) : Step :=
  (machine.resume step.1,
    match step.2 with
    | .killed signal => .killed signal
    | .endless => .endless
    | _ => .next)

/-- Runs commands of a pipeline, each on the output of the one before. -/
def runStages (runner : CommandRunner) (channels : Channels) : List Command → Machine → Step
  | [], machine => (machine, .next)
  | [last], machine => apart machine (runner channels last machine)
  | stage :: stages, machine =>
    let (bytes, step) := collect runner channels stage machine
    match apart machine step with
    | (after, .next) => runStages runner channels stages { after with input := bytes }
    | other => other

/-- Ends the script after a failure that nothing depends on, if it is meant to. -/
def checked (channels : Channels) (step : Step) : Step :=
  match step with
  | (machine, .next) =>
    if machine.endsOnFailure && !channels.watched && machine.status != 0 then (machine, .stop)
    else step
  | _ => step

/-- Whether a value takes the output of a command. -/
def takesOutput (word : Word) : Bool :=
  word.any fun
    | .outputOf .. => true
    | _ => false

/-- Carries out assignments. -/
def assignAll (capture : Capture) (assignments : List (String × Word)) (machine : Machine) :
    Machine :=
  assignments.foldl
    (fun machine (name, word) ↦
      let (value, machine) := expandOne capture word machine
      machine.assign name (fieldText value))
    machine

/-- Shows a command, with the values of its assignments, if commands are shown. -/
def trace (channels : Channels) (assignments : List (String × Word)) (fields : List String)
    (machine : Machine) : Machine :=
  let values := assignments.map fun (name, _) ↦ name ++ "=" ++ (machine.held? name).getD ""
  if machine.traces && !(values ++ fields).isEmpty then
    machine.emitLine channels.messages ("+ " ++ " ".intercalate (values ++ fields))
  else machine

/-- Runs a simple command. Assignments in front of a command last no longer than the command. -/
def runSimple (runner : CommandRunner) (channels : Channels) (line : Nat)
    (assignments : List (String × Word)) (words : List Word)
    (redirections : List Redirection) (machine : Machine) : Step :=
  let capture := captureWith runner channels
  let (fields, machine) := expandAll capture words { machine with line }
  match redirectAll capture redirections channels machine with
  | .error machine => (machine, .next)
  | .ok (inner, opened) =>
    let assigned := trace channels assignments fields (assignAll capture assignments opened)
    match fields with
    | [] =>
      let status :=
        if assignments.any (takesOutput ·.2) || words.any takesOutput then assigned.status else 0
      ({ assigned with status, input := machine.input }, .next)
    | ["exec"] => ({ assigned with replaced := some inner, status := 0 }, .next)
    | "exec" :: name :: arguments =>
      let (after, flow) := runProgram runner inner name arguments assigned
      (after, if flow = .next then .stop else flow)
    | name :: arguments =>
      let (after, flow) := call runner inner name arguments assigned
      let input := if redirections.any Redirection.givesInput then machine.input else after.input
      let restored := assignments.foldl
        (fun after (name, _) ↦ match machine.held? name with
          | some value => Machine.assign after name value
          | none => Machine.forget after name)
        { after with input }
      (restored, flow)

/-- Finds the first body with a pattern that matches a text. -/
def findArm (capture : Capture) (subject : List Char) :
    List (List Word × Command) → Machine → Option Command × Machine
  | [], machine => (none, machine)
  | (patterns, body) :: arms, machine =>
    let (found, machine) := patterns.foldl
      (fun (found, machine) pattern ↦
        let (field, machine) := expandOne capture pattern machine
        (found || patternMatches field subject, machine))
      (false, machine)
    if found then (some body, machine) else findArm capture subject arms machine

/-- Runs a command, at most `fuel` commands one inside the other and as many rounds of a loop. -/
def run : (fuel : Nat) → CommandRunner
  | 0, _, _, machine => (machine, .endless)
  | fuel + 1, channels, command, machine =>
    let runner : CommandRunner := run fuel
    let channels := machine.currentChannels channels
    let watched := { channels with watched := true }
    match command with
    | .simple line assignments words redirections =>
      checked channels (runSimple runner channels line assignments words redirections machine)
    | .redirected body redirections =>
      match redirectAll (captureWith runner channels) redirections channels machine with
      | .error machine => checked channels (machine, .next)
      | .ok (inner, opened) =>
        let (after, flow) := runner inner body { opened with replaced := none }
        let input := if redirections.any Redirection.givesInput then machine.input else after.input
        ({ after with input, replaced := machine.replaced }, flow)
    | .pipeline stages =>
      let (after, flow) := runStages runner channels stages machine
      checked channels ({ after with input := machine.input }, flow)
    | .negation body =>
      let (after, flow) := runner watched body machine
      (after.withStatus (if after.status = 0 then 1 else 0), flow)
    | .andThen onSuccess first second =>
      match runner watched first machine with
      | (after, .next) =>
        if (after.status = 0) = onSuccess then runner channels second after else (after, .next)
      | other => other
    | .sequence commands => runAll (runner channels) commands machine
    | .subshell body => checked channels (apart machine (runner channels body machine))
    | .choice condition onSuccess onFailure =>
      match runner watched condition machine with
      | (after, .next) =>
        runner channels (if after.status = 0 then onSuccess else onFailure) (after.withStatus 0)
      | other => other
    | .loop onSuccess condition body =>
      runLoop onSuccess (runner watched condition) (runner channels body) fuel 0 machine
    | .each name words? body =>
      let (values, machine) := match words? with
        | some words => expandAll (captureWith runner channels) words machine
        | none => (machine.arguments, machine)
      runEach (runner channels body) name values (machine.withStatus 0)
    | .cases subject arms =>
      let capture := captureWith runner channels
      let (field, machine) := expandOne capture subject machine
      match findArm capture (field.map (·.1)) arms machine with
      | (some body, machine) => runner channels body (machine.withStatus 0)
      | (none, machine) => (machine.withStatus 0, .next)
    | .define name body =>
      ({ machine with definitions := (name, body) :: machine.definitions, status := 0 }, .next)

end Montage.Script
