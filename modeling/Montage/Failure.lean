import Montage.Text.Quoted
import Montage.Timing.Interval

/-!
# Failures

Everything that can go wrong, by cause. The wording is kept apart from the causes: `Failure.cause`
describes a failure, `Failure.message` puts the area that it belongs to in front, and
`Failure.advice` is what a user is told.
-/

set_option autoImplicit false
set_option relaxedAutoImplicit false

namespace Montage

open Numeric Timing

/-- Why a media block cannot be used. -/
inductive BlockFault where
  /-- The output has no blocks. -/
  | noBlocks (output : Path)
  /-- The range is infinite or ends before it starts. -/
  | unordered (start stop : Binary64)
  /-- The speed is infinite or not positive. -/
  | unusableSpeed (speed : Binary64)
  /-- The interval lacks a bound or a recording. -/
  | incomplete (interval : Interval)
  /-- A fault in words. -/
  | described (details : String)
deriving DecidableEq, Repr

/-- The wording of a block's fault. -/
def BlockFault.details : BlockFault → String
  | noBlocks output => "output " ++ output.text ++ " has no media blocks"
  | unordered start stop => "range " ++ start.toText ++ ".." ++ stop.toText ++ " is not ordered"
  | unusableSpeed speed => "speed " ++ speed.toText ++ " must be positive"
  | incomplete interval => "interval " ++ interval.toText ++ " has no complete range"
  | described details => details

/-- Why a file or directory could not be used. -/
inductive FileFault where
  /-- There is nothing of this name. -/
  | notFound
  /-- The file may not be used in this way. -/
  | denied
  /-- There is already something of this name. -/
  | alreadyExists
  /-- Something on the way is a file. -/
  | notDirectory
  /-- It is a directory. -/
  | isDirectory
  /-- The file does not start like a program. -/
  | notProgram
  /-- The bytes of the file are not text. -/
  | notText
  /-- The name has a character with code zero in it. -/
  | unusableName
  /-- The name is longer than names can be. -/
  | nameTooLong
  /-- One file leads to another, too many times in a row. -/
  | tooManyLinks
  /-- A program gets an argument that is longer than arguments can be. -/
  | argumentTooLong
  /-- A fault in words. -/
  | described (text : String)
deriving DecidableEq, Repr

/-- The wording of a file's fault. -/
def FileFault.reason : FileFault → String
  | notFound => "No such file or directory"
  | denied => "Permission denied"
  | alreadyExists => "File exists"
  | notDirectory => "Not a directory"
  | isDirectory => "Is a directory"
  | notProgram => "Exec format error"
  | nameTooLong => "File name too long"
  | tooManyLinks => "Too many levels of symbolic links"
  | argumentTooLong => "Argument list too long"
  | notText => "stream did not contain valid UTF-8"
  | unusableName => "file name contained an unexpected NUL byte"
  | described text => text

/-- The number of a file's fault in the system's list of errors. -/
def FileFault.number? : FileFault → Option Nat
  | notFound => some 2
  | argumentTooLong => some 7
  | notProgram => some 8
  | denied => some 13
  | alreadyExists => some 17
  | notDirectory => some 20
  | isDirectory => some 21
  | nameTooLong => some 36
  | tooManyLinks => some 40
  | notText | unusableName | described _ => none

/-- The wording of a file's fault, with its number if it has one. -/
def FileFault.text (fault : FileFault) : String :=
  match fault.number? with
  | some number => fault.reason ++ " (os error " ++ toString number ++ ")"
  | none => fault.reason

/-- A rule that callers have to keep was broken, and there is no answer. -/
inductive Defect where
  /-- A graph mentions a node that it does not have. -/
  | danglingNode (id : Nat)
  /-- A node of a graph is below itself. -/
  | cyclicGraph
  /-- A table with this many rows does not fit into any memory. -/
  | tableTooLong (rows : Nat)
  /-- A file name extension contains a separator. -/
  | separatorInExtension (extension : String)
  /-- A program does not end. -/
  | endlessProgram (program : String)
deriving DecidableEq, Repr

/-- What went wrong. -/
inductive Failure where
  /-- The input directory holds no timing file. -/
  | noTimingFiles (directory : String)
  /-- The text is not a run code. -/
  | malformedRunCode (code : String)
  /-- No timing file mentions the run. -/
  | unknownRun (code : String)
  /-- An interval of the run lacks a bound. -/
  | incompleteInterval (code slot : String) (missing : Endpoint)
  /-- No input has the key. -/
  | unknownInput (key : String)
  /-- No output has the key. -/
  | unknownOutput (key : String)
  /-- A media block cannot be used. -/
  | invalidBlock (fault : BlockFault)
  /-- No leaf of the graph has the index. -/
  | missingInput (index : Nat)
  /-- The root of the graph is not an output. -/
  | missingOutputPath
  /-- The graph has no root. -/
  | emptyGraph
  /-- The settings are not written properly. -/
  | malformedSettings (path : String)
  /-- A setting has a value that makes no sense. -/
  | invalidSetting (key value : String)
  /-- The settings cannot be read. -/
  | settingsNotFound (path : String)
  /-- The program did not start. -/
  | notStarted (program reason : String)
  /-- The program started and failed. -/
  | processFailed (program status stderr : String)
  /-- A file or directory could not be used. -/
  | file (fault : FileFault)
  /-- A failure in words. -/
  | described (text : String)
  /-- A caller broke a rule. -/
  | defect (defect : Defect)
deriving DecidableEq, Repr

namespace Failure

/-- What a failure is about. -/
inductive Area where
  /-- Ticks and manifests. -/
  | timing
  /-- Media blocks and filter graphs. -/
  | graph
  /-- Settings. -/
  | settings
  /-- Running programs. -/
  | execution
  /-- Files and directories. -/
  | file
  /-- Anything else. -/
  | generic
deriving DecidableEq, Repr

/-- The words in front of the failures of an area. -/
def Area.heading : Area → String
  | timing => "Timing error: "
  | graph => "Graph error: "
  | settings => "Configuration error: "
  | execution => "Execution error: "
  | file => "IO error: "
  | generic => "Generic error: "

/-- The area that a failure belongs to. -/
def area : Failure → Area
  | noTimingFiles _ | malformedRunCode _ | unknownRun _ | incompleteInterval _ _ _ => .timing
  | unknownInput _ | unknownOutput _ | invalidBlock _ | missingInput _ | missingOutputPath
  | emptyGraph => .graph
  | malformedSettings _ | invalidSetting _ _ | settingsNotFound _ => .settings
  | notStarted _ _ | processFailed _ _ _ => .execution
  | file _ => .file
  | described _ | defect _ => .generic

/-- The wording of a failure. -/
def cause : Failure → String
  | noTimingFiles directory => "No timing files found in directory: " ++ directory
  | malformedRunCode code => "Malformed run code: " ++ code
  | unknownRun code => "Run not found in timing data: " ++ code
  | incompleteInterval code slot missing =>
    "Interval " ++ slot ++ " of run " ++ code ++ " is missing its " ++ missing.word ++ " boundary"
  | unknownInput key => "Unknown input source key: " ++ key
  | unknownOutput key => "Unknown output source key: " ++ key
  | invalidBlock fault => "Invalid media block: " ++ fault.details
  | missingInput index => "No input registered for stream index " ++ toString index
  | missingOutputPath => "Root graph node has no output path"
  | emptyGraph => "Filter graph has no root node"
  | malformedSettings path => "Failed to parse configuration file: " ++ path
  | invalidSetting key value => "Invalid configuration value: " ++ key ++ " = " ++ value
  | settingsNotFound path => "Configuration file not found: " ++ path
  | notStarted program reason => "Failed to spawn " ++ program ++ ": " ++ reason
  | processFailed program status stderr => program ++ " exited with " ++ status ++ ": " ++ stderr
  | file fault => fault.text
  | described text => text
  | defect (.danglingNode id) => "node " ++ toString id ++ " is not in the graph"
  | defect .cyclicGraph => "a node is below itself"
  | defect (.tableTooLong rows) => "no memory holds a table of " ++ toString rows ++ " rows"
  | defect (.separatorInExtension extension) =>
    "extension cannot contain path separators: " ++ Text.quoted extension
  | defect (.endlessProgram program) => "program does not end: " ++ program

/-- The wording of a failure after the area that it belongs to. -/
def message (f : Failure) : String := f.area.heading ++ f.cause

/-- What a user is told. -/
def advice : Failure → String
  | notStarted program _ =>
    "Could not start '" ++ program ++ "'. Please check that FFmpeg is installed and on PATH."
  | unknownRun code => "Run '" ++ code ++ "' is listed in the manifest but has no timing data."
  | settingsNotFound path => "Configuration file '" ++ path ++ "' not found."
  | f => f.message

/-- Whether trying again may help: outputs that exist are not rendered again, so only what failed
is done once more. -/
def isRecoverable (f : Failure) : Bool :=
  match f.area with
  | .file | .execution => true
  | _ => false

/-! ### Computations that may fail -/

variable {α β : Type}

@[simp] theorem ok_bind (a : α) (rest : α → Except Failure β) : (Except.ok a >>= rest) = rest a :=
  rfl

@[simp] theorem error_bind (failure : Failure) (rest : α → Except Failure β) :
    (Except.error failure >>= rest) = .error failure := rfl

theorem exists_eq_ok (outcome : Except Failure α) (h : outcome.toOption.isSome) :
    ∃ a, outcome = .ok a := by
  cases outcome with
  | ok a => exact ⟨a, rfl⟩
  | error failure => cases h

/-- A computation of two steps gives a result if both steps do, whatever its failures are. -/
theorem bind_eq_ok {ε : Type} {first : Except ε α} {rest : α → Except ε β} {b : β} :
    (first >>= rest) = .ok b ↔ ∃ a, first = .ok a ∧ rest a = .ok b := by
  constructor
  · intro h
    cases first with
    | ok a => exact ⟨a, rfl, h⟩
    | error failure => cases h
  · rintro ⟨a, rfl, h⟩
    exact h

/-- A computation of two steps fails in one of them. -/
theorem bind_eq_error {first : Except Failure α} {rest : α → Except Failure β} {failure : Failure} :
    (first >>= rest) = .error failure ↔
      first = .error failure ∨ ∃ a, first = .ok a ∧ rest a = .error failure := by
  cases first with
  | ok a => simp
  | error other => simp

end Failure

end Montage
