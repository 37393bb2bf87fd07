import Montage.CommandLine.Arguments
import Montage.Composition
import Montage.Render.Tool
import Montage.Settings.File

/-!
# Sessions

A session is one use of the command line. It reads the settings, shows the runs or composes the
outputs, and ends with a status and, after a failure, a report. Failures before the composition are
reported with their cause; failures of the composition are reported as a user is told of them.
-/

set_option autoImplicit false
set_option relaxedAutoImplicit false

namespace Montage.CommandLine

/-- The name of the program. -/
def programName : String := "tick-compositor"

/-- The version of the program. -/
def programVersion : String := "0.1.0"

/-- What a session leaves behind. -/
structure Session where
  /-- The files. -/
  store : Store
  /-- What was printed besides entries of the log. -/
  printed : List String := []
  /-- The entries of the log. -/
  log : List LogEntry := []
  /-- The report of a failure. -/
  report : String := ""
  /-- The status of the program. -/
  status : Nat := 0
  /-- Whether details are reported. -/
  verbose : Bool := false

namespace Session

/-- The lines of the output: what was printed, and the entries of the log. -/
def lines (session : Session) : List String :=
  session.printed ++ session.log.flatMap LogEntry.lines

/-- The report of a failure by its message. -/
def shortReport (message : String) : String := "Error: " ++ message ++ "\n"

/-- The report of a failure with its cause, whose lines are indented. -/
def fullReport (failure : Failure) : String :=
  let cause := (Text.cut (· == '\n') failure.cause.toList).map String.ofList
  "Error: " ++ failure.message ++ "\n\nCaused by:\n    " ++ "\n    ".intercalate cause ++ "\n"

/-- The status after a failure: an ordinary one, or a broken rule. -/
def failureStatus : Failure → Nat
  | .defect _ => 101
  | _ => 1

/-- The session that a failure ends with a report. -/
def fail (session : Session) (failure : Failure) (report : String) : Session :=
  { session with report, status := failureStatus failure }

/-- The session with further entries of the log, and with details only if they are asked for. -/
def say (session : Session) (entries : List LogEntry) : Session :=
  let reported := entries.filter fun entry ↦ session.verbose || entry.severity != .debug
  { session with log := session.log ++ reported }

/-- The entry on where the settings come from. -/
def settingsEntry : Option Path → LogEntry
  | some path => .info ("Loading configuration from " ++ Text.quoted path.text)
  | none => .info "Using default configuration"

/-- The settings of a file, or the defaults, if they make sense. -/
def readSettings (store : Store) (path? : Option Path) : Except Failure Settings := do
  let settings ← match path? with
    | some path => Settings.load store path
    | none => .ok {}
  settings.check
  return settings

/-- Shows all runs. -/
def showRuns (session : Session) (settings : Settings) (input : Path) : Session :=
  match (Composition.loadTimings settings session.store input).outcome with
  | (.ok timeline, log) => session.say (log ++ timeline.summary)
  | (.error failure, log) => (session.say log).fail failure (fullReport failure)

/-- Composes all outputs by a runner. -/
def composeBy (session : Session) (runner : Runner Store) (settings : Settings)
    (input output : Path) : Session :=
  let conversion := Composition.compose settings runner session.store input output
  let after := ({ session with store := conversion.world }).say conversion.log
  match conversion.failure? with
  | some failure => after.fail failure (shortReport failure.advice)
  | none => after.say [.info ("Done: " ++ toString conversion.converted.length ++ " converted, " ++
      toString conversion.skipped.length ++ " skipped")]

/-- Asks the rendering program whether it is there, and makes the output directory. -/
def prepare (session : Session) (settings : Settings) (output : Path) : Except Session Session :=
  let (answers, store) := Tool.answers session.store settings.program
  let asked := { session with store }
  let warned :=
    if answers then asked
    else asked.say [.warn (settings.program ++ " does not respond to -version")]
  match store.makeDirectories output with
  | .ok store => .ok { warned with store }
  | .error fault => .error (warned.fail (.file fault) (shortReport fault.text))

/-- Composes all outputs, or only reports the commands. -/
def compose (session : Session) (settings : Settings) (dryRun : Bool) (input output : Path) :
    Session :=
  if dryRun then session.composeBy (Runner.dry Store.pathExists) settings input output
  else match session.prepare settings output with
    | .ok prepared => prepared.composeBy Runner.tool settings input output
    | .error failed => failed

/-- Does what is asked for. -/
def ofRequest (store : Store) : Request → Session
  | .help => { store, printed := ["Usage: " ++ programName ++ " [OPTIONS] --input <INPUT>"] }
  | .version => { store, printed := [programName ++ " " ++ programVersion] }
  | .composition input output? settings? switches =>
    let opened : Session :=
      { store, verbose := .verbose ∈ switches,
        log := [.info ("Starting Tick-Compositor v" ++ programVersion), settingsEntry settings?] }
    match readSettings store settings? with
    | .error failure => opened.fail failure (fullReport failure)
    | .ok settings =>
      if .show ∈ switches then opened.showRuns settings input
      else opened.compose settings (.dryRun ∈ switches) input (output?.getD input)

/-- The status of a program whose arguments have a fault. -/
def usageStatus : Nat := 2

/-- Runs a session. -/
def run (store : Store) (arguments : List String) : Session :=
  match Request.ofArguments arguments with
  | .ok request => ofRequest store request
  | .error fault => { store, report := "error: " ++ fault.text ++ "\n", status := usageStatus }

end Session

end Montage.CommandLine
