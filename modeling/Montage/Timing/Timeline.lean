import Montage.Timing.TimedLine

/-!
# Timelines

A timeline is what the timing files say together: the runs, ordered by code, and the speed changes,
in the order in which they were declared. A timeline only grows: ticks set bounds or replace them,
and nothing is removed.
-/

set_option autoImplicit false
set_option relaxedAutoImplicit false

namespace Montage.Timing

open Numeric

/-- All runs and all speed changes. -/
structure Timeline where
  /-- The runs, ordered by code. -/
  runs : List (RunCode × Run) := []
  /-- The speed changes, in the order of their declaration. -/
  changes : List SpeedChange := []
deriving DecidableEq, Repr

namespace Timeline

/-- Changes the run of a code in an ordered list, after adding it if it is missing. -/
def alterRun (code : RunCode) (change : Run → Run) :
    List (RunCode × Run) → List (RunCode × Run)
  | [] => [(code, change {})]
  | (other, run) :: rest =>
    if code = other then (other, change run) :: rest
    else if code < other then (code, change {}) :: (other, run) :: rest
    else (other, run) :: alterRun code change rest

/-- The run of a code. -/
def run? (timeline : Timeline) (code : RunCode) : Option Run :=
  (timeline.runs.find? (·.1 = code)).map (·.2)

/-- Records what a word says at a time of a recording. -/
def recordTick (source : Path) (time : Binary64) (timeline : Timeline) (tick : Tick) : Timeline :=
  match tick with
  | .boundary code slot endpoint =>
    { timeline with runs := alterRun code (·.mark slot endpoint time source) timeline.runs }
  | .speed factor =>
    { timeline with changes := timeline.changes ++ [⟨time, .ofNat factor, source⟩] }
  | _ => timeline

/-- Records a line of a recording. -/
def recordLine (source : Path) (timeline : Timeline) (line : List Char) : Timeline :=
  match TimedLine.ofLine line with
  | .timed time words =>
    words.foldl (fun timeline word ↦ timeline.recordTick source time (Tick.ofWord word)) timeline
  | _ => timeline

/-- Records a timing file of a recording. -/
def recordText (source : Path) (timeline : Timeline) (text : String) : Timeline :=
  (Text.lines text.toList).foldl (recordLine source) timeline

/-- The number of lines of a timing file that have a time. -/
def timedLines (text : String) : Nat :=
  (Text.lines text.toList).countP fun line ↦ (TimedLine.ofLine line).isTimed

/-- What is reported of a timing file. -/
def textLog (text : String) : List LogEntry :=
  (Text.lines text.toList).flatMap TimedLine.log

/-- The runs of every team. -/
def teams (timeline : Timeline) : List (String × List (Nat × Run)) :=
  (timeline.runs.splitBy fun a b ↦ a.1.team == b.1.team).filterMap fun runs ↦
    runs.head?.map fun first ↦ (first.1.team, runs.map fun (code, run) ↦ (code.counter, run))

/-- The intervals of a run, cut and retimed at all speed changes. -/
def resolveRun (timeline : Timeline) (code : RunCode) : Except Failure (List Interval) :=
  match timeline.run? code with
  | some run => .ok (resolve run.intervals timeline.changes)
  | none => .error (.unknownRun code.toText)

/-- The intervals of every run, cut and retimed at all speed changes. -/
def resolveAll (timeline : Timeline) : List (RunCode × List Interval) :=
  timeline.runs.map fun (code, run) ↦ (code, resolve run.intervals timeline.changes)

/-- An overview of all runs, team by team, and the number of speed changes. -/
def summary (timeline : Timeline) : List LogEntry :=
  let ofRun (team : String) : Nat × Run → LogEntry := fun (counter, run) ↦
    .info ("    " ++ team ++ toString counter ++ " : " ++ toString run.checkpoints.length ++ " [" ++
      ", ".intercalate (run.intervals.map Interval.toText) ++ "]")
  let runs := timeline.teams.flatMap fun (team, runs) ↦ .info team :: runs.map (ofRun team)
  runs ++
    if timeline.changes = [] then []
    else [.info ("speed changes: " ++ toString timeline.changes.length)]

end Timeline

end Montage.Timing
