import Montage.Numeric.Notation
import Montage.Path

/-!
# Intervals of a recording

An interval is a span of one recording. Both of its bounds start unset and are set by ticks. A speed
change belongs to a recording too; an interval contains it when it lies on the same recording at or
after the start and before the end, so that a change at the end belongs to whatever follows.
Splitting an interval at a change keeps the span: the part before keeps its speed and the rest takes
the new one.
-/

set_option autoImplicit false
set_option relaxedAutoImplicit false

namespace Montage.Timing

open Numeric

/-- A bound of an interval. -/
inductive Endpoint where
  /-- The opening bound. -/
  | start
  /-- The closing bound. -/
  | stop
deriving DecidableEq, Repr

namespace Endpoint

/-- The bound that a flag letter names, in either case. -/
def ofFlag? (flag : Char) : Option Endpoint :=
  match flag.toLower with
  | 'a' => some start
  | 'b' => some stop
  | _ => none

/-- The word for a bound. -/
def word : Endpoint → String
  | start => "start"
  | stop => "end"

end Endpoint

/-- A change of the playback speed at one time of a recording. -/
structure SpeedChange where
  /-- Seconds from the start of the recording. -/
  time : Binary64
  /-- The speed for the rest of an interval that contains the time. -/
  speed : Binary64
  /-- The recording. -/
  source : Path
deriving DecidableEq, Repr

/-- A span of one recording. -/
structure Interval where
  /-- The opening time, once it is known. -/
  start : Option Binary64 := none
  /-- The closing time, once it is known. -/
  stop : Option Binary64 := none
  /-- The recording, once a bound is known. -/
  source : Option Path := none
  /-- The playback speed. -/
  speed : Binary64 := .one
deriving DecidableEq, Repr

namespace Interval

/-- The interval with both bounds set, at normal speed. -/
def between (start stop : Binary64) (source : Path) : Interval where
  start := some start
  stop := some stop
  source := some source

/-- Sets a bound, and the recording it was taken from. -/
def mark (i : Interval) (endpoint : Endpoint) (time : Binary64) (source : Path) : Interval :=
  match endpoint with
  | .start => { i with start := some time, source := some source }
  | .stop => { i with stop := some time, source := some source }

/-- Both bounds, if both are set. -/
def bounds? (i : Interval) : Option (Binary64 × Binary64) :=
  match i.start, i.stop with
  | some start, some stop => some (start, stop)
  | _, _ => none

/-- The first bound that is not set. -/
def missing? (i : Interval) : Option Endpoint :=
  if i.start.isNone then some .start
  else if i.stop.isNone then some .stop
  else none

/-- The length in seconds of the recording, zero while a bound is missing. -/
def duration (i : Interval) : Binary64 :=
  match i.bounds? with
  | some (start, stop) => stop - start
  | none => .zero false

/-- Whether a change lies on the recording of the interval, at or after its start and before its
end. -/
def Contains (i : Interval) (change : SpeedChange) : Prop :=
  match i.source, i.bounds? with
  | some source, some (start, stop) =>
    source.Same change.source ∧ start ≤ change.time ∧ change.time < stop
  | _, _ => False

instance (i : Interval) (change : SpeedChange) : Decidable (i.Contains change) := by
  unfold Contains
  split <;> infer_instance

/-- The parts before and from a change. A change at the start only sets the speed. -/
def split (i : Interval) (change : SpeedChange) : List Interval :=
  if i.start.any (·.agrees change.time) then [{ i with speed := change.speed }]
  else
    [{ i with stop := some change.time },
      { i with start := some change.time, speed := change.speed }]

/-- The text of a bound, with a question mark for a missing one. -/
def boundText (bound : Option Binary64) : String := (bound.map Binary64.toText).getD "?"

/-- The bounds, and the speed unless it is normal. -/
def toText (i : Interval) : String :=
  boundText i.start ++ "-" ++ boundText i.stop ++
    if i.speed.agrees .one then "" else "@" ++ i.speed.toText

end Interval

end Montage.Timing
