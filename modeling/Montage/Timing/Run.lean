import Montage.Failure
import Montage.Timing.Resolution
import Montage.Timing.RunCode

/-!
# Runs

A run is an optional intro and a list of checkpoints, each an interval, played in this order. Ticks
set the bounds of one slot at a time; a checkpoint that was never ticked but lies below a ticked one
is an interval without bounds.
-/

set_option autoImplicit false
set_option relaxedAutoImplicit false

namespace Montage.Timing

/-- The place of an interval in a run. -/
inductive Slot where
  /-- The part before the first checkpoint. -/
  | intro
  /-- The checkpoint of this index. -/
  | checkpoint (index : Nat)
deriving DecidableEq, Repr

/-- The name of a slot in ticks and messages. -/
def Slot.toText : Slot → String
  | intro => "int"
  | checkpoint index => "cp" ++ toString index

/-- The intervals of one run. -/
structure Run where
  /-- The part before the first checkpoint, if it was ticked. -/
  intro : Option Interval := none
  /-- The checkpoints, up to the last ticked one. -/
  checkpoints : List Interval := []
deriving DecidableEq, Repr

namespace Run

/-- Sets a bound of a slot, after adding the checkpoints that are missing below it. -/
def mark (run : Run) (slot : Slot) (endpoint : Endpoint) (time : Numeric.Binary64)
    (source : Path) : Run :=
  match slot with
  | .intro => { run with intro := some ((run.intro.getD {}).mark endpoint time source) }
  | .checkpoint index =>
    let grown := run.checkpoints ++ List.replicate (index + 1 - run.checkpoints.length) {}
    { run with checkpoints := grown.modify index (·.mark endpoint time source) }

/-- The intervals in the order of playback, each with its slot. -/
def slots (run : Run) : List (Slot × Interval) :=
  run.intro.toList.map (Slot.intro, ·) ++
    run.checkpoints.zipIdx.map fun (interval, index) ↦ (.checkpoint index, interval)

/-- The intervals in the order of playback. -/
def intervals (run : Run) : List Interval := run.intro.toList ++ run.checkpoints

/-- The first slot that lacks a bound, and the bound that it lacks. -/
def firstMissing? (run : Run) : Option (Slot × Endpoint) :=
  run.slots.findSome? fun (slot, interval) ↦ interval.missing?.map (slot, ·)

/-- Fails on the first slot that lacks a bound. -/
def checkComplete (run : Run) (code : RunCode) : Except Failure Unit :=
  match run.firstMissing? with
  | none => .ok ()
  | some (slot, missing) => .error (.incompleteInterval code.toText slot.toText missing)

end Run

end Montage.Timing
