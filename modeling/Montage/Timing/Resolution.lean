import Montage.Timing.Interval

/-!
# Resolving speed changes

Speed changes are applied to a list of intervals in the order in which they were declared, each to
the fragments that the ones before it have left. They are not sorted by time.
-/

set_option autoImplicit false
set_option relaxedAutoImplicit false

namespace Montage.Timing

/-- Splits every interval that contains the change. -/
def applyChange (intervals : List Interval) (change : SpeedChange) : List Interval :=
  intervals.flatMap fun i ↦ if i.Contains change then i.split change else [i]

/-- Applies all changes, in the order of their declaration. -/
def resolve (intervals : List Interval) (changes : List SpeedChange) : List Interval :=
  changes.foldl applyChange intervals

end Montage.Timing
