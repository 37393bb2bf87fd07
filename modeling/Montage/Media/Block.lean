import Montage.Failure
import Montage.Registry.Basic
import Montage.VisualFilter

/-!
# Media blocks

A block is a range of one input, played at some speed and with visual filters; an output is a list
of blocks in the order of playback. A usable block has a finite range that does not end before it
starts, and a finite positive speed.
-/

set_option autoImplicit false
set_option relaxedAutoImplicit false

namespace Montage.Media

open Numeric Registry

/-- A recording that blocks are cut from. -/
structure Input where
  /-- The file of the recording. -/
  path : Path
  /-- Its key. -/
  key : Key
deriving DecidableEq, Repr

/-- A range of an input. -/
structure Block where
  /-- The key of the input. -/
  input : Key
  /-- The start of the range, in seconds. -/
  start : Binary64
  /-- The end of the range. -/
  stop : Binary64
  /-- The playback speed. -/
  speed : Binary64
  /-- The changes of the picture. -/
  filters : List VisualFilter := []
deriving DecidableEq, Repr

namespace Block

/-- The length of the range. -/
def duration (block : Block) : Binary64 := block.stop - block.start

/-- The time that the block takes to play. -/
def playback (block : Block) : Binary64 := block.duration / block.speed

/-- What is wrong with a range and a speed; the range is looked at first. -/
def fault? (start stop speed : Binary64) : Option BlockFault :=
  if ¬(start.isFinite ∧ stop.isFinite ∧ start ≤ stop) then some (.unordered start stop)
  else if ¬(speed.isFinite ∧ Binary64.zero false < speed) then some (.unusableSpeed speed)
  else none

end Block

/-- A file to be rendered. -/
structure Output where
  /-- The file. -/
  path : Path
  /-- Its key. -/
  key : Key
  /-- Its blocks, in the order of playback. -/
  blocks : List Block := []
deriving DecidableEq, Repr

/-- The time that the output takes to play. -/
def Output.playback (output : Output) : Binary64 := .sum (output.blocks.map Block.playback)

end Montage.Media
