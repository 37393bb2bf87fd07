import Montage.Media.Block

/-!
# Catalogues of inputs and outputs

A catalogue registers inputs and outputs and appends blocks to outputs. An input is registered once
for all paths that are the same, found again through a cache of paths; outputs always get a key of
their own. Operations that fail return no catalogue, so nothing of them remains.
-/

set_option autoImplicit false
set_option relaxedAutoImplicit false

namespace Montage.Media

open Numeric Registry Timing

/-- The registered inputs and outputs. -/
structure Catalogue where
  /-- The inputs. -/
  inputs : Registry Input := .empty
  /-- The outputs. -/
  outputs : Registry Output := .empty
  /-- The key of every path under which an input was registered. -/
  keyOfPath : List (Path × Key) := []
deriving Repr

namespace Catalogue

/-- The key of an input's path, if the input is registered. -/
def inputKey? (catalogue : Catalogue) (path : Path) : Option Key :=
  (catalogue.keyOfPath.find? (·.1.Same path)).map (·.2)

/-- Registers an input, unless it is registered. -/
def addInput (catalogue : Catalogue) (path : Path) : Catalogue × Key :=
  match catalogue.inputKey? path with
  | some key => (catalogue, key)
  | none =>
    let key := catalogue.inputs.nextKey
    ({ catalogue with
        inputs := catalogue.inputs.insertWith fun key ↦ { path, key }
        keyOfPath := catalogue.keyOfPath ++ [(path, key)] }, key)

/-- Registers an output under a fresh key. -/
def addOutput (catalogue : Catalogue) (path : Path) : Catalogue × Key :=
  ({ catalogue with outputs := catalogue.outputs.insertWith fun key ↦ { path, key } },
    catalogue.outputs.nextKey)

/-- Appends a block to an output. -/
def addBlock (catalogue : Catalogue) (output : Key) (block : Block) : Except Failure Catalogue :=
  if catalogue.inputs.contains block.input = false then .error (.unknownInput block.input.text)
  else match Block.fault? block.start block.stop block.speed with
    | some fault => .error (.invalidBlock fault)
    | none =>
      if catalogue.outputs.contains output = false then .error (.unknownOutput output.text)
      else .ok { catalogue with
        outputs := catalogue.outputs.modify output fun stored ↦
          { stored with blocks := stored.blocks ++ [block] } }

/-- The recording, the range and the speed of an interval, if it makes a usable block. -/
def rangeOf (interval : Interval) :
    Except Failure (Path × Binary64 × Binary64 × Binary64) :=
  match interval.bounds?, interval.source with
  | some (start, stop), some source =>
    match Block.fault? start stop interval.speed with
    | some fault => .error (.invalidBlock fault)
    | none => .ok (source, start, stop, interval.speed)
  | _, _ => .error (.invalidBlock (.incomplete interval))

/-- Registers the recording of a range and appends the range to an output. -/
def addRange (output : Key) (filters : List VisualFilter) (catalogue : Catalogue)
    (range : Path × Binary64 × Binary64 × Binary64) : Except Failure Catalogue :=
  let (source, start, stop, speed) := range
  let (catalogue, input) := catalogue.addInput source
  catalogue.addBlock output { input, start, stop, speed, filters }

/-- Appends intervals to an output, after all of them were found usable. -/
def addIntervals (catalogue : Catalogue) (output : Key) (intervals : List Interval)
    (filters : List VisualFilter) : Except Failure Catalogue :=
  if catalogue.outputs.contains output = false then .error (.unknownOutput output.text)
  else do
    let ranges ← intervals.mapM rangeOf
    ranges.foldlM (addRange output filters) catalogue

/-- The number of registered inputs. -/
def inputCount (catalogue : Catalogue) : Nat := catalogue.inputs.size

end Catalogue

end Montage.Media
