import Montage.Graph.Basic
import Montage.Media.Block
import Montage.Settings.Basic

/-!
# The filter graph of an output

Every block of an output becomes a leg for the picture and a leg for the sound: a leaf, and a chain
that trims it, moves its start to time zero and changes its speed. Visual filters end the leg for
the picture. The root concatenates all legs and has the output's file as its target. Inputs are
numbered in the order in which the blocks first use them.
-/

set_option autoImplicit false
set_option relaxedAutoImplicit false

namespace Montage.Graph

open Media Registry Numeric

/-- The filter of a change of the picture. -/
def Filter.ofVisual : VisualFilter → Filter
  | .rotate degrees => { name := "rotate", argument := some (degrees.toText ++ "*PI/180") }
  | .transpose direction => { name := "transpose", named := [("dir", toString direction)] }
  | .crop width height x y =>
    { name := "crop"
      named := [("w", toString width), ("h", toString height), ("x", toString x),
        ("y", toString y)] }

/-- The filters that change the speed of a stream, unless the speed is normal. -/
def speedFilters (interpolate : Bool) (speed : Binary64) (kind : StreamKind) : List Filter :=
  if speed.agrees .one then []
  else match kind with
    | .audio => [{ name := "atempo", argument := some speed.toText }]
    | .video =>
      { name := "setpts", argument := some ("PTS*" ++ (Binary64.one / speed).toText) } ::
        if interpolate then
          [{ name := "minterpolate"
             named := [("mi_mode", "mci"), ("mc_mode", "aobmc"), ("vsbmc", "1")] }]
        else []

/-- The filters of a block's leg. -/
def legFilters (interpolate : Bool) (block : Block) (kind : StreamKind) : List Filter :=
  [{ name := kind.filterName "trim"
     named := [("start", block.start.toText), ("end", block.stop.toText)] },
    { name := kind.filterName "setpts", argument := some "PTS-STARTPTS" }] ++
    speedFilters interpolate block.speed kind ++
    match kind with
    | .video => block.filters.map Filter.ofVisual
    | .audio => []

/-- The filter that plays one block after the other. -/
def concatFilter (blocks : Nat) : Filter where
  name := "concat"
  named := [("n", toString blocks), ("v", "1"), ("a", "1")]

/-- A graph in the making: what is built, and the keys of its inputs in the order of their first
use. -/
structure Draft where
  /-- The nodes so far. -/
  graph : Graph := {}
  /-- The inputs so far. -/
  keys : List Key := []
  /-- The numbers of the legs so far. -/
  legs : List Nat := []

namespace Draft

/-- The number of an input, which is a new one if the input was not used before. -/
def indexOf (draft : Draft) (key : Key) : Nat := draft.keys.idxOf key

/-- Adds a leg: a leaf and the chain above it. -/
def addLeg (interpolate : Bool) (block : Block) (path : Path) (draft : Draft)
    (kind : StreamKind) : Draft :=
  let leaf := draft.graph.nextId
  let withLeaf := draft.graph.push (.leaf (draft.indexOf block.input) path kind)
  let withLeg := withLeaf.push (.chain [leaf] (legFilters interpolate block kind) 1 none)
  { draft with graph := withLeg, legs := draft.legs ++ [withLeaf.nextId] }

/-- Adds both legs of a block. -/
def addBlock (inputs : Registry Input) (interpolate : Bool) (draft : Draft) (block : Block) :
    Except Failure Draft :=
  match inputs.get? block.input with
  | none => .error (.unknownInput block.input.text)
  | some input =>
    let withLegs := [StreamKind.video, .audio].foldl (addLeg interpolate block input.path) draft
    .ok { withLegs with
      keys := if block.input ∈ draft.keys then draft.keys else draft.keys ++ [block.input] }

end Draft

end Montage.Graph

namespace Montage.Graph

open Media

/-- The filter graph of an output. -/
def ofOutput (inputs : Registry Input) (interpolate : Bool) (output : Output) :
    Except Failure Graph :=
  if output.blocks = [] then .error (.invalidBlock (.noBlocks output.path))
  else do
    let draft ← output.blocks.foldlM (Draft.addBlock inputs interpolate) {}
    let root := .chain draft.legs [concatFilter output.blocks.length] 2 (some output.path)
    return { draft.graph.push root with root := some draft.graph.nextId }

end Montage.Graph
