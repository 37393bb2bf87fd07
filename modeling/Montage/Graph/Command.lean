import Montage.Graph.Basic
import Montage.Settings.Basic

/-!
# Commands

A command is one call of the rendering program: its inputs, the text of a filter graph, the streams
of the graph that are kept, and the output.
-/

set_option autoImplicit false
set_option relaxedAutoImplicit false

namespace Montage

/-- A call of the rendering program. -/
structure Command where
  /-- The program. -/
  program : String
  /-- The input files, in the order of their numbers. -/
  inputs : List Path
  /-- The text of the filter graph. -/
  filterText : String
  /-- The labels of the streams that are kept. -/
  maps : List String
  /-- Further arguments. -/
  qualityFlags : List String
  /-- The output file. -/
  output : Path
  /-- Whether the output may be replaced. -/
  overwrite : Bool
deriving DecidableEq, Repr

namespace Command

/-- The arguments of the call. -/
def arguments (command : Command) : List String :=
  (if command.overwrite then ["-y"] else []) ++
    command.inputs.flatMap (fun input ↦ ["-i", input.text]) ++
    ["-filter_complex", command.filterText] ++
    command.maps.flatMap (fun label ↦ ["-map", label]) ++
    command.qualityFlags ++ [command.output.text]

/-- The program and the arguments. -/
def words (command : Command) : List String := command.program :: command.arguments

end Command

end Montage
