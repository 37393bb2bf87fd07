import Montage.Graph.Command

/-!
# Filter graphs as text

A filter graph is written down by walking it from its root, children first. Every chain is written
as the labels of the streams it takes, its filters and fresh labels for the streams it makes, and is
set off from the next by a semicolon; a leaf is written as the label of its stream alone. Labels are
numbered in the order in which they are written, so no two of them are the same. On the way the
inputs are collected: the first leaf of an index decides which file has that number.

Scope. A graph is meant to have no cycle. The walk goes as deep as the graph has nodes, so on a
graph with a cycle it ends with a defect. It does so too where an index or a number of streams asks
for a table that fits into no memory. A table with a row for every node of the graph always fits,
because the graph itself does.
-/

set_option autoImplicit false
set_option relaxedAutoImplicit false

namespace Montage.Graph

/-- The label with a number. -/
def label (number : Nat) : String := "[z" ++ toString number ++ "]"

/-- What a walk through a graph has written. -/
structure Written where
  /-- The text so far. -/
  text : String := ""
  /-- The number of the next label. -/
  nextLabel : Nat := 1
  /-- The first file of every index. -/
  inputs : List (Nat × Path) := []

namespace Written

/-- Adds to the text. -/
def append (written : Written) (text : String) : Written :=
  { written with text := written.text ++ text }

/-- Notes the file of an index, unless the index has one. -/
def addInput (written : Written) (index : Nat) (path : Path) : Written :=
  if (written.inputs.lookup index).isSome then written
  else { written with inputs := written.inputs ++ [(index, path)] }

/-- Writes fresh labels. -/
def addLabels (written : Written) (count : Nat) : List String × Written :=
  let labels := (List.range' written.nextLabel count).map label
  (labels,
    { written with
      text := written.text ++ "".intercalate labels
      nextLabel := written.nextLabel + count })

end Written

/-- The most rows that a table of inputs or of labels can have. -/
def maxRows : Nat := (Nat.pow 2 63 - 1) / 24

/-- Whether there can be a table with this many rows beside a graph. -/
def checkRows (graph : Graph) (rows : Nat) : Except Failure Unit :=
  if max maxRows graph.nodes.size < rows then .error (.defect (.tableTooLong rows)) else .ok ()

/-- The label of a stream of an input. -/
def leafLabel (index : Nat) (kind : StreamKind) : String :=
  "[" ++ toString index ++ ":" ++ kind.tag ++ "]"

/-- Writes a node and everything below it, at most `depth` nodes deep, and returns the labels of its
streams. -/
def write (graph : Graph) : (depth : Nat) → Nat → Written → Except Failure (List String × Written)
  | 0, _, _ => .error (.defect .cyclicGraph)
  | depth + 1, id, written =>
    match graph.nodes[id]? with
    | none => .error (.defect (.danglingNode id))
    | some (.leaf index path kind) => do
      checkRows graph (index + 1)
      return ([leafLabel index kind], written.addInput index path)
    | some (.chain children filters outputs _) => do
      let (labels, written) ← children.foldlM
        (fun (labels, written) child ↦ do
          let (more, written) ← write graph depth child written
          let isChain := graph.nodes[child]?.any Node.isChain
          return (labels ++ more, if isChain then written.append ";" else written))
        ([], written)
      checkRows graph outputs
      let chain := "".intercalate labels ++ ",".intercalate (filters.map Filter.toText)
      return (written.append chain).addLabels outputs

/-- The files of a number of indices from the given one on. -/
def inputsFrom (found : List (Nat × Path)) (index : Nat) : Nat → Except Failure (List Path)
  | 0 => .ok []
  | count + 1 =>
    match found.lookup index with
    | none => .error (.missingInput index)
    | some path => do
      let rest ← inputsFrom found (index + 1) count
      return path :: rest

/-- The files of all indices up to the greatest one. -/
def inputTable (found : List (Nat × Path)) : Except Failure (List Path) :=
  inputsFrom found 0 (found.foldl (fun count (index, _) ↦ max count (index + 1)) 0)

/-- The command that renders a graph. -/
def toCommand (graph : Graph) (settings : Settings) : Except Failure Command :=
  match graph.root with
  | none => .error .emptyGraph
  | some root => do
    let (maps, written) ← write graph (graph.nodes.size + 1) root {}
    match graph.nodes[root]? with
    | some (.chain _ _ _ (some output)) =>
      let inputs ← inputTable written.inputs
      return {
        program := settings.program
        inputs
        filterText := written.text
        maps
        qualityFlags := settings.qualityFlags
        output
        overwrite := settings.overwriteExisting }
    | _ => .error .missingOutputPath

end Montage.Graph
