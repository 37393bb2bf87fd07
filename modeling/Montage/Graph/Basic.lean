import Montage.Graph.Filter
import Montage.Path

/-!
# Filter graphs

A filter graph describes how streams of inputs are turned into the streams of one output. Its nodes
are numbered in the order in which they were added. A leaf is a stream of an input; a chain takes
the streams of its children through filters.
-/

set_option autoImplicit false
set_option relaxedAutoImplicit false

namespace Montage.Graph

/-- A node of a filter graph. -/
inductive Node where
  /-- A stream of the input at this place in the list of inputs. -/
  | leaf (index : Nat) (path : Path) (kind : StreamKind)
  /-- A chain of filters over the streams of the children, with a number of streams as its result. A
  chain that ends in a file has a target. -/
  | chain (children : List Nat) (filters : List Filter) (outputs : Nat) (target : Option Path)
deriving DecidableEq, Repr

/-- Whether a node is a chain. -/
def Node.isChain : Node → Bool
  | chain .. => true
  | leaf .. => false

end Montage.Graph

namespace Montage

open Montage.Graph

/-- A filter graph. -/
structure Graph where
  /-- The nodes; the number of a node is its place. -/
  nodes : Array Node := #[]
  /-- The number of the node whose streams are the result. -/
  root : Option Nat := none
deriving DecidableEq, Repr

namespace Graph

/-- The graph with one more node. -/
def push (graph : Graph) (node : Node) : Graph := { graph with nodes := graph.nodes.push node }

/-- The number that the next node will get. -/
def nextId (graph : Graph) : Nat := graph.nodes.size

/-- The leaves in the order of their numbers, each as its index and kind. -/
def sources (graph : Graph) : List (Nat × StreamKind) :=
  graph.nodes.toList.filterMap fun
    | .leaf index _ kind => some (index, kind)
    | .chain .. => none

end Graph

end Montage
