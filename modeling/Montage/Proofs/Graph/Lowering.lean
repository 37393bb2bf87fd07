import Mathlib.Data.List.Basic
import Mathlib.Data.List.Induction
import Montage.Graph.OfOutput
import Montage.Proofs.Registry.Lookup

/-!
# The legs of a lowered output

The filter graph of an output is a row of legs and a root. A leg is a stream of an input and the
filters that it is taken through (`Leg`), and it takes two nodes that follow each other: a leaf and
the chain above it (`HasLegs`). Every block has one leg for its picture and one for its sound
(`legsOf`), numbered with the place of its input in the order of first use (`inputOrder`).

`foldlM_addBlock` says that the graph in the making holds exactly the legs of the blocks so far, and
`ofOutput_eq_ok` that the finished graph holds the legs of all blocks and after them the root, which
takes the streams of all chains.

Scope. The statements are about blocks whose inputs are registered.
-/

set_option autoImplicit false
set_option relaxedAutoImplicit false

namespace Montage.Graph

open Media Registry

/-! ### The order of first use -/

/-- The inputs of blocks in the order of their first use. -/
def inputOrder (blocks : List Block) : List Key := (blocks.map Block.input).eraseDups

variable {blocks : List Block} {block : Block} {key : Key}

theorem mem_inputOrder : key ∈ inputOrder blocks ↔ ∃ block ∈ blocks, block.input = key := by
  rw [inputOrder, List.mem_eraseDups, List.mem_map]

theorem eraseDups_append_singleton {α : Type} [BEq α] [LawfulBEq α] (items : List α) (a : α) :
    (items ++ [a]).eraseDups =
      if a ∈ items then items.eraseDups else items.eraseDups ++ [a] := by
  rw [List.eraseDups_append]
  by_cases h : a ∈ items
  · simp [List.removeAll, h]
  · simp [List.removeAll, h, List.eraseDups_cons]

/-- A further block adds its input, unless an earlier block uses it. -/
theorem inputOrder_append_singleton (blocks : List Block) (block : Block) :
    inputOrder (blocks ++ [block]) =
      if block.input ∈ inputOrder blocks then inputOrder blocks
      else inputOrder blocks ++ [block.input] := by
  simp only [inputOrder, List.map_append, List.map_singleton, eraseDups_append_singleton,
    List.mem_eraseDups]

theorem length_inputOrder_le (blocks : List Block) :
    (inputOrder blocks).length ≤ blocks.length := by
  induction blocks using List.reverseRecOn with
  | nil => exact Nat.le_refl 0
  | append_singleton blocks block ih =>
    rw [inputOrder_append_singleton, List.length_append, List.length_singleton]
    split_ifs
    · omega
    · rw [List.length_append, List.length_singleton]
      omega

/-- The place of an input is settled by its first use. -/
theorem idxOf_inputOrder_append (h : key ∈ inputOrder blocks ∨ key = block.input) :
    (inputOrder (blocks ++ [block])).idxOf key = (inputOrder blocks).idxOf key := by
  rw [inputOrder_append_singleton]
  split_ifs with hmem
  · rfl
  · by_cases hkey : key ∈ inputOrder blocks
    · exact List.idxOf_append_of_mem hkey
    · obtain rfl := h.resolve_left hkey
      rw [List.idxOf_append_of_notMem hkey, List.idxOf_cons_self, Nat.add_zero,
        List.idxOf_eq_length hkey]

/-! ### Legs -/

/-- A stream of an input, and the filters that it is taken through. -/
structure Leg where
  /-- The place of the input. -/
  index : Nat
  /-- The file of the input. -/
  path : Path
  /-- The kind of the stream. -/
  kind : StreamKind
  /-- The filters. -/
  filters : List Filter

/-- The file that is registered under a key. -/
def pathOf (inputs : Registry Input) (key : Key) : Path :=
  ((inputs.get? key).map Input.path).getD ⟨""⟩

/-- The leg of a block for a kind of stream, when inputs are numbered in the given order. -/
def Leg.ofBlock (inputs : Registry Input) (interpolate : Bool) (order : List Key) (block : Block)
    (kind : StreamKind) : Leg where
  index := order.idxOf block.input
  path := pathOf inputs block.input
  kind := kind
  filters := legFilters interpolate block kind

/-- The legs of blocks: for each block the picture and then the sound. -/
def legsOf (inputs : Registry Input) (interpolate : Bool) (order : List Key) (blocks : List Block) :
    List Leg :=
  blocks.flatMap fun block ↦ [.ofBlock inputs interpolate order block .video,
    .ofBlock inputs interpolate order block .audio]

/-- Nodes that begin with legs: the leg of number `k` is the leaf of number `2 * k` and the chain
above it. -/
structure HasLegs (nodes : Array Node) (legs : List Leg) : Prop where
  leaf : ∀ k leg, legs[k]? = some leg →
    nodes[2 * k]? = some (.leaf leg.index leg.path leg.kind)
  chain : ∀ k leg, legs[k]? = some leg →
    nodes[2 * k + 1]? = some (.chain [2 * k] leg.filters 1 none)

/-- The numbers of the chains of some legs. -/
def chainIds (count : Nat) : List Nat := (List.range count).map fun k ↦ 2 * k + 1

variable {inputs : Registry Input} {interpolate : Bool} {order : List Key}

theorem length_legsOf (inputs : Registry Input) (interpolate : Bool) (order : List Key)
    (blocks : List Block) :
    (legsOf inputs interpolate order blocks).length = 2 * blocks.length := by
  induction blocks with
  | nil => rfl
  | cons block blocks ih =>
    rw [legsOf, List.flatMap_cons, List.length_append, ← legsOf, ih, List.length_cons]
    simp only [List.length_cons, List.length_nil]
    omega

theorem legsOf_append (inputs : Registry Input) (interpolate : Bool) (order : List Key)
    (blocks more : List Block) :
    legsOf inputs interpolate order (blocks ++ more) =
      legsOf inputs interpolate order blocks ++ legsOf inputs interpolate order more :=
  List.flatMap_append

/-- Only the places of the inputs that are used matter for the legs. -/
theorem legsOf_congr {other : List Key}
    (h : ∀ block ∈ blocks, order.idxOf block.input = other.idxOf block.input) :
    legsOf inputs interpolate order blocks = legsOf inputs interpolate other blocks :=
  List.flatMap_congr fun block hblock ↦ by simp only [Leg.ofBlock, h block hblock]

/-- Inputs keep their places when a block is added, and so do the legs of the blocks before it. -/
theorem legsOf_inputOrder_append (inputs : Registry Input) (interpolate : Bool)
    (blocks : List Block) (block : Block) :
    legsOf inputs interpolate (inputOrder (blocks ++ [block])) (blocks ++ [block]) =
      legsOf inputs interpolate (inputOrder blocks) blocks ++
        [.ofBlock inputs interpolate (inputOrder blocks) block .video,
          .ofBlock inputs interpolate (inputOrder blocks) block .audio] := by
  rw [legsOf_append]
  congr 1
  · refine legsOf_congr fun earlier hearlier ↦ idxOf_inputOrder_append (Or.inl ?_)
    exact mem_inputOrder.mpr ⟨earlier, hearlier, rfl⟩
  · rw [legsOf, List.flatMap_singleton]
    simp only [Leg.ofBlock, idxOf_inputOrder_append (Or.inr rfl)]

theorem getElem?_push_of_eq_some {nodes : Array Node} {k : Nat} {node : Node}
    (h : nodes[k]? = some node) (next : Node) : (nodes.push next)[k]? = some node := by
  obtain ⟨hk, -⟩ := Array.getElem?_eq_some_iff.mp h
  rwa [Array.getElem?_push, if_neg (by omega)]

/-- Legs stay where they are when a node is added. -/
theorem HasLegs.push {nodes : Array Node} {legs : List Leg} (h : HasLegs nodes legs)
    (next : Node) : HasLegs (nodes.push next) legs :=
  ⟨fun k leg hleg ↦ getElem?_push_of_eq_some (h.leaf k leg hleg) next,
    fun k leg hleg ↦ getElem?_push_of_eq_some (h.chain k leg hleg) next⟩

/-- Nodes that begin with legs begin with the first of them. -/
theorem HasLegs.of_append {nodes : Array Node} {legs more : List Leg}
    (h : HasLegs nodes (legs ++ more)) : HasLegs nodes legs := by
  have hearlier {k : Nat} {leg : Leg} (hleg : legs[k]? = some leg) :
      (legs ++ more)[k]? = some leg := by
    obtain ⟨hk, -⟩ := List.getElem?_eq_some_iff.mp hleg
    rwa [List.getElem?_append_left hk]
  exact ⟨fun k leg hleg ↦ h.leaf k leg (hearlier hleg),
    fun k leg hleg ↦ h.chain k leg (hearlier hleg)⟩

/-- Two more nodes hold one more leg. -/
theorem HasLegs.push_leg {nodes : Array Node} {legs : List Leg} (h : HasLegs nodes legs)
    (hsize : nodes.size = 2 * legs.length) (leg : Leg) :
    HasLegs ((nodes.push (.leaf leg.index leg.path leg.kind)).push
      (.chain [nodes.size] leg.filters 1 none)) (legs ++ [leg]) := by
  have hold := (h.push (.leaf leg.index leg.path leg.kind)).push
    (.chain [nodes.size] leg.filters 1 none)
  -- A leg is an earlier one or the new one.
  have hcases {k : Nat} {other : Leg} (hother : (legs ++ [leg])[k]? = some other) :
      legs[k]? = some other ∨ k = legs.length ∧ leg = other := by
    rw [List.getElem?_append] at hother
    split_ifs at hother with hk
    · exact Or.inl hother
    · rw [List.getElem?_singleton] at hother
      split_ifs at hother with hzero
      exact Or.inr ⟨by omega, Option.some.inj hother⟩
  refine ⟨fun k other hother ↦ ?_, fun k other hother ↦ ?_⟩
  · rcases hcases hother with hearlier | ⟨rfl, rfl⟩
    · exact hold.leaf k other hearlier
    · rw [← hsize]
      exact getElem?_push_of_eq_some Array.getElem?_push_size _
  · rcases hcases hother with hearlier | ⟨rfl, rfl⟩
    · exact hold.chain k other hearlier
    · rw [Array.getElem?_push, if_pos (by rw [Array.size_push, hsize]), hsize]

/-! ### Drafts -/

/-- A graph in the making that holds the legs of blocks and nothing else. -/
structure Draft.Holds (inputs : Registry Input) (interpolate : Bool) (blocks : List Block)
    (draft : Draft) : Prop where
  keys_eq : draft.keys = inputOrder blocks
  legs_eq : draft.legs = chainIds (2 * blocks.length)
  size_eq : draft.graph.nodes.size = 2 * (2 * blocks.length)
  hasLegs : HasLegs draft.graph.nodes (legsOf inputs interpolate (inputOrder blocks) blocks)

theorem chainIds_succ (count : Nat) : chainIds (count + 1) = chainIds count ++ [2 * count + 1] := by
  rw [chainIds, List.range_succ, List.map_append, List.map_singleton, ← chainIds]

/-- A block with a registered input adds its two legs. -/
theorem Draft.Holds.addBlock {draft : Draft} (h : draft.Holds inputs interpolate blocks)
    (hinput : inputs.contains block.input) :
    ∃ next, draft.addBlock inputs interpolate block = .ok next ∧
      next.Holds inputs interpolate (blocks ++ [block]) := by
  obtain ⟨input, hinput⟩ := exists_get?_of_contains hinput
  have hpath : pathOf inputs block.input = input.path := by
    rw [pathOf, hinput]
    rfl
  have hsize := h.size_eq
  have hpicture := h.hasLegs.push_leg (by rw [hsize, length_legsOf])
    (.ofBlock inputs interpolate (inputOrder blocks) block .video)
  have hboth := hpicture.push_leg
    (by
      rw [Array.size_push, Array.size_push, hsize, List.length_append, length_legsOf,
        List.length_singleton]
      omega)
    (.ofBlock inputs interpolate (inputOrder blocks) block .audio)
  rw [List.append_assoc, List.singleton_append, ← legsOf_inputOrder_append] at hboth
  refine ⟨_, by rw [Draft.addBlock, hinput], ?_, ?_, ?_, ?_⟩
  · rw [inputOrder_append_singleton, ← h.keys_eq]
  · simp only [List.foldl_cons, List.foldl_nil, Draft.addLeg, h.legs_eq, Graph.nextId, Graph.push,
      Array.size_push, hsize]
    rw [List.length_append, List.length_singleton, Nat.mul_add, Nat.mul_one, chainIds_succ,
      chainIds_succ]
    rfl
  · simp only [List.foldl_cons, List.foldl_nil, Draft.addLeg, Graph.push, Array.size_push, hsize,
      List.length_append, List.length_singleton]
    omega
  · simp only [List.foldl_cons, List.foldl_nil, Draft.addLeg, Draft.indexOf, h.keys_eq,
      Graph.nextId, Graph.push, ← hpath]
    exact hboth

/-- The draft of blocks with registered inputs holds their legs. -/
theorem foldlM_addBlock (interpolate : Bool) (blocks : List Block)
    (hinputs : ∀ block ∈ blocks, inputs.contains block.input) :
    ∃ draft, blocks.foldlM (Draft.addBlock inputs interpolate) {} = Except.ok draft ∧
      draft.Holds inputs interpolate blocks := by
  induction blocks using List.reverseRecOn with
  | nil => exact ⟨{}, rfl, rfl, rfl, rfl, by simp [legsOf], by simp [legsOf]⟩
  | append_singleton blocks block ih =>
    obtain ⟨draft, hdraft, hholds⟩ := ih fun other hother ↦
      hinputs other (List.mem_append_left _ hother)
    obtain ⟨next, hnext, hholds⟩ := hholds.addBlock
      (hinputs block (List.mem_append_right _ (List.mem_singleton_self block)))
    refine ⟨next, ?_, hholds⟩
    rw [List.foldlM_append, hdraft, Failure.ok_bind, List.foldlM_cons, hnext, Failure.ok_bind,
      List.foldlM_nil]
    rfl

/-! ### The finished graph -/

/-- The graph of an output: the legs of its blocks, and after them the root. -/
structure Lowered (inputs : Registry Input) (interpolate : Bool) (output : Output)
    (graph : Graph) : Prop where
  size_eq : graph.nodes.size = 4 * output.blocks.length + 1
  root_eq : graph.root = some (4 * output.blocks.length)
  root_node : graph.nodes[4 * output.blocks.length]? =
    some (.chain (chainIds (2 * output.blocks.length)) [concatFilter output.blocks.length] 2
      (some output.path))
  hasLegs : HasLegs graph.nodes
    (legsOf inputs interpolate (inputOrder output.blocks) output.blocks)

/-- An output with blocks, all of them with registered inputs, has a graph. -/
theorem ofOutput_eq_ok {output : Output} (hblocks : output.blocks ≠ [])
    (hinputs : ∀ block ∈ output.blocks, inputs.contains block.input) (interpolate : Bool) :
    ∃ graph, ofOutput inputs interpolate output = .ok graph ∧
      Lowered inputs interpolate output graph := by
  obtain ⟨draft, hdraft, hholds⟩ := foldlM_addBlock interpolate _ hinputs
  have hsize : draft.graph.nodes.size = 4 * output.blocks.length := by
    rw [hholds.size_eq]
    omega
  refine ⟨_, by rw [ofOutput, if_neg hblocks, hdraft, Failure.ok_bind]; rfl, ?_, ?_, ?_, ?_⟩
  · change (draft.graph.nodes.push _).size = _
    rw [Array.size_push, hsize]
  · exact congrArg some hsize
  · rw [← hsize, ← hholds.legs_eq]
    exact Array.getElem?_push_size
  · exact hholds.hasLegs.push _

end Montage.Graph
