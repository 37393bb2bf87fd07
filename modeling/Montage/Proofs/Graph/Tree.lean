import Mathlib.Data.Finset.Card
import Montage.Proofs.Graph.Visits

/-!
# The tree of an output

The filter graph of an output is a tree (`IsTree`): its root is the node that was added last, every
child was added before its parent, and every other node is the child of exactly one node. The
children of the root are the legs of the blocks, in order, and each leg has one leaf below it
(`BuiltFrom`).

The leaves number the inputs in the order in which the blocks first use them (`Numbering`): equal
inputs have equal numbers, different ones have different numbers, and no number is left out.

An output has no graph if it has no blocks or if a block names an input that is not registered
(`Refusal`). `ofOutput_builds_tree` puts this together.
-/

set_option autoImplicit false
set_option relaxedAutoImplicit false

namespace Montage.Graph

open Media Registry

/-! ### Numbers in the order of first use -/

/-- The numbers that stand at the places of some keys: each key has one number, and keys get the
numbers from zero on, without gap, as they are used for the first time. -/
structure Numbering (keys : List Key) (numbers : List Nat) : Prop where
  /-- Every key has a number. -/
  length_eq : numbers.length = keys.length
  /-- Two numbers are the same exactly if their keys are. -/
  eq_iff : ∀ (j k : Nat), j < keys.length → k < keys.length →
    (numbers[j]? = numbers[k]? ↔ keys[j]? = keys[k]?)
  /-- The numbers are those below the number of different keys. -/
  mem_iff : ∀ number, number ∈ numbers ↔ number < keys.toFinset.card
  /-- A key that is used for the first time has a greater number than all keys before it. -/
  increasing : ∀ (k : Nat) (key : Key), keys[k]? = some key → key ∉ keys.take k →
    ∀ number, numbers[k]? = some number → ∀ earlier ∈ numbers.take k, earlier < number

section Numbers

variable {keys more : List Key} {key : Key}

theorem nodup_eraseDups (keys : List Key) : keys.eraseDups.Nodup := by
  induction keys using List.reverseRecOn with
  | nil => exact List.nodup_nil
  | append_singleton keys key ih =>
    rw [eraseDups_append_singleton]
    split_ifs with hmem
    · exact ih
    · refine List.nodup_append.mpr ⟨ih, List.nodup_singleton _, fun a ha b hb hab ↦ hmem ?_⟩
      rw [← List.mem_singleton.mp hb, ← hab]
      exact List.mem_eraseDups.mp ha

theorem length_eraseDups (keys : List Key) : keys.eraseDups.length = keys.toFinset.card := by
  have hsame : keys.eraseDups.toFinset = keys.toFinset := by
    ext key
    simp
  rw [← hsame, List.toFinset_card_of_nodup (nodup_eraseDups keys)]

/-- The number of a key is settled by its first use. -/
theorem idxOf_eraseDups_append (h : key ∈ keys) (more : List Key) :
    (keys ++ more).eraseDups.idxOf key = keys.eraseDups.idxOf key := by
  rw [List.eraseDups_append, List.idxOf_append_of_mem (List.mem_eraseDups.mpr h)]

/-- A key that was not used before gets the next number. -/
theorem idxOf_eraseDups_of_notMem (h : key ∉ keys) (more : List Key) :
    (keys ++ key :: more).eraseDups.idxOf key = keys.eraseDups.length := by
  have hnew : key ∉ keys.eraseDups := List.mem_eraseDups.not.mpr h
  rw [List.append_cons, idxOf_eraseDups_append (List.mem_append_right _ (by simp)),
    eraseDups_append_singleton, if_neg h, List.idxOf_append_of_notMem hnew, List.idxOf_cons_self,
    Nat.add_zero]

/-- Places among the first uses are numbers in their order. -/
theorem numbering_idxOf (keys : List Key) :
    Numbering keys (keys.map fun key ↦ keys.eraseDups.idxOf key) where
  length_eq := List.length_map _
  eq_iff j k hj hk := by
    have hmem : keys[j] ∈ keys.eraseDups := List.mem_eraseDups.mpr (List.getElem_mem hj)
    simp only [List.getElem?_map, List.getElem?_eq_getElem hj, List.getElem?_eq_getElem hk,
      Option.map_some, Option.some.injEq, List.idxOf_inj hmem]
  mem_iff number := by
    rw [← length_eraseDups, List.mem_map]
    constructor
    · rintro ⟨key, hkey, rfl⟩
      exact List.idxOf_lt_length_of_mem (List.mem_eraseDups.mpr hkey)
    · intro hnumber
      exact ⟨keys.eraseDups[number], List.mem_eraseDups.mp (List.getElem_mem hnumber),
        (nodup_eraseDups keys).idxOf_getElem number hnumber⟩
  increasing k key hkey hnew number hnumber earlier hearlier := by
    obtain ⟨hk, rfl⟩ := List.getElem?_eq_some_iff.mp hkey
    rw [List.getElem?_map, hkey, Option.map_some, Option.some.injEq] at hnumber
    rw [← List.map_take] at hearlier
    obtain ⟨other, hother, rfl⟩ := List.mem_map.mp hearlier
    have hsplit : keys.take k ++ keys[k] :: keys.drop (k + 1) = keys := by
      rw [← List.drop_eq_getElem_cons hk, List.take_append_drop]
    have hlast := idxOf_eraseDups_of_notMem hnew (keys.drop (k + 1))
    have hfirst := idxOf_eraseDups_append hother (keys[k] :: keys.drop (k + 1))
    rw [hsplit] at hlast hfirst
    rw [← hnumber, hlast, hfirst]
    exact List.idxOf_lt_length_of_mem (List.mem_eraseDups.mpr hother)

end Numbers

/-! ### Trees -/

/-- The root is the node that was added last, children were added before their parents, and every
other node is the child of exactly one node, once. -/
structure IsTree (graph : Graph) : Prop where
  root_eq : ∃ last, graph.root = some last ∧ graph.nodes.size = last + 1
  child_lt : ∀ id, ∀ child ∈ childrenOf graph id, child < id
  existsUnique_parent : ∀ child, child + 1 < graph.nodes.size →
    ∃! parent, child ∈ childrenOf graph parent
  nodup_children : ∀ id, (childrenOf graph id).Nodup

/-- A node takes a stream of a file through filters: it is a chain whose only child is a leaf. -/
def IsLeg (graph : Graph) (id number : Nat) (path : Path) (kind : StreamKind)
    (filters : List Filter) : Prop :=
  ∃ leaf, graph.nodes[id]? = some (.chain [leaf] filters 1 none) ∧
    graph.nodes[leaf]? = some (.leaf number path kind)

/-- The graph has been built from the blocks of an output, whose inputs have the given numbers. -/
structure BuiltFrom (inputs : Registry Input) (interpolate : Bool) (output : Output)
    (numbers : List Nat) (graph : Graph) : Prop where
  /-- A block takes four nodes, and the root is one more. -/
  size_eq : graph.nodes.size = 4 * output.blocks.length + 1
  /-- The root concatenates two legs for each block, into the file of the output. -/
  root : ∃ legs, graph.nodes[4 * output.blocks.length]? =
      some (.chain legs [concatFilter output.blocks.length] 2 (some output.path)) ∧
    legs.length = 2 * output.blocks.length ∧
    ∀ (k : Nat) (block : Block) (number : Nat), output.blocks[k]? = some block →
      numbers[k]? = some number → ∃ video audio input,
        legs[2 * k]? = some video ∧ legs[2 * k + 1]? = some audio ∧
        inputs.get? block.input = some input ∧
        IsLeg graph video number input.path .video (legFilters interpolate block .video) ∧
        IsLeg graph audio number input.path .audio (legFilters interpolate block .audio)
  /-- There are no leaves but those of the blocks. -/
  leaf : ∀ (id number : Nat) (path : Path) (kind : StreamKind),
    graph.nodes[id]? = some (.leaf number path kind) → ∃ (k : Nat) (block : Block) (input : Input),
      output.blocks[k]? = some block ∧ numbers[k]? = some number ∧
        inputs.get? block.input = some input ∧ path = input.path

variable {inputs : Registry Input} {interpolate : Bool} {output : Output} {graph : Graph}
  {order : List Key} {blocks : List Block} {block : Block}

/-- The legs of a block follow each other. -/
theorem legsOf_getElem? (inputs : Registry Input) (interpolate : Bool) (order : List Key) {k : Nat}
    (h : blocks[k]? = some block) :
    (legsOf inputs interpolate order blocks)[2 * k]? =
        some (.ofBlock inputs interpolate order block .video) ∧
      (legsOf inputs interpolate order blocks)[2 * k + 1]? =
        some (.ofBlock inputs interpolate order block .audio) := by
  induction blocks generalizing k with
  | nil => cases h
  | cons first blocks ih =>
    rw [legsOf, List.flatMap_cons, ← legsOf]
    cases k with
    | zero =>
      obtain rfl := Option.some.inj h
      exact ⟨rfl, rfl⟩
    | succ k => exact ih h

theorem mem_chainIds {count id : Nat} : id ∈ chainIds count ↔ id < 2 * count ∧ id % 2 = 1 := by
  rw [chainIds, List.mem_map]
  constructor
  · rintro ⟨k, hk, rfl⟩
    rw [List.mem_range] at hk
    omega
  · rintro ⟨hlt, hodd⟩
    exact ⟨id / 2, List.mem_range.mpr (by omega), by omega⟩

theorem nodup_chainIds (count : Nat) : (chainIds count).Nodup :=
  List.nodup_range.map fun j k hjk ↦ by omega

section Children

variable (h : Lowered inputs interpolate output graph)

include h

/-- A leaf has no children, a leg has the leaf before it, the root has all legs, and there is
nothing behind the root. -/
theorem Lowered.childrenOf_eq (id : Nat) :
    childrenOf graph id =
      if id < 4 * output.blocks.length then if id % 2 = 0 then [] else [id - 1]
      else if id = 4 * output.blocks.length then chainIds (2 * output.blocks.length)
      else [] := by
  rcases Nat.lt_trichotomy id (4 * output.blocks.length) with hlt | rfl | hgt
  · have hplace : id / 2 < (legsOf inputs interpolate (inputOrder output.blocks)
        output.blocks).length := by
      rw [length_legsOf]
      omega
    have hleg := List.getElem?_eq_getElem hplace
    rw [if_pos hlt]
    rcases Nat.mod_two_eq_zero_or_one id with heven | hodd
    · have hleaf := h.hasLegs.leaf _ _ hleg
      rw [show 2 * (id / 2) = id by omega] at hleaf
      rw [if_pos heven, childrenOf, hleaf]
    · have hchain := h.hasLegs.chain _ _ hleg
      rw [show 2 * (id / 2) = id - 1 by omega, show id - 1 + 1 = id by omega] at hchain
      rw [if_neg (by omega), childrenOf, hchain]
  · rw [if_neg (Nat.lt_irrefl _), if_pos rfl, childrenOf, h.root_node]
  · rw [if_neg (by omega), if_neg (by omega), childrenOf,
      Array.getElem?_eq_none (by rw [h.size_eq]; omega)]

/-- One node is a child of another in two ways: as the leaf of a leg or as a leg of the root. -/
theorem Lowered.mem_childrenOf_iff {id child : Nat} :
    child ∈ childrenOf graph id ↔
      (id < 4 * output.blocks.length ∧ id % 2 = 1 ∧ id = child + 1) ∨
        id = 4 * output.blocks.length ∧ child < 4 * output.blocks.length ∧ child % 2 = 1 := by
  rw [h.childrenOf_eq]
  split_ifs
  · simp only [List.not_mem_nil, false_iff]
    omega
  · rw [List.mem_singleton]
    omega
  · rw [mem_chainIds]
    omega
  · simp only [List.not_mem_nil, false_iff]
    omega

/-- The graph of an output is a tree. -/
theorem Lowered.isTree : IsTree graph where
  root_eq := ⟨_, h.root_eq, h.size_eq⟩
  child_lt id child hchild := by
    rw [h.mem_childrenOf_iff] at hchild
    omega
  existsUnique_parent child hchild := by
    rw [h.size_eq] at hchild
    simp only [h.mem_childrenOf_iff]
    -- Leaves have even numbers and legs odd ones.
    rcases Nat.mod_two_eq_zero_or_one child with heven | hodd
    · exact ⟨child + 1, by omega, fun parent hparent ↦ by omega⟩
    · exact ⟨4 * output.blocks.length, by omega, fun parent hparent ↦ by omega⟩
  nodup_children id := by
    rw [h.childrenOf_eq]
    split_ifs
    · exact List.nodup_nil
    · exact List.nodup_singleton _
    · exact nodup_chainIds _
    · exact List.nodup_nil

/-- The legs of a block are a node of the root for the picture and the next one for the sound. -/
theorem Lowered.isLeg {k : Nat} {input : Input} (hblock : output.blocks[k]? = some block)
    (hinput : inputs.get? block.input = some input) :
    IsLeg graph (2 * (2 * k) + 1) ((inputOrder output.blocks).idxOf block.input) input.path .video
        (legFilters interpolate block .video) ∧
      IsLeg graph (2 * (2 * k + 1) + 1) ((inputOrder output.blocks).idxOf block.input) input.path
        .audio (legFilters interpolate block .audio) := by
  obtain ⟨hvideo, haudio⟩ := legsOf_getElem? inputs interpolate (inputOrder output.blocks) hblock
  have hpath : pathOf inputs block.input = input.path := by
    rw [pathOf, hinput]
    rfl
  rw [← hpath]
  exact ⟨⟨_, h.hasLegs.chain _ _ hvideo, h.hasLegs.leaf _ _ hvideo⟩,
    ⟨_, h.hasLegs.chain _ _ haudio, h.hasLegs.leaf _ _ haudio⟩⟩

/-- A leaf is the leaf of a leg of a block. -/
theorem Lowered.exists_block_of_leaf {id number : Nat} {path : Path} {kind : StreamKind}
    (hnode : graph.nodes[id]? = some (.leaf number path kind)) :
    ∃ (k : Nat) (block : Block), output.blocks[k]? = some block ∧
      number = (inputOrder output.blocks).idxOf block.input ∧
        path = pathOf inputs block.input := by
  have hlt : id < 4 * output.blocks.length := by
    have hle := (Array.getElem?_eq_some_iff.mp hnode).1
    rw [h.size_eq] at hle
    refine Nat.lt_of_le_of_ne (Nat.le_of_lt_succ hle) ?_
    rintro rfl
    rw [h.root_node] at hnode
    cases hnode
  have heven : id % 2 = 0 := by
    have hchildren := h.childrenOf_eq id
    rw [childrenOf, hnode, if_pos hlt] at hchildren
    by_contra hodd
    rw [if_neg hodd] at hchildren
    cases hchildren
  have hblock := List.getElem?_eq_getElem (by omega : id / 4 < output.blocks.length)
  refine ⟨id / 4, _, hblock, ?_⟩
  obtain ⟨hvideo, haudio⟩ := legsOf_getElem? inputs interpolate (inputOrder output.blocks) hblock
  rcases Nat.mod_two_eq_zero_or_one (id / 2) with hfirst | hsecond
  · have hleaf := h.hasLegs.leaf _ _ hvideo
    rw [show 2 * (2 * (id / 4)) = id by omega, hnode] at hleaf
    cases hleaf
    exact ⟨rfl, rfl⟩
  · have hleaf := h.hasLegs.leaf _ _ haudio
    rw [show 2 * (2 * (id / 4) + 1) = id by omega, hnode] at hleaf
    cases hleaf
    exact ⟨rfl, rfl⟩

/-- The graph of an output is built from its blocks. -/
theorem Lowered.builtFrom (hinputs : ∀ block ∈ output.blocks, inputs.contains block.input) :
    BuiltFrom inputs interpolate output
      (output.blocks.map fun block ↦ (inputOrder output.blocks).idxOf block.input) graph where
  size_eq := h.size_eq
  root := by
    refine ⟨_, h.root_node, by simp [chainIds], fun k block number hblock hnumber ↦ ?_⟩
    obtain ⟨input, hinput⟩ := exists_get?_of_contains (hinputs block (List.mem_of_getElem? hblock))
    rw [List.getElem?_map, hblock, Option.map_some, Option.some.injEq] at hnumber
    have hlt := (List.getElem?_eq_some_iff.mp hblock).1
    have hplace {j : Nat} (hj : j < 2 * output.blocks.length) :
        (chainIds (2 * output.blocks.length))[j]? = some (2 * j + 1) := by
      rw [chainIds, List.getElem?_map, List.getElem?_range hj, Option.map_some]
    obtain ⟨hvideo, haudio⟩ := h.isLeg hblock hinput
    rw [hnumber] at hvideo haudio
    exact ⟨_, _, input, hplace (by omega), hplace (by omega), hinput, hvideo, haudio⟩
  leaf id number path kind hnode := by
    obtain ⟨k, block, hblock, rfl, rfl⟩ := h.exists_block_of_leaf hnode
    obtain ⟨input, hinput⟩ := exists_get?_of_contains (hinputs block (List.mem_of_getElem? hblock))
    refine ⟨k, block, input, hblock, by rw [List.getElem?_map, hblock, Option.map_some], hinput, ?_⟩
    rw [pathOf, hinput, Option.map_some, Option.getD_some]

end Children

/-! ### The graph of an output -/

/-- Why an output has no graph: it has no blocks, or the first block whose input is not registered
names this input. -/
inductive Refusal (inputs : Registry Input) (output : Output) : Failure → Prop
  /-- There are no blocks. -/
  | noBlocks : output.blocks = [] → Refusal inputs output (.invalidBlock (.noBlocks output.path))
  /-- The input of a block is not registered, and those of all earlier blocks are. -/
  | unknown {before after : List Block} {block : Block} :
      output.blocks = before ++ block :: after →
      (∀ earlier ∈ before, inputs.contains earlier.input) → inputs.contains block.input = false →
      Refusal inputs output (.unknownInput block.input.text)

/-- The first block whose input is not registered ends the lowering. -/
theorem Refusal.ofOutput_eq {failure : Failure} (h : Refusal inputs output failure)
    (interpolate : Bool) : ofOutput inputs interpolate output = .error failure := by
  cases h with
  | noBlocks hblocks => exact if_pos hblocks
  | @unknown before after block hblocks hbefore hunknown =>
    have hne : output.blocks ≠ [] := by
      rw [hblocks]
      exact List.append_ne_nil_of_right_ne_nil _ (List.cons_ne_nil _ _)
    obtain ⟨draft, hdraft, -⟩ := foldlM_addBlock interpolate before hbefore
    have hstep : draft.addBlock inputs interpolate block =
        .error (.unknownInput block.input.text) := by
      rw [← isSome_get?, Option.isSome_eq_false_iff, Option.isNone_iff_eq_none] at hunknown
      rw [Draft.addBlock, hunknown]
    rw [ofOutput, if_neg hne, hblocks, List.foldlM_append, hdraft, Failure.ok_bind,
      List.foldlM_cons, hstep, Failure.error_bind, Failure.error_bind]

/-- An output has blocks, all with registered inputs, or there is a reason why it has no graph. -/
theorem registered_or_refusal (inputs : Registry Input) (output : Output) :
    (output.blocks ≠ [] ∧ ∀ block ∈ output.blocks, inputs.contains block.input) ∨
      ∃ failure, Refusal inputs output failure := by
  by_cases hblocks : output.blocks = []
  · exact Or.inr ⟨_, .noBlocks hblocks⟩
  · cases hfound : output.blocks.find? fun block ↦ !inputs.contains block.input with
    | none =>
      refine Or.inl ⟨hblocks, fun block hblock ↦ ?_⟩
      simpa using List.find?_eq_none.mp hfound block hblock
    | some block =>
      obtain ⟨hunknown, before, after, hsplit, hbefore⟩ := List.find?_eq_some_iff_append.mp hfound
      exact Or.inr ⟨_, .unknown hsplit (by simpa using hbefore) (by simpa using hunknown)⟩

/-- An output has no graph exactly if it has no blocks or a block names an input that is not
registered, and the first such block is named. Otherwise its graph is a tree of four nodes for each
block and the root, built from the blocks in order, and the leaves number the inputs in the order of
their first use. -/
theorem ofOutput_builds_tree (inputs : Registry Input) (interpolate : Bool) (output : Output) :
    (∀ failure, ofOutput inputs interpolate output = .error failure ↔
        Refusal inputs output failure) ∧
      ((output.blocks ≠ [] ∧ ∀ block ∈ output.blocks, inputs.contains block.input) →
        ∃ graph numbers, ofOutput inputs interpolate output = .ok graph ∧ IsTree graph ∧
          BuiltFrom inputs interpolate output numbers graph ∧
          Numbering (output.blocks.map Block.input) numbers) := by
  have hbuilt (houtput : output.blocks ≠ [] ∧
      ∀ block ∈ output.blocks, inputs.contains block.input) :
      ∃ graph numbers, ofOutput inputs interpolate output = .ok graph ∧ IsTree graph ∧
        BuiltFrom inputs interpolate output numbers graph ∧
        Numbering (output.blocks.map Block.input) numbers := by
    obtain ⟨graph, hgraph, hlowered⟩ := ofOutput_eq_ok houtput.1 houtput.2 interpolate
    refine ⟨graph, _, hgraph, hlowered.isTree, hlowered.builtFrom houtput.2, ?_⟩
    have hnumbering := numbering_idxOf (output.blocks.map Block.input)
    rwa [List.map_map] at hnumbering
  refine ⟨fun failure ↦ ⟨fun hfails ↦ ?_, fun h ↦ h.ofOutput_eq interpolate⟩, hbuilt⟩
  rcases registered_or_refusal inputs output with houtput | ⟨other, hrefusal⟩
  · obtain ⟨graph, -, hgraph, -⟩ := hbuilt houtput
    rw [hgraph] at hfails
    cases hfails
  · rw [hrefusal.ofOutput_eq interpolate] at hfails
    cases hfails
    exact hrefusal

end Montage.Graph
