import Montage.Media.Catalogue
import Montage.Proofs.Registry.Lookup

/-!
# Histories of a catalogue

A catalogue comes from the empty one by operations: registering inputs and outputs and appending
blocks (`Operation`, `after`). An operation that fails leaves the catalogue as it was.

All operations come down to three: registering an input, registering an output and appending one
block. What these three keep holds of every catalogue with a history (`after_induction`). One such
property is that a catalogue is wired (`wired_after`): the blocks of its outputs name registered
inputs, because blocks are only appended for registered inputs and no input is ever removed. Another
is that no block has a fault (`fault?_eq_none_after`).
-/

set_option autoImplicit false
set_option relaxedAutoImplicit false

namespace Montage.Media.Catalogue

open Numeric Registry Timing

/-! ### Operations -/

/-- A call that may change a catalogue. -/
inductive Operation where
  /-- Registers an input. -/
  | addInput (path : Path)
  /-- Registers an output. -/
  | addOutput (path : Path)
  /-- Appends a block to an output. -/
  | addBlock (output : Key) (block : Block)
  /-- Appends intervals to an output. -/
  | addIntervals (output : Key) (intervals : List Interval) (filters : List VisualFilter)

/-- Whether an operation appends to the output of a key. -/
def Operation.AppendsTo : Operation → Key → Prop
  | .addInput _, _ | .addOutput _, _ => False
  | .addBlock output _, key | .addIntervals output _ _, key => output = key

/-- The catalogue after a call that may have failed. -/
def orUnchanged (before : Catalogue) : Except Failure Catalogue → Catalogue
  | .ok after => after
  | .error _ => before

/-- The catalogue after an operation. -/
def perform (catalogue : Catalogue) : Operation → Catalogue
  | .addInput path => (catalogue.addInput path).1
  | .addOutput path => (catalogue.addOutput path).1
  | .addBlock output block => catalogue.orUnchanged (catalogue.addBlock output block)
  | .addIntervals output intervals filters =>
    catalogue.orUnchanged (catalogue.addIntervals output intervals filters)

/-- The catalogue after operations on the empty one. -/
def after (operations : List Operation) : Catalogue := operations.foldl perform {}

/-- The output with one more block at its end. -/
def appendBlock (block : Block) (output : Output) : Output :=
  { output with blocks := output.blocks ++ [block] }

/-- When a block is appended and what then changes: its input and the output are registered, nothing
is wrong with it, and only the output's list of blocks grows. -/
theorem addBlock_eq_ok_iff {catalogue next : Catalogue} {key : Key} {block : Block} :
    catalogue.addBlock key block = .ok next ↔
      catalogue.inputs.contains block.input ∧
        Block.fault? block.start block.stop block.speed = none ∧
        catalogue.outputs.contains key ∧
        next = { catalogue with outputs := catalogue.outputs.modify key (appendBlock block) } := by
  unfold addBlock
  constructor
  · intro hnext
    split at hnext
    · cases hnext
    next hinput =>
      split at hnext
      · cases hnext
      next hfault =>
        split at hnext
        · cases hnext
        next houtput =>
          cases hnext
          exact ⟨by simpa using hinput, hfault, by simpa using houtput, rfl⟩
  · rintro ⟨hinput, hfault, houtput, rfl⟩
    simp only [hinput, hfault, houtput, Bool.true_eq_false, if_false]
    rfl

/-! ### Induction over a history -/

section Induction

variable {Holds : Catalogue → Prop}

/-- What is kept by registering an input and by appending a block to an output is kept by appending
ranges to that output. -/
theorem holds_of_addRanges {key : Key}
    (hinput : ∀ catalogue path, Holds catalogue → Holds (catalogue.addInput path).1)
    (hblock : ∀ catalogue block next, Holds catalogue →
      catalogue.addBlock key block = .ok next → Holds next)
    {filters : List VisualFilter}
    {ranges : List (Path × Binary64 × Binary64 × Binary64)} {catalogue next : Catalogue}
    (h : Holds catalogue)
    (hnext : ranges.foldlM (Catalogue.addRange key filters) catalogue = .ok next) : Holds next := by
  induction ranges generalizing catalogue with
  | nil =>
    cases hnext
    exact h
  | cons range ranges ih =>
    rw [List.foldlM_cons] at hnext
    obtain ⟨between, hbetween, hnext⟩ := Failure.bind_eq_ok.mp hnext
    exact ih (hblock _ _ _ (hinput _ range.1 h) hbetween) hnext

/-- What is kept by registering inputs and outputs and by appending a block to the output that an
operation appends to is kept by the operation. -/
theorem holds_perform {operation : Operation}
    (hinput : ∀ catalogue path, Holds catalogue → Holds (catalogue.addInput path).1)
    (houtput : ∀ catalogue path, Holds catalogue → Holds (catalogue.addOutput path).1)
    (hblock : ∀ catalogue key block next, operation.AppendsTo key → Holds catalogue →
      catalogue.addBlock key block = .ok next → Holds next)
    {catalogue : Catalogue} (h : Holds catalogue) : Holds (catalogue.perform operation) := by
  have horUnchanged {result : Except Failure Catalogue}
      (hresult : ∀ next, result = .ok next → Holds next) :
      Holds (catalogue.orUnchanged result) := by
    cases result with
    | ok next => exact hresult next rfl
    | error failure => exact h
  cases operation with
  | addInput path => exact hinput catalogue path h
  | addOutput path => exact houtput catalogue path h
  | addBlock key block => exact horUnchanged fun next hnext ↦ hblock _ _ _ _ rfl h hnext
  | addIntervals key intervals filters =>
    refine horUnchanged fun next hnext ↦ ?_
    unfold Catalogue.addIntervals at hnext
    split at hnext
    · cases hnext
    · obtain ⟨ranges, -, hranges⟩ := Failure.bind_eq_ok.mp hnext
      exact holds_of_addRanges hinput
        (fun catalogue block next ↦ hblock catalogue key block next rfl) h hranges

/-- What holds of the empty catalogue and is kept by registering inputs and outputs and by appending
blocks holds of every catalogue with a history. -/
theorem after_induction (hempty : Holds {})
    (hinput : ∀ catalogue path, Holds catalogue → Holds (catalogue.addInput path).1)
    (houtput : ∀ catalogue path, Holds catalogue → Holds (catalogue.addOutput path).1)
    (hblock : ∀ catalogue key block next, Holds catalogue →
      catalogue.addBlock key block = .ok next → Holds next)
    (operations : List Operation) : Holds (after operations) :=
  List.foldlRecOn operations _ hempty fun _ h _ _ ↦
    holds_perform hinput houtput
      (fun catalogue key block next _ ↦ hblock catalogue key block next) h

end Induction

/-! ### Blocks and inputs -/

section Blocks

variable {catalogue next : Catalogue} {key : Key} {block : Block} {Holds : Block → Prop}

/-- A new output has no blocks. -/
theorem forall_blocks_addOutput
    (h : ∀ output ∈ catalogue.outputs.values, ∀ block ∈ output.blocks, Holds block) (path : Path) :
    ∀ output ∈ (catalogue.addOutput path).1.outputs.values, ∀ block ∈ output.blocks,
      Holds block := by
  intro output houtput block hblock
  rw [Catalogue.addOutput, values_insertWith] at houtput
  rcases List.mem_append.mp houtput with hold | hnew
  · exact h output hold block hblock
  · rw [List.mem_singleton.mp hnew] at hblock
    exact absurd hblock List.not_mem_nil

/-- The only new block is the one that was appended. -/
theorem forall_blocks_addBlock
    (h : ∀ output ∈ catalogue.outputs.values, ∀ block ∈ output.blocks, Holds block)
    (hnext : catalogue.addBlock key block = .ok next) (hblock : Holds block) :
    ∀ output ∈ next.outputs.values, ∀ block ∈ output.blocks, Holds block := by
  obtain ⟨-, -, -, rfl⟩ := addBlock_eq_ok_iff.mp hnext
  intro output houtput other hother
  rcases mem_values_of_mem_values_modify houtput with hold | ⟨old, hold, rfl⟩
  · exact h output hold other hother
  · rcases List.mem_append.mp hother with hearlier | hlast
    · exact h old hold other hearlier
    · rwa [List.mem_singleton.mp hlast]

end Blocks

/-- Whether all blocks of all outputs name registered inputs. -/
def Wired (catalogue : Catalogue) : Prop :=
  ∀ output ∈ catalogue.outputs.values, ∀ block ∈ output.blocks,
    catalogue.inputs.contains block.input

variable {catalogue next : Catalogue}

theorem Wired.of_get? (h : catalogue.Wired) {key : Key} {output : Output}
    (houtput : catalogue.outputs.get? key = some output) :
    ∀ block ∈ output.blocks, catalogue.inputs.contains block.input :=
  h output (mem_values_of_get? houtput)

/-- Registering an input removes none. -/
theorem contains_addInput {key : Key} (h : catalogue.inputs.contains key) (path : Path) :
    (catalogue.addInput path).1.inputs.contains key := by
  unfold addInput
  split
  · exact h
  · exact contains_insertWith h _

theorem outputs_addInput (catalogue : Catalogue) (path : Path) :
    (catalogue.addInput path).1.outputs = catalogue.outputs := by
  unfold addInput
  split <;> rfl

theorem Wired.addInput (h : catalogue.Wired) (path : Path) : (catalogue.addInput path).1.Wired := by
  intro output houtput block hblock
  rw [outputs_addInput] at houtput
  exact contains_addInput (h output houtput block hblock) path

theorem Wired.addOutput (h : catalogue.Wired) (path : Path) :
    (catalogue.addOutput path).1.Wired :=
  forall_blocks_addOutput h path

/-- A block is only appended if its input is registered. -/
theorem Wired.addBlock (h : catalogue.Wired) {key : Key} {block : Block}
    (hnext : catalogue.addBlock key block = .ok next) : next.Wired := by
  obtain ⟨hinput, -, -, hafter⟩ := addBlock_eq_ok_iff.mp hnext
  have hinputs : next.inputs = catalogue.inputs := by rw [hafter]
  rw [Wired, hinputs]
  exact forall_blocks_addBlock h hnext hinput

/-- Every catalogue with a history is wired. -/
theorem wired_after (operations : List Operation) : (after operations).Wired :=
  after_induction (fun _ houtput ↦ absurd houtput List.not_mem_nil)
    (fun _ path h ↦ h.addInput path) (fun _ path h ↦ h.addOutput path)
    (fun _ _ _ _ h hnext ↦ h.addBlock hnext) operations

/-- No catalogue with a history has a block with a fault. -/
theorem fault?_eq_none_after (operations : List Operation) :
    ∀ output ∈ (after operations).outputs.values, ∀ block ∈ output.blocks,
      Block.fault? block.start block.stop block.speed = none := by
  refine @after_induction (fun catalogue ↦ ∀ output ∈ catalogue.outputs.values,
    ∀ block ∈ output.blocks, Block.fault? block.start block.stop block.speed = none)
    (fun _ houtput ↦ absurd houtput List.not_mem_nil) (fun catalogue path h ↦ ?_)
    (fun _ path h ↦ forall_blocks_addOutput h path) (fun catalogue key block next h hnext ↦ ?_)
    operations
  · rwa [outputs_addInput]
  · exact forall_blocks_addBlock h hnext (addBlock_eq_ok_iff.mp hnext).2.1

end Montage.Media.Catalogue
