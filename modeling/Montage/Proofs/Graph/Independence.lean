import Mathlib.Data.List.Basic
import Montage.Proofs.Graph.FlatCommand
import Montage.Proofs.Media.Consistency
import Montage.Proofs.Media.Growth

/-!
# What a command depends on

Keys are chosen by the history of a catalogue, and commands do not depend on them. What is rendered
of a block is its file, its range, its speed and its filters (`Rendered`). Keys that are used stand
for different files, so taking files in place of keys changes neither the order of first use
(`filesOf_eq_eraseDups`) nor the place of an input in it (`idxOf_inputOrder_eq`). The legs of an
output are therefore settled by what is rendered (`legsOf_eq_flatMap`), and with them the text of
its filter graph (`flatText_eq_of_rendered_eq`).

Outputs of any two catalogues that have the same path and render the same are compiled to the same
command (`compile_eq_of_rendered_eq`). In particular nothing that is registered later, and no block
that is appended to another output, changes a command.
-/

set_option autoImplicit false
set_option relaxedAutoImplicit false

namespace Montage.Graph

open Media Registry Numeric

/-! ### First uses -/

section FirstUses

variable {α β : Type} [BEq α] [LawfulBEq α] [BEq β] [LawfulBEq β] {f : α → β} {items : List α}

/-- A map that keeps items apart keeps the order of first uses. -/
theorem eraseDups_map (hinj : ∀ a ∈ items, ∀ b ∈ items, f a = f b → a = b) :
    (items.map f).eraseDups = items.eraseDups.map f := by
  induction items using List.reverseRecOn with
  | nil => rfl
  | append_singleton items a ih =>
    have hearlier : (items.map f).eraseDups = items.eraseDups.map f := ih fun b hb c hc ↦
      hinj b (List.mem_append_left _ hb) c (List.mem_append_left _ hc)
    have hmem : f a ∈ items.map f ↔ a ∈ items := by
      refine ⟨fun h ↦ ?_, List.mem_map_of_mem⟩
      obtain ⟨b, hb, hba⟩ := List.mem_map.mp h
      rwa [← hinj b (List.mem_append_left _ hb) a (List.mem_append_right _ (by simp)) hba]
    rw [List.map_append, List.map_singleton, eraseDups_append_singleton,
      eraseDups_append_singleton, hearlier]
    by_cases ha : a ∈ items
    · rw [if_pos ha, if_pos (hmem.mpr ha)]
    · rw [if_neg ha, if_neg (hmem.not.mpr ha), List.map_append, List.map_singleton]

/-- A map that keeps an item apart from all others keeps its place. -/
theorem idxOf_map {a : α} (hinj : ∀ b ∈ items, f a = f b → a = b) :
    (items.map f).idxOf (f a) = items.idxOf a := by
  induction items with
  | nil => rfl
  | cons b items ih =>
    obtain ⟨hb, hrest⟩ := List.forall_mem_cons.mp hinj
    by_cases hab : a = b
    · subst hab
      rw [List.map_cons, List.idxOf_cons_self, List.idxOf_cons_self]
    · have hne : f a ≠ f b := fun heq ↦ hab (hb heq)
      rw [List.map_cons, List.idxOf_cons_ne _ hne.symm, List.idxOf_cons_ne _ (Ne.symm hab),
        ih hrest]

end FirstUses

/-! ### What is rendered -/

/-- What is rendered of a block. -/
structure Rendered where
  /-- The file that is registered for the block's input. -/
  file : Option Path
  /-- The start of the range. -/
  start : Binary64
  /-- The end of the range. -/
  stop : Binary64
  /-- The playback speed. -/
  speed : Binary64
  /-- The changes of the picture. -/
  filters : List VisualFilter
deriving DecidableEq

/-- The block with the file of its input in place of the key. -/
def Rendered.ofBlock (inputs : Registry Input) (block : Block) : Rendered where
  file := (inputs.get? block.input).map Input.path
  start := block.start
  stop := block.stop
  speed := block.speed
  filters := block.filters

/-- What is rendered of an output. -/
def rendered (inputs : Registry Input) (output : Output) : List Rendered :=
  output.blocks.map (Rendered.ofBlock inputs)

/-- A leg with files in place of keys, when files are numbered in the given order. -/
def Leg.ofRendered (interpolate : Bool) (files : List (Option Path)) (part : Rendered)
    (kind : StreamKind) : Leg where
  index := files.idxOf part.file
  path := part.file.getD ⟨""⟩
  kind := kind
  filters := legFilters interpolate
    { input := ⟨""⟩, start := part.start, stop := part.stop, speed := part.speed,
      filters := part.filters } kind

variable {catalogue catalogue' : Catalogue} {blocks blocks' : List Block}

section Legs

variable (hconsistent : catalogue.Consistent)
  (hinputs : ∀ block ∈ blocks, catalogue.inputs.contains block.input)

include hconsistent hinputs

/-- The files in the order of the first use of their inputs are the files in the order of their own
first use. -/
theorem filesOf_eq_eraseDups :
    filesOf catalogue.inputs blocks =
      ((blocks.map (Rendered.ofBlock catalogue.inputs)).map Rendered.file).eraseDups := by
  have hinj : ∀ key ∈ blocks.map Block.input, ∀ other ∈ blocks.map Block.input,
      (catalogue.inputs.get? key).map Input.path = (catalogue.inputs.get? other).map Input.path →
        key = other :=
    List.forall_mem_map.mpr fun block hblock _ _ ↦
      hconsistent.key_eq_of_path_eq (hinputs block hblock)
  rw [filesOf, inputOrder, ← eraseDups_map hinj, List.map_map, List.map_map]
  rfl

/-- An input has the place of its file. -/
theorem idxOf_inputOrder_eq {block : Block} (hblock : block ∈ blocks) :
    (inputOrder blocks).idxOf block.input =
      (filesOf catalogue.inputs blocks).idxOf (Rendered.ofBlock catalogue.inputs block).file :=
  (idxOf_map (f := fun key ↦ (catalogue.inputs.get? key).map Input.path) fun _ _ ↦
    hconsistent.key_eq_of_path_eq (hinputs block hblock)).symm

/-- The legs are settled by what is rendered. -/
theorem legsOf_eq_flatMap (interpolate : Bool) :
    legsOf catalogue.inputs interpolate (inputOrder blocks) blocks =
      (blocks.map (Rendered.ofBlock catalogue.inputs)).flatMap fun part ↦
        [.ofRendered interpolate (filesOf catalogue.inputs blocks) part .video,
          .ofRendered interpolate (filesOf catalogue.inputs blocks) part .audio] := by
  rw [legsOf, List.flatMap_map]
  refine List.flatMap_congr fun block hblock ↦ ?_
  simp only [Leg.ofBlock, idxOf_inputOrder_eq hconsistent hinputs hblock]
  rfl

end Legs

/-! ### Two catalogues -/

/-- Blocks that render the same have the same text and the same files. -/
theorem flatText_eq_of_rendered_eq (hconsistent : catalogue.Consistent)
    (hconsistent' : catalogue'.Consistent)
    (hinputs : ∀ block ∈ blocks, catalogue.inputs.contains block.input)
    (hinputs' : ∀ block ∈ blocks', catalogue'.inputs.contains block.input)
    (hrendered : blocks.map (Rendered.ofBlock catalogue.inputs) =
      blocks'.map (Rendered.ofBlock catalogue'.inputs)) (interpolate : Bool) :
    flatText interpolate blocks = flatText interpolate blocks' ∧
      filesOf catalogue.inputs blocks = filesOf catalogue'.inputs blocks' := by
  have hlength : blocks.length = blocks'.length := by
    simpa using congrArg List.length hrendered
  have hfiles : filesOf catalogue.inputs blocks = filesOf catalogue'.inputs blocks' := by
    rw [filesOf_eq_eraseDups hconsistent hinputs, filesOf_eq_eraseDups hconsistent' hinputs',
      hrendered]
  have hlegs : legsOf catalogue.inputs interpolate (inputOrder blocks) blocks =
      legsOf catalogue'.inputs interpolate (inputOrder blocks') blocks' := by
    rw [legsOf_eq_flatMap hconsistent hinputs, legsOf_eq_flatMap hconsistent' hinputs', hfiles,
      hrendered]
  refine ⟨?_, hfiles⟩
  rw [flatText, flatText, ← join_text_legsOf catalogue.inputs, ← join_text_legsOf catalogue'.inputs,
    hlegs, hlength]

/-- Outputs of one path that render the same are compiled to the same command. -/
theorem compileOutput_eq_of_rendered_eq (hconsistent : catalogue.Consistent)
    (hconsistent' : catalogue'.Consistent) {output output' : Output}
    (hinputs : ∀ block ∈ output.blocks, catalogue.inputs.contains block.input)
    (hinputs' : ∀ block ∈ output'.blocks, catalogue'.inputs.contains block.input)
    (hblocks : output.blocks ≠ []) (hpath : output.path = output'.path)
    (hrendered : rendered catalogue.inputs output = rendered catalogue'.inputs output')
    (settings : Settings) :
    ∃ command, catalogue.compileOutput settings output = .ok command ∧
      catalogue'.compileOutput settings output' = .ok command := by
  have hblocks' : output'.blocks ≠ [] := by
    rintro hempty
    rw [rendered, rendered, hempty, List.map_nil, List.map_eq_nil_iff] at hrendered
    exact hblocks hrendered
  have hlength : output.blocks.length = output'.blocks.length := by
    simpa [rendered] using congrArg List.length hrendered
  obtain ⟨htext, hfiles⟩ := flatText_eq_of_rendered_eq hconsistent hconsistent' hinputs hinputs'
    hrendered settings.motionInterpolation
  rw [filesOf_eq hinputs, filesOf_eq hinputs'] at hfiles
  have hpaths := List.map_injective_iff.mpr (fun _ _ ↦ Option.some.inj) hfiles
  refine ⟨_, compileOutput_eq_flatCommand hblocks hinputs settings, ?_⟩
  rw [compileOutput_eq_flatCommand hblocks' hinputs' settings, flatCommand, flatCommand, htext,
    hpaths, hlength, hpath]

/-- Outputs of any two catalogues with a history are compiled to the same command if they have the
same path and render the same files, ranges, speeds and filters. Operations that do not append to
the output, whatever they register and append elsewhere, do not change its command. -/
theorem compile_eq_of_rendered_eq (operations operations' : List Catalogue.Operation)
    (settings : Settings) {key key' : Key} {output output' : Output}
    (houtput : (Catalogue.after operations).outputs.get? key = some output)
    (houtput' : (Catalogue.after operations').outputs.get? key' = some output')
    (hblocks : output.blocks ≠ []) (hpath : output.path = output'.path)
    (hrendered : rendered (Catalogue.after operations).inputs output =
      rendered (Catalogue.after operations').inputs output') :
    ∃ command, (Catalogue.after operations).compile settings key = .ok command ∧
      (Catalogue.after operations').compile settings key' = .ok command ∧
      ∀ more : List Catalogue.Operation, (∀ operation ∈ more, ¬ operation.AppendsTo key) →
        (Catalogue.after (operations ++ more)).compile settings key = .ok command := by
  have hcompile {operations : List Catalogue.Operation} {key : Key} {output : Output}
      (houtput : (Catalogue.after operations).outputs.get? key = some output) :
      (Catalogue.after operations).compile settings key =
        (Catalogue.after operations).compileOutput settings output := by
    simp only [Catalogue.compile, houtput]
  have hinputs := (Catalogue.wired_after operations).of_get? houtput
  have hconsistent := Catalogue.consistent_after operations
  obtain ⟨command, hcommand, hcommand'⟩ := compileOutput_eq_of_rendered_eq hconsistent
    (Catalogue.consistent_after operations') hinputs
    ((Catalogue.wired_after operations').of_get? houtput') hblocks hpath hrendered settings
  refine ⟨command, (hcompile houtput).trans hcommand, (hcompile houtput').trans hcommand',
    fun more hmore ↦ ?_⟩
  -- The output and the inputs that its blocks name are still there, so it renders the same.
  have hkept := Catalogue.get?_outputs_after_append operations hmore houtput
  have hsame : rendered (Catalogue.after operations).inputs output =
      rendered (Catalogue.after (operations ++ more)).inputs output := by
    refine List.map_congr_left fun block hblock ↦ ?_
    obtain ⟨input, hinput⟩ := exists_get?_of_contains (hinputs block hblock)
    have hlater := Catalogue.get?_inputs_after_append operations more hinput
    rw [Rendered.ofBlock, Rendered.ofBlock, hinput, hlater]
  obtain ⟨other, hother, hlater⟩ := compileOutput_eq_of_rendered_eq hconsistent
    (Catalogue.consistent_after (operations ++ more)) hinputs
    ((Catalogue.wired_after (operations ++ more)).of_get? hkept) hblocks rfl hsame settings
  rw [hcommand, Except.ok.injEq] at hother
  rw [hcompile hkept, hlater, hother]

/-- A range of a recording that is turned and played twice as fast, from the input of a key. -/
def turnedBlock (input : Key) : Block :=
  ⟨input, .ofNat 1, .ofNat 3, .ofNat 2, [.rotate (.ofNat 90)]⟩

/-- The shortest history of an output with a block. -/
def shortHistory : List Catalogue.Operation :=
  [.addInput ⟨"clip.mp4"⟩, .addOutput ⟨"out.mp4"⟩, .addBlock ⟨"AA"⟩ (turnedBlock ⟨"AA"⟩)]

/-- A history of the same output in which other keys are handed out. -/
def longHistory : List Catalogue.Operation :=
  [.addInput ⟨"other.mp4"⟩, .addOutput ⟨"other-out.mp4"⟩, .addOutput ⟨"out.mp4"⟩,
    .addInput ⟨"clip.mp4"⟩, .addBlock ⟨"AA"⟩ (turnedBlock ⟨"AA"⟩),
    .addBlock ⟨"AB"⟩ (turnedBlock ⟨"AB"⟩)]

/-- What happens after the short history: one more input, and a block of it for one more output. -/
def laterOperations : List Catalogue.Operation :=
  [.addInput ⟨"other.mp4"⟩, .addOutput ⟨"other-out.mp4"⟩, .addBlock ⟨"AB"⟩ (turnedBlock ⟨"AB"⟩)]

/-- Both histories, and what comes after the short one, lead to the same command. -/
theorem compile_eq_of_rendered_eq_sample :
    ∃ output output' command,
      (Catalogue.after shortHistory).outputs.get? ⟨"AA"⟩ = some output ∧
      (Catalogue.after longHistory).outputs.get? ⟨"AB"⟩ = some output' ∧
      output.blocks ≠ [] ∧ output.blocks ≠ output'.blocks ∧
      (Catalogue.after shortHistory).compile {} ⟨"AA"⟩ = .ok command ∧
      (Catalogue.after longHistory).compile {} ⟨"AB"⟩ = .ok command ∧
      (Catalogue.after (shortHistory ++ laterOperations)).compile {} ⟨"AA"⟩ = .ok command := by
  have houtput : (Catalogue.after shortHistory).outputs.get? ⟨"AA"⟩ =
      some ⟨⟨"out.mp4"⟩, ⟨"AA"⟩, [turnedBlock ⟨"AA"⟩]⟩ := by decide +kernel
  have houtput' : (Catalogue.after longHistory).outputs.get? ⟨"AB"⟩ =
      some ⟨⟨"out.mp4"⟩, ⟨"AB"⟩, [turnedBlock ⟨"AB"⟩]⟩ := by decide +kernel
  obtain ⟨command, hcommand, hcommand', hlater⟩ := compile_eq_of_rendered_eq shortHistory
    longHistory {} houtput houtput' (by simp) rfl (by decide +kernel)
  refine ⟨_, _, command, houtput, houtput', by simp, by simp [turnedBlock], hcommand, hcommand', ?_⟩
  exact hlater laterOperations (by simp [laterOperations, Catalogue.Operation.AppendsTo])

end Montage.Graph
