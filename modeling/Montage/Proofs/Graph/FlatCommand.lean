import Montage.Proofs.Graph.Writing
import Montage.Proofs.Media.History
import Montage.Render.Conversion

/-!
# The command of an output in one pass

The command of an output can be read off its blocks without a filter graph (`flatCommand`). Block
after block, the text cuts the picture and the sound out of the block's input and labels them; at
the end all labels are concatenated. An input is numbered with its place in the order of first use.

`compileOutput_eq_flatCommand` says that the two passes over a filter graph give this command, as
long as the blocks have registered inputs: no pass fails, and the labels and numbers that the passes
count up are those of the closed form. `compile_after` says so for every catalogue with a history,
where compiling an output fails only if there is no such output or if it has no blocks.
-/

set_option autoImplicit false
set_option relaxedAutoImplicit false

namespace Montage.Graph

open Media Registry Numeric

/-! ### The closed form -/

/-- The text of a change of the picture. -/
def visualText : VisualFilter → String
  | .rotate degrees => "rotate=" ++ degrees.toText ++ "*PI/180"
  | .transpose direction => "transpose=dir=" ++ toString direction
  | .crop width height x y =>
    "crop=w=" ++ toString width ++ ":h=" ++ toString height ++ ":x=" ++ toString x ++
      ":y=" ++ toString y

/-- The filters of a block's picture: cut, start at zero, change of speed, changes of the
picture. -/
def pictureTexts (interpolate : Bool) (block : Block) : List String :=
  ["trim=start=" ++ block.start.toText ++ ":end=" ++ block.stop.toText, "setpts=PTS-STARTPTS"] ++
    (if block.speed.agrees .one then []
      else ("setpts=PTS*" ++ (Binary64.one / block.speed).toText) ::
        if interpolate then ["minterpolate=mi_mode=mci:mc_mode=aobmc:vsbmc=1"] else []) ++
    block.filters.map visualText

/-- The filters of a block's sound: cut, start at zero, change of speed. -/
def soundTexts (block : Block) : List String :=
  ["atrim=start=" ++ block.start.toText ++ ":end=" ++ block.stop.toText, "asetpts=PTS-STARTPTS"] ++
    if block.speed.agrees .one then [] else ["atempo=" ++ block.speed.toText]

/-- What the block at a place writes, when inputs are numbered in the given order. -/
def blockText (interpolate : Bool) (order : List Key) (place : Nat) (block : Block) : String :=
  let index := toString (order.idxOf block.input)
  "[" ++ index ++ ":v]" ++ ",".intercalate (pictureTexts interpolate block) ++
      label (2 * place + 1) ++ ";" ++
    "[" ++ index ++ ":a]" ++ ",".intercalate (soundTexts block) ++ label (2 * place + 2) ++ ";"

/-- The text of the filter graph of blocks. -/
def flatText (interpolate : Bool) (blocks : List Block) : String :=
  String.join (blocks.mapIdx (blockText interpolate (inputOrder blocks))) ++
    String.join ((List.range (2 * blocks.length)).map fun k ↦ label (k + 1)) ++
    "concat=n=" ++ toString blocks.length ++ ":v=1:a=1" ++
    label (2 * blocks.length + 1) ++ label (2 * blocks.length + 2)

/-- The files that are registered for the inputs of blocks, in the order of first use. -/
def filesOf (inputs : Registry Input) (blocks : List Block) : List (Option Path) :=
  (inputOrder blocks).map fun key ↦ (inputs.get? key).map Input.path

/-- The command that renders an output from its blocks and the files of their inputs. -/
def flatCommand (settings : Settings) (output : Output) (files : List Path) : Command where
  program := settings.program
  inputs := files
  filterText := flatText settings.motionInterpolation output.blocks
  maps := [label (2 * output.blocks.length + 1), label (2 * output.blocks.length + 2)]
  qualityFlags := settings.qualityFlags
  output := output.path
  overwrite := settings.overwriteExisting

/-! ### Legs in the closed form -/

variable {inputs : Registry Input} {interpolate : Bool} {order : List Key} {blocks : List Block}

theorem toText_ofVisual (filter : VisualFilter) :
    (Filter.ofVisual filter).toText = visualText filter := by
  cases filter <;>
    simp [Filter.ofVisual, Filter.toText, visualText, String.intercalate_cons_cons,
      ← String.toList_inj]

theorem map_toText_picture (interpolate : Bool) (block : Block) :
    (legFilters interpolate block .video).map Filter.toText = pictureTexts interpolate block := by
  have hvisual : (block.filters.map Filter.ofVisual).map Filter.toText =
      block.filters.map visualText := by
    rw [List.map_map]
    exact List.map_congr_left fun filter _ ↦ toText_ofVisual filter
  have hspeed : (speedFilters interpolate block.speed .video).map Filter.toText =
      if block.speed.agrees .one then []
      else ("setpts=PTS*" ++ (Binary64.one / block.speed).toText) ::
        if interpolate then ["minterpolate=mi_mode=mci:mc_mode=aobmc:vsbmc=1"] else [] := by
    unfold speedFilters
    split_ifs <;> simp [Filter.toText, String.intercalate_cons_cons, ← String.toList_inj]
  rw [legFilters, List.map_append, List.map_append, hvisual, hspeed, pictureTexts]
  simp [Filter.toText, StreamKind.filterName, String.intercalate_cons_cons, ← String.toList_inj]

theorem map_toText_sound (interpolate : Bool) (block : Block) :
    (legFilters interpolate block .audio).map Filter.toText = soundTexts block := by
  unfold legFilters speedFilters soundTexts
  split_ifs <;>
    simp [Filter.toText, StreamKind.filterName, String.intercalate_cons_cons, ← String.toList_inj]

/-- The legs of a block write the block's text. -/
theorem text_ofBlock (inputs : Registry Input) (interpolate : Bool) (order : List Key)
    (place : Nat) (block : Block) :
    (Leg.ofBlock inputs interpolate order block .video).text (2 * place + 1) ++
        (Leg.ofBlock inputs interpolate order block .audio).text (2 * place + 2) =
      blockText interpolate order place block := by
  simp only [Leg.text, Leg.ofBlock, chainText, map_toText_picture, map_toText_sound, blockText,
    leafLabel, StreamKind.tag]
  simp [← String.toList_inj]

/-- The legs of all blocks write the blocks' texts one after the other. -/
theorem join_text_legsOf (inputs : Registry Input) (interpolate : Bool) (order : List Key)
    (blocks : List Block) :
    String.join ((legsOf inputs interpolate order blocks).mapIdx fun k leg ↦ leg.text (k + 1)) =
      String.join (blocks.mapIdx (blockText interpolate order)) := by
  induction blocks using List.reverseRecOn with
  | nil => rfl
  | append_singleton blocks block ih =>
    have hlegs : String.join ((legsOf inputs interpolate order [block]).mapIdx fun k leg ↦
        leg.text (k + 2 * blocks.length + 1)) =
          blockText interpolate order blocks.length block := by
      have hsound : 0 + 1 + 2 * blocks.length + 1 = 2 * blocks.length + 2 := by omega
      rw [← text_ofBlock inputs, legsOf, List.flatMap_singleton, List.mapIdx_cons,
        List.mapIdx_cons, List.mapIdx_nil, String.join_cons, String.join_cons, String.join_nil,
        Nat.zero_add, hsound, String.append_empty]
    rw [legsOf_append, List.mapIdx_append, List.mapIdx_concat, String.join_append,
      String.join_append, ih, length_legsOf, hlegs]
    simp [String.join_cons]

theorem chainText_concatFilter (count : Nat) :
    chainText [concatFilter count] = "concat=n=" ++ toString count ++ ":v=1:a=1" := by
  simp [chainText, concatFilter, Filter.toText, String.intercalate_cons_cons, ← String.toList_inj]

/-! ### Both passes -/

/-- The walk never meets a larger number of an input than there are blocks. -/
theorem index_lt_of_mem_legsOf {leg : Leg}
    (h : leg ∈ legsOf inputs interpolate (inputOrder blocks) blocks) :
    leg.index < blocks.length := by
  obtain ⟨block, hblock, hleg⟩ := List.mem_flatMap.mp h
  have hindex : leg.index = (inputOrder blocks).idxOf block.input := by
    rcases List.mem_pair.mp hleg with rfl | rfl <;> rfl
  rw [hindex]
  exact Nat.lt_of_lt_of_le (List.idxOf_lt_length_of_mem (mem_inputOrder.mpr ⟨block, hblock, rfl⟩))
    (length_inputOrder_le blocks)

/-- The walk through the graph of an output writes the closed form. -/
theorem write_root {output : Output} {graph : Graph} (hblocks : output.blocks ≠ [])
    (h : Lowered inputs interpolate output graph) :
    ∃ written, write graph (graph.nodes.size + 1) (4 * output.blocks.length) {} =
        .ok ([label (2 * output.blocks.length + 1), label (2 * output.blocks.length + 2)],
          written) ∧
      written.text = flatText interpolate output.blocks ∧
      written.inputs = tableOf inputs (inputOrder output.blocks) := by
  have hsize := h.size_eq
  have hpos : 0 < output.blocks.length := List.length_pos_iff.mpr hblocks
  -- The graph is deep enough for the root, the chains and the leaves.
  obtain ⟨depth, hdepth⟩ : ∃ depth, graph.nodes.size = depth + 2 :=
    ⟨graph.nodes.size - 2, by omega⟩
  have hindex (leg) (hleg : leg ∈ legsOf inputs interpolate (inputOrder output.blocks)
      output.blocks) : leg.index < graph.nodes.size := by
    have hplace := index_lt_of_mem_legsOf hleg
    omega
  have hlegs := foldlM_writeChild h.hasLegs hindex depth
  have htext := text_foldl_addLeg
    (legsOf inputs interpolate (inputOrder output.blocks) output.blocks)
  have hnext := nextLabel_foldl_addLeg
    (legsOf inputs interpolate (inputOrder output.blocks) output.blocks) {}
  have hinputs := inputs_foldl_addLeg inputs interpolate output.blocks
  rw [length_legsOf] at hlegs hnext
  rw [join_text_legsOf] at htext
  generalize (legsOf inputs interpolate (inputOrder output.blocks) output.blocks).foldl
    Written.addLeg {} = written at hlegs htext hnext hinputs
  have hlabels : (List.range' written.nextLabel 2).map label =
      [label (2 * output.blocks.length + 1), label (2 * output.blocks.length + 2)] := by
    rw [hnext, Nat.add_comm]
    rfl
  refine ⟨((written.append (String.join ((List.range (2 * output.blocks.length)).map fun k ↦
    label (k + 1)) ++ chainText [concatFilter output.blocks.length])).addLabels 2).2, ?_, ?_,
    hinputs⟩
  · have hrows : checkRows graph 2 = .ok () := checkRows_eq_ok (by omega)
    rw [write_chain h.root_node, hdepth, hlegs, Failure.ok_bind]
    simp only [hrows, Failure.ok_bind]
    exact congrArg Except.ok (Prod.ext hlabels rfl)
  · simp only [Written.addLabels_eq, Written.append, htext, hlabels, flatText,
      chainText_concatFilter]
    simp [String.join_cons, String.append_assoc]

/-- An output with blocks is compiled to the closed form. -/
theorem compileOutput_eq_flatCommand {catalogue : Catalogue} {output : Output}
    (hblocks : output.blocks ≠ [])
    (hinputs : ∀ block ∈ output.blocks, catalogue.inputs.contains block.input)
    (settings : Settings) :
    catalogue.compileOutput settings output =
      .ok (flatCommand settings output
        ((inputOrder output.blocks).map (pathOf catalogue.inputs))) := by
  obtain ⟨graph, hgraph, hlowered⟩ :=
    ofOutput_eq_ok hblocks hinputs settings.motionInterpolation
  obtain ⟨written, hwritten, htext, htable⟩ := write_root hblocks hlowered
  rw [Catalogue.compileOutput, hgraph, Failure.ok_bind, toCommand, hlowered.root_eq]
  simp only [hwritten, Failure.ok_bind, hlowered.root_node, htable, inputTable_tableOf, htext]
  rfl

theorem filesOf_eq (hinputs : ∀ block ∈ blocks, inputs.contains block.input) :
    filesOf inputs blocks = ((inputOrder blocks).map (pathOf inputs)).map some := by
  rw [filesOf, List.map_map]
  refine List.map_congr_left fun key hkey ↦ ?_
  obtain ⟨block, hblock, rfl⟩ := mem_inputOrder.mp hkey
  obtain ⟨input, hinput⟩ := exists_get?_of_contains (hinputs block hblock)
  simp [pathOf, hinput]

/-- Compiling the output of a key gives the closed form with the registered files of the inputs in
the order of their first use, unless the key has no output or the output has no blocks. -/
theorem compile_after (operations : List Catalogue.Operation) (settings : Settings) (key : Key) :
    let catalogue := Catalogue.after operations
    match catalogue.outputs.get? key with
    | none => catalogue.compile settings key = .error (.unknownOutput key.text)
    | some output =>
      if output.blocks = [] then
        catalogue.compile settings key = .error (.invalidBlock (.noBlocks output.path))
      else
        ∃ files, filesOf catalogue.inputs output.blocks = files.map some ∧
          catalogue.compile settings key = .ok (flatCommand settings output files) := by
  intro catalogue
  cases houtput : catalogue.outputs.get? key with
  | none => simp only [Catalogue.compile, houtput]
  | some output =>
    have hcompile : catalogue.compile settings key = catalogue.compileOutput settings output := by
      simp only [Catalogue.compile, houtput]
    have hinputs := (Catalogue.wired_after operations).of_get? houtput
    dsimp only
    rw [hcompile]
    split_ifs with hblocks
    · rw [Catalogue.compileOutput, ofOutput, if_pos hblocks, Failure.error_bind]
    · exact ⟨_, filesOf_eq hinputs, compileOutput_eq_flatCommand hblocks hinputs settings⟩

example : ((Catalogue.after [.addOutput ⟨"out.mp4"⟩, .addInput ⟨"clip.mp4"⟩,
      .addBlock ⟨"AA"⟩ { input := ⟨"AA"⟩, start := .zero false, stop := .ofNat 10, speed := .one },
      .addBlock ⟨"AA"⟩ { input := ⟨"AA"⟩, start := .ofNat 15, stop := .ofNat 20, speed := .ofNat 2 }
      ]).compile {} ⟨"AA"⟩).toOption.map Command.filterText =
    some ("[0:v]trim=start=0:end=10,setpts=PTS-STARTPTS[z1];" ++
      "[0:a]atrim=start=0:end=10,asetpts=PTS-STARTPTS[z2];" ++
      "[0:v]trim=start=15:end=20,setpts=PTS-STARTPTS,setpts=PTS*0.5," ++
        "minterpolate=mi_mode=mci:mc_mode=aobmc:vsbmc=1[z3];" ++
      "[0:a]atrim=start=15:end=20,asetpts=PTS-STARTPTS,atempo=2[z4];" ++
      "[z1][z2][z3][z4]concat=n=2:v=1:a=1[z5][z6]") := by
  decide +kernel

end Montage.Graph
