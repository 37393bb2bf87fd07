import Mathlib.Data.List.Forall2
import Montage.Proofs.Composition.Obstacle
import Montage.Proofs.Media.Consistency

/-!
# Parts of a plan

A plan is a list of outputs with the fragments that each of them plays (`Part`). A catalogue holds a
plan (`Catalogue.Holds`) if it is consistent, has one output for every part with one block for every
fragment, and one input for every file among the recordings, in the order of first use.

Registering an output adds a part without fragments (`Holds.addOutput`), and a usable fragment goes
to the end of the last part (`Holds.addRange`, `Holds.addRanges`); neither can fail. Inputs are
shared by all parts, and a part that is finished still plays its fragments when more inputs are
registered, because an input that is registered keeps its key.
-/

set_option autoImplicit false
set_option relaxedAutoImplicit false

namespace Montage.Media

open Numeric Registry Timing Montage.Timing.Interval

/-! ### What a catalogue holds -/

/-- The paths of different files, each as it was written first. -/
def firstOfEach (paths : List Path) : List Path := paths.eraseDupsBy fun p q ↦ decide (p.Same q)

/-- The recordings of fragments, as often as they are played. -/
def recordings (fragments : List Interval) : List Path := fragments.filterMap (·.source)

/-- The block plays the fragment: it has the fragment's bounds and speed and the given filters, and
its input is the file that the fragment was recorded in. -/
structure Block.Plays (inputs : Registry Input) (filters : List VisualFilter) (fragment : Interval)
    (block : Block) : Prop where
  start_eq : fragment.start = some block.start
  stop_eq : fragment.stop = some block.stop
  speed_eq : fragment.speed = block.speed
  filters_eq : block.filters = filters
  input : ∃ source input, fragment.source = some source ∧ inputs.get? block.input = some input ∧
    input.path.Same source

/-- An output as it is planned. -/
structure Part where
  /-- The file. -/
  path : Path
  /-- The filters for its picture. -/
  filters : List VisualFilter
  /-- What it plays. -/
  fragments : List Interval

/-- The output has the file of the part, and its blocks play the part's fragments. -/
structure Output.Renders (inputs : Registry Input) (part : Part) (output : Output) : Prop where
  path_eq : output.path = part.path
  blocks : List.Forall₂ (Block.Plays inputs part.filters) part.fragments output.blocks

/-- The catalogue holds one output for every part, and one input for every file that is played. -/
structure Catalogue.Holds (catalogue : Catalogue) (parts : List Part) : Prop where
  consistent : catalogue.Consistent
  outputs : List.Forall₂ (Output.Renders catalogue.inputs) parts catalogue.outputs.values
  inputs : catalogue.inputs.values.map Input.path =
    firstOfEach (recordings (parts.flatMap Part.fragments))

variable {catalogue : Catalogue} {parts : List Part} {part : Part} {key : Key}

theorem eraseDupsBy_loop_concat {α : Type} (r : α → α → Bool) (items seen : List α) (a : α) :
    List.eraseDupsBy.loop r (items ++ [a]) seen =
      if (List.eraseDupsBy.loop r items seen).any (r a) then List.eraseDupsBy.loop r items seen
      else List.eraseDupsBy.loop r items seen ++ [a] := by
  induction items generalizing seen with
  | nil => cases h : seen.any (r a) <;> simp [List.eraseDupsBy.loop, h]
  | cons b items ih =>
    rw [List.cons_append, List.eraseDupsBy.loop, List.eraseDupsBy.loop]
    split <;> exact ih _

/-- A further path counts unless an earlier one is the same file. -/
theorem firstOfEach_concat (paths : List Path) (path : Path) :
    firstOfEach (paths ++ [path]) =
      if ∃ earlier ∈ firstOfEach paths, earlier.Same path then firstOfEach paths
      else firstOfEach paths ++ [path] := by
  rw [firstOfEach, List.eraseDupsBy, eraseDupsBy_loop_concat, ← List.eraseDupsBy, ← firstOfEach]
  refine if_congr ?_ rfl rfl
  rw [List.any_eq_true]
  refine exists_congr fun earlier ↦ and_congr_right fun _ ↦ ?_
  rw [decide_eq_true_eq]
  exact ⟨Path.Same.symm, Path.Same.symm⟩

theorem forall₂_concat_left_iff {α β : Type} {R : α → β → Prop} {items : List α} {a : α}
    {others : List β} :
    List.Forall₂ R (items ++ [a]) others ↔
      ∃ earlier b, others = earlier ++ [b] ∧ List.Forall₂ R items earlier ∧ R a b := by
  rw [← List.forall₂_reverse_iff, List.reverse_append, List.reverse_singleton,
    List.singleton_append, List.forall₂_cons_left_iff]
  constructor
  · rintro ⟨b, rest, hab, hrest, hothers⟩
    refine ⟨rest.reverse, b, ?_, ?_, hab⟩
    · rw [← List.reverse_reverse others, hothers, List.reverse_cons]
    · rwa [← List.forall₂_reverse_iff, List.reverse_reverse]
  · rintro ⟨earlier, b, rfl, hearlier, hab⟩
    exact ⟨b, earlier.reverse, hab, List.forall₂_reverse_iff.mpr hearlier, by simp⟩

/-! ### Steps of a plan -/

namespace Catalogue

theorem holds_empty : ({} : Catalogue).Holds [] := ⟨consistent_empty, .nil, rfl⟩

/-- A registered output is a part without fragments. -/
theorem Holds.addOutput (h : catalogue.Holds parts) (path : Path) (filters : List VisualFilter) :
    (catalogue.addOutput path).1.Holds (parts ++ [⟨path, filters, []⟩]) := by
  refine ⟨h.consistent.addOutput path, ?_, ?_⟩
  · rw [Catalogue.addOutput, values_insertWith]
    exact forall₂_concat_left_iff.mpr ⟨_, _, rfl, h.outputs, rfl, .nil⟩
  · rw [List.flatMap_append, List.flatMap_singleton, List.append_nil]
    exact h.inputs

/-- Blocks play their fragments after more inputs are registered. -/
theorem Consistent.plays_addInput (hconsistent : catalogue.Consistent)
    {filters : List VisualFilter} {fragment : Interval} {block : Block}
    (h : block.Plays catalogue.inputs filters fragment) (path : Path) :
    block.Plays (catalogue.addInput path).1.inputs filters fragment := by
  obtain ⟨source, input, hsource, hinput, hsame⟩ := h.input
  exact ⟨h.start_eq, h.stop_eq, h.speed_eq, h.filters_eq,
    source, input, hsource, hconsistent.get?_addInput hinput path, hsame⟩

/-- Registering an input adds its file unless an input is the same file. -/
theorem Consistent.paths_addInput (h : catalogue.Consistent) {paths : List Path}
    (hpaths : catalogue.inputs.values.map Input.path = firstOfEach paths) (path : Path) :
    (catalogue.addInput path).1.inputs.values.map Input.path = firstOfEach (paths ++ [path]) := by
  have hnone : catalogue.inputKey? path = none ↔ _ := h.inputKey?_eq_none_iff
  rw [firstOfEach_concat, ← hpaths, Catalogue.addInput]
  cases hkey : catalogue.inputKey? path with
  | some key =>
    rw [hkey] at hnone
    have hsame : ∃ earlier ∈ catalogue.inputs.values.map Input.path, earlier.Same path := by
      by_contra hdifferent
      exact Option.some_ne_none key (hnone.mpr fun input hinput hsame ↦
        hdifferent ⟨_, List.mem_map_of_mem hinput, hsame⟩)
    rw [if_pos hsame]
  | none =>
    have hdifferent : ¬ ∃ earlier ∈ catalogue.inputs.values.map Input.path, earlier.Same path := by
      rintro ⟨_, hmem, hsame⟩
      obtain ⟨input, hinput, rfl⟩ := List.mem_map.mp hmem
      exact hnone.mp hkey input hinput hsame
    rw [if_neg hdifferent]
    simp only [values_insertWith, List.map_append, List.map_singleton]

/-- A usable fragment becomes the last block of the output that was registered last. -/
theorem Holds.addRange (h : catalogue.Holds (parts ++ [part]))
    (hkey : catalogue.outputs.keys.getLast? = some key) {fragment : Interval}
    {range : Path × Binary64 × Binary64 × Binary64} (hrange : rangeOf fragment = .ok range) :
    ∃ next, catalogue.addRange key part.filters range = .ok next ∧
      next.Holds (parts ++ [{ part with fragments := part.fragments ++ [fragment] }]) ∧
      next.outputs.keys = catalogue.outputs.keys := by
  obtain ⟨source, start, stop, speed⟩ := range
  obtain ⟨hsource, hstart, hstop, hspeed, hfault⟩ := rangeOf_eq_ok_iff.mp hrange
  have hconsistent := h.consistent.addInput source
  obtain ⟨input, hinput, hsame⟩ := h.consistent.get?_addInput_self source
  have houtputs := outputs_addInput catalogue source
  have hpaths := h.consistent.paths_addInput h.inputs source
  have hplays {filters : List VisualFilter} {f : Interval} {block : Block}
      (hblock : block.Plays catalogue.inputs filters f) :=
    h.consistent.plays_addInput hblock source
  rw [Catalogue.addRange]
  generalize catalogue.addInput source = registered at *
  obtain ⟨between, inputKey⟩ := registered
  dsimp only at *
  have hcontains : between.outputs.contains key :=
    contains_iff.mpr (by rw [houtputs]; exact List.mem_of_getLast? hkey)
  obtain ⟨outputs, output, hvalues, hearlier, houtput⟩ := forall₂_concat_left_iff.mp h.outputs
  refine ⟨_, addBlock_eq_ok_iff.mpr ⟨?_, hfault, hcontains, rfl⟩, ⟨?_, ?_, ?_⟩, ?_⟩
  · exact contains_of_get? hinput
  · exact ⟨hconsistent.inputs_inStep, hconsistent.outputs_inStep.modify key _,
      hconsistent.keyOfPath_eq, hconsistent.distinct⟩
  · rw [← houtputs] at hvalues hkey
    rw [hconsistent.outputs_inStep.values_modify_last hkey hvalues]
    refine forall₂_concat_left_iff.mpr ⟨_, _, rfl, ?_, houtput.path_eq, ?_⟩
    · exact hearlier.imp fun _ _ hrenders ↦
        ⟨hrenders.path_eq, hrenders.blocks.imp fun _ _ hblock ↦ hplays hblock⟩
    · refine forall₂_concat_left_iff.mpr ⟨_, _, rfl, houtput.blocks.imp fun _ _ hblock ↦
        hplays hblock, hstart, hstop, hspeed, rfl, source, input, hsource, hinput, hsame⟩
  · rw [hpaths]
    simp [recordings, hsource]
  · rw [keys_modify, houtputs]

/-- Usable fragments become blocks of the output that was registered last, in their order. -/
theorem Holds.addRanges (h : catalogue.Holds (parts ++ [part]))
    (hkey : catalogue.outputs.keys.getLast? = some key) {fragments : List Interval}
    (hfragments : ∀ f ∈ fragments, ∃ range, rangeOf f = .ok range) :
    ∃ next, (do (← fragments.mapM rangeOf).foldlM (Catalogue.addRange key part.filters) catalogue) =
        Except.ok next ∧
      next.Holds (parts ++ [{ part with fragments := part.fragments ++ fragments }]) ∧
      next.outputs.keys = catalogue.outputs.keys := by
  obtain ⟨ranges, hranges⟩ := Failure.exists_mapM_eq_ok hfragments
  rw [hranges, Failure.ok_bind]
  clear hfragments
  induction fragments generalizing catalogue part ranges with
  | nil =>
    cases hranges
    exact ⟨catalogue, rfl, by simpa using h, rfl⟩
  | cons f fragments ih =>
    rw [List.mapM_cons] at hranges
    obtain ⟨range, hrange, hrest⟩ := Failure.bind_eq_ok.mp hranges
    obtain ⟨more, hmore, hranges⟩ := Failure.bind_eq_ok.mp hrest
    cases hranges
    obtain ⟨between, hbetween, hholds, hkeys⟩ := h.addRange hkey hrange
    rw [← hkeys] at hkey
    obtain ⟨next, hnext, hholds, hkeys'⟩ := ih hholds hkey more hmore
    refine ⟨next, ?_, by simpa using hholds, hkeys'.trans hkeys⟩
    rw [List.foldlM_cons, hbetween, Failure.ok_bind]
    exact hnext

end Catalogue

end Montage.Media
