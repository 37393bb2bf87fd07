import Montage.Proofs.Media.Consistency

/-!
# Catalogues only grow

No operation takes anything away from a catalogue (`GrowsTo`): the inputs and the cache of paths are
added to at their ends, every output keeps its place, its key, its file and the blocks it has, and
at most gets more blocks after them. One operation does no more than that (`growsTo_perform`), and
so does any number of them (`growsTo_after`).

In particular an input stays registered under its key (`get?_inputs_after_append`), and an output
that nothing is appended to stays as it is (`get?_outputs_after_append`).
-/

set_option autoImplicit false
set_option relaxedAutoImplicit false

namespace Montage.Media.Catalogue

open Registry

/-- The second catalogue has everything that the first one has, in the same places, and nothing of
it is changed except that outputs have more blocks at their ends. -/
structure GrowsTo (before after : Catalogue) : Prop where
  inputs : before.inputs.entries <+: after.inputs.entries
  keyOfPath : before.keyOfPath <+: after.keyOfPath
  outputs : ∀ (place : Nat) (key : Key) (output : Output),
    before.outputs.entries[place]? = some (key, output) → ∃ more, after.outputs.entries[place]? =
      some (key, { output with blocks := output.blocks ++ more })

variable {catalogue next last : Catalogue} {key : Key} {block : Block} {output : Output}
  {input : Input}

theorem GrowsTo.refl (catalogue : Catalogue) : catalogue.GrowsTo catalogue where
  inputs := List.prefix_refl _
  keyOfPath := List.prefix_refl _
  outputs place key output houtput := ⟨[], by rw [List.append_nil]; exact houtput⟩

theorem GrowsTo.trans (h : catalogue.GrowsTo next) (hlast : next.GrowsTo last) :
    catalogue.GrowsTo last := by
  refine ⟨h.inputs.trans hlast.inputs, h.keyOfPath.trans hlast.keyOfPath, ?_⟩
  intro place key output houtput
  obtain ⟨more, hnext⟩ := h.outputs place key output houtput
  obtain ⟨further, hlast⟩ := hlast.outputs place key _ hnext
  exact ⟨more ++ further, by rw [hlast, List.append_assoc]⟩

/-! ### Operations -/

theorem growsTo_addInput (catalogue : Catalogue) (path : Path) :
    catalogue.GrowsTo (catalogue.addInput path).1 := by
  unfold addInput
  split
  · exact GrowsTo.refl catalogue
  · refine ⟨?_, List.prefix_append _ _, (GrowsTo.refl catalogue).outputs⟩
    rw [entries_insertWith]
    exact List.prefix_append _ _

theorem growsTo_addOutput (catalogue : Catalogue) (path : Path) :
    catalogue.GrowsTo (catalogue.addOutput path).1 := by
  refine ⟨List.prefix_refl _, List.prefix_refl _, fun place key output houtput ↦ ⟨[], ?_⟩⟩
  rw [List.append_nil, addOutput, entries_insertWith]
  have hplace := (List.getElem?_eq_some_iff.mp houtput).1
  exact (List.getElem?_append_left hplace).trans houtput

/-- The block is the only thing that is new. -/
theorem growsTo_addBlock (hnext : catalogue.addBlock key block = .ok next) :
    catalogue.GrowsTo next := by
  obtain ⟨-, -, -, rfl⟩ := addBlock_eq_ok_iff.mp hnext
  refine ⟨List.prefix_refl _, List.prefix_refl _, fun place other output houtput ↦ ?_⟩
  rw [getElem?_entries, Option.map_eq_some_iff] at houtput
  obtain ⟨stored, hstored, heq⟩ := houtput
  cases heq
  simp only [getElem?_entries, getElem?_values_modify, hstored, Option.map_some]
  split
  · exact ⟨[block], rfl⟩
  · exact ⟨[], by rw [List.append_nil]; rfl⟩

theorem growsTo_perform (catalogue : Catalogue) (operation : Operation) :
    catalogue.GrowsTo (catalogue.perform operation) :=
  holds_perform (fun next path h ↦ h.trans (growsTo_addInput next path))
    (fun next path h ↦ h.trans (growsTo_addOutput next path))
    (fun _ _ _ _ _ h hlast ↦ h.trans (growsTo_addBlock hlast)) (GrowsTo.refl catalogue)

theorem after_append (operations more : List Operation) :
    after (operations ++ more) = more.foldl perform (after operations) :=
  List.foldl_append

/-- Further operations take nothing away. -/
theorem growsTo_after (operations more : List Operation) :
    (after operations).GrowsTo (after (operations ++ more)) := by
  rw [after_append]
  exact List.foldlRecOn more _ (GrowsTo.refl _) fun next h operation _ ↦
    h.trans (growsTo_perform next operation)

/-! ### What stays -/

/-- An input stays registered under its key. -/
theorem get?_inputs_after_append (operations more : List Operation)
    (hinput : (after operations).inputs.get? key = some input) :
    (after (operations ++ more)).inputs.get? key = some input := by
  rw [(consistent_after _).inputs_inStep.get?_eq_some_iff] at hinput ⊢
  exact (growsTo_after operations more).inputs.subset hinput

/-- An operation that does not append to an output keeps a consistent catalogue consistent and
leaves the output as it is. -/
theorem get?_outputs_perform {operation : Operation} (hother : ¬ operation.AppendsTo key)
    (hconsistent : catalogue.Consistent) (houtput : catalogue.outputs.get? key = some output) :
    (catalogue.perform operation).Consistent ∧
      (catalogue.perform operation).outputs.get? key = some output := by
  refine @holds_perform (fun next ↦ next.Consistent ∧ next.outputs.get? key = some output)
    operation ?_ ?_ ?_ catalogue ⟨hconsistent, houtput⟩
  · rintro next path ⟨hconsistent, h⟩
    refine ⟨hconsistent.addInput path, ?_⟩
    rwa [outputs_addInput]
  · rintro next path ⟨hconsistent, h⟩
    exact ⟨hconsistent.addOutput path, hconsistent.outputs_inStep.get?_insertWith_of_get? h _⟩
  · rintro before changed block after happends ⟨hconsistent, h⟩ hafter
    refine ⟨hconsistent.addBlock hafter, ?_⟩
    obtain ⟨-, -, -, rfl⟩ := addBlock_eq_ok_iff.mp hafter
    rw [hconsistent.outputs_inStep.get?_modify, if_neg, h]
    rintro rfl
    exact hother happends

/-- Operations that do not append to an output leave it as it is. -/
theorem get?_outputs_after_append (operations : List Operation) {more : List Operation}
    (hmore : ∀ operation ∈ more, ¬ operation.AppendsTo key)
    (houtput : (after operations).outputs.get? key = some output) :
    (after (operations ++ more)).outputs.get? key = some output := by
  rw [after_append]
  exact (List.foldlRecOn more _
    (motive := fun next : Catalogue ↦ next.Consistent ∧ next.outputs.get? key = some output)
    ⟨consistent_after operations, houtput⟩ fun _ h operation hoperation ↦
      get?_outputs_perform (hmore operation hoperation) h.1 h.2).2

end Montage.Media.Catalogue
