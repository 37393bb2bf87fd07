import Montage.Proofs.Media.History
import Montage.Proofs.Registry.Keys

/-!
# Consistent catalogues

A catalogue keeps its inputs twice: in a registry by key, and in a cache by path. The two say the
same, and no two inputs are the same file (`Consistent`). Every catalogue with a history is
consistent (`consistent_after`). In a consistent catalogue a path leads to a key exactly if some
input is the same file (`Consistent.inputKey?_eq_none_iff`), the key then leads back to that input
(`Consistent.get?_of_inputKey?`), and two keys with the same path are one
(`Consistent.key_eq_of_same`). Besides, every input and every output carries the key under which it
is stored (`labelled_after`).
-/

set_option autoImplicit false
set_option relaxedAutoImplicit false

namespace Montage.Media.Catalogue

open Numeric Registry Timing

/-- Both registries are in step with their counters, the cache has the path and the key of every
input, and no two inputs are the same file. -/
structure Consistent (catalogue : Catalogue) : Prop where
  inputs_inStep : catalogue.inputs.InStep
  outputs_inStep : catalogue.outputs.InStep
  keyOfPath_eq : catalogue.keyOfPath =
    catalogue.inputs.entries.map fun entry ↦ (entry.2.path, entry.1)
  distinct : catalogue.inputs.entries.Pairwise fun entry other ↦
    ¬ entry.2.path.Same other.2.path

variable {catalogue next : Catalogue} {path : Path} {key other : Key} {input input' : Input}

theorem consistent_empty : ({} : Catalogue).Consistent :=
  ⟨inStep_empty, inStep_empty, rfl, List.Pairwise.nil⟩

/-! ### The cache -/

/-- The key that the cache has for a path leads to an input that is the same file. -/
theorem Consistent.get?_of_inputKey? (h : catalogue.Consistent)
    (hkey : catalogue.inputKey? path = some key) :
    ∃ input, catalogue.inputs.get? key = some input ∧ input.path.Same path := by
  obtain ⟨cached, hcached, rfl⟩ := Option.map_eq_some_iff.mp hkey
  have hsame : cached.1.Same path := by simpa using List.find?_some hcached
  have hmem := List.mem_of_find?_eq_some hcached
  rw [h.keyOfPath_eq] at hmem
  obtain ⟨⟨stored, input⟩, hentry, rfl⟩ := List.mem_map.mp hmem
  exact ⟨input, h.inputs_inStep.get?_eq_some_iff.mpr hentry, hsame⟩

/-- The cache has no key for a path exactly if no input is the same file. -/
theorem Consistent.inputKey?_eq_none_iff (h : catalogue.Consistent) :
    catalogue.inputKey? path = none ↔
      ∀ input ∈ catalogue.inputs.values, ¬ input.path.Same path := by
  rw [inputKey?, Option.map_eq_none_iff, List.find?_eq_none, h.keyOfPath_eq, ← map_snd_entries]
  simp only [List.forall_mem_map, decide_eq_true_eq]

/-- Inputs of the same file are registered under one key. -/
theorem Consistent.key_eq_of_same (h : catalogue.Consistent)
    (hinput : catalogue.inputs.get? key = some input)
    (hinput' : catalogue.inputs.get? other = some input') (hsame : input.path.Same input'.path) :
    key = other := by
  have : Std.Symm fun entry other : Key × Input ↦ ¬ entry.2.path.Same other.2.path :=
    ⟨fun _ _ hdifferent hsame ↦ hdifferent hsame.symm⟩
  by_contra hne
  exact h.distinct.forall (h.inputs_inStep.get?_eq_some_iff.mp hinput)
    (h.inputs_inStep.get?_eq_some_iff.mp hinput') (fun heq ↦ hne (congrArg Prod.fst heq)) hsame

/-- A registered input is settled by its file. -/
theorem Consistent.key_eq_of_path_eq (h : catalogue.Consistent)
    (hkey : catalogue.inputs.contains key)
    (hpath : (catalogue.inputs.get? key).map Input.path =
      (catalogue.inputs.get? other).map Input.path) : key = other := by
  obtain ⟨input, hinput⟩ := exists_get?_of_contains hkey
  rw [hinput, Option.map_some, eq_comm, Option.map_eq_some_iff] at hpath
  obtain ⟨input', hinput', hsame⟩ := hpath
  exact h.key_eq_of_same hinput hinput' (hsame ▸ Path.Same.refl _)

/-! ### Operations -/

/-- An input that is registered keeps its key. -/
theorem Consistent.get?_addInput (h : catalogue.Consistent)
    (hinput : catalogue.inputs.get? key = some input) (path : Path) :
    (catalogue.addInput path).1.inputs.get? key = some input := by
  unfold Catalogue.addInput
  split
  · exact hinput
  · exact h.inputs_inStep.get?_insertWith_of_get? hinput _

/-- A path that is registered leads to an input that is the same file. -/
theorem Consistent.get?_addInput_self (h : catalogue.Consistent) (path : Path) :
    ∃ input, (catalogue.addInput path).1.inputs.get? (catalogue.addInput path).2 = some input ∧
      input.path.Same path := by
  unfold addInput
  split
  next key hkey => exact h.get?_of_inputKey? hkey
  next hkey =>
    refine ⟨{ path, key := catalogue.inputs.nextKey }, ?_, Path.Same.refl path⟩
    simp only [get?_insertWith, if_true]

theorem Consistent.addInput (h : catalogue.Consistent) (path : Path) :
    (catalogue.addInput path).1.Consistent := by
  unfold Catalogue.addInput
  split
  · exact h
  next hkey =>
    rw [h.inputKey?_eq_none_iff] at hkey
    refine ⟨h.inputs_inStep.insertWith _, h.outputs_inStep, ?_, ?_⟩
    · simp [entries_insertWith, h.keyOfPath_eq, h.inputs_inStep.nextKey_eq]
    · rw [entries_insertWith]
      refine List.pairwise_append.mpr ⟨h.distinct, List.pairwise_singleton _ _, ?_⟩
      intro entry hentry added hadded
      rw [List.mem_singleton.mp hadded]
      refine hkey entry.2 ?_
      rw [← map_snd_entries]
      exact List.mem_map_of_mem hentry

theorem Consistent.addOutput (h : catalogue.Consistent) (path : Path) :
    (catalogue.addOutput path).1.Consistent :=
  ⟨h.inputs_inStep, h.outputs_inStep.insertWith fun key ↦ { path, key }, h.keyOfPath_eq,
    h.distinct⟩

theorem Consistent.addBlock (h : catalogue.Consistent) {block : Block}
    (hnext : catalogue.addBlock key block = .ok next) : next.Consistent := by
  obtain ⟨-, -, -, rfl⟩ := addBlock_eq_ok_iff.mp hnext
  exact ⟨h.inputs_inStep, h.outputs_inStep.modify key _, h.keyOfPath_eq, h.distinct⟩

/-- Every catalogue with a history is consistent. -/
theorem consistent_after (operations : List Operation) : (after operations).Consistent :=
  after_induction consistent_empty (fun _ path h ↦ h.addInput path)
    (fun _ path h ↦ h.addOutput path) (fun _ _ _ _ h hnext ↦ h.addBlock hnext) operations

/-! ### Keys -/

/-- All inputs and outputs carry the keys under which they are stored. -/
structure Labelled (catalogue : Catalogue) : Prop where
  inputs : ∀ entry ∈ catalogue.inputs.entries, entry.2.key = entry.1
  outputs : ∀ entry ∈ catalogue.outputs.entries, entry.2.key = entry.1

/-- An input is stored under the key that it is built with. -/
theorem Labelled.addInput (h : catalogue.Labelled) (hconsistent : catalogue.Consistent)
    (path : Path) : (catalogue.addInput path).1.Labelled := by
  unfold Catalogue.addInput
  split
  · exact h
  · refine ⟨fun entry hentry ↦ ?_, h.outputs⟩
    rcases hconsistent.inputs_inStep.mem_entries_insertWith.mp hentry with hold | rfl
    · exact h.inputs entry hold
    · rfl

/-- An output is stored under the key that it is built with. -/
theorem Labelled.addOutput (h : catalogue.Labelled) (hconsistent : catalogue.Consistent)
    (path : Path) : (catalogue.addOutput path).1.Labelled := by
  refine ⟨h.inputs, fun entry hentry ↦ ?_⟩
  rcases hconsistent.outputs_inStep.mem_entries_insertWith.mp hentry with hold | rfl
  · exact h.outputs entry hold
  · rfl

/-- An output keeps its key when a block is appended to it. -/
theorem Labelled.addBlock (h : catalogue.Labelled) {block : Block}
    (hnext : catalogue.addBlock key block = .ok next) : next.Labelled := by
  obtain ⟨-, -, -, rfl⟩ := addBlock_eq_ok_iff.mp hnext
  refine ⟨h.inputs, fun entry hentry ↦ ?_⟩
  obtain ⟨old, hold, hkey, hvalue | hvalue⟩ := exists_of_mem_entries_modify hentry
  · rw [hvalue, hkey]
    exact h.outputs old hold
  · rw [hvalue, hkey]
    exact h.outputs old hold

/-- In every catalogue with a history, inputs and outputs carry their keys. -/
theorem labelled_after (operations : List Operation) : (after operations).Labelled := by
  refine (@after_induction (fun catalogue ↦ catalogue.Consistent ∧ catalogue.Labelled)
    ⟨consistent_empty, by simp, by simp⟩ ?_ ?_ ?_ operations).2
  · exact fun _ path ⟨hconsistent, h⟩ ↦ ⟨hconsistent.addInput path, h.addInput hconsistent path⟩
  · exact fun _ path ⟨hconsistent, h⟩ ↦ ⟨hconsistent.addOutput path, h.addOutput hconsistent path⟩
  · exact fun _ _ _ _ ⟨hconsistent, h⟩ hnext ↦ ⟨hconsistent.addBlock hnext, h.addBlock hnext⟩

end Montage.Media.Catalogue
