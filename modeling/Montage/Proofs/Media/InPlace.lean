import Mathlib.Data.List.Induction
import Montage.Proofs.Media.Consistency
import Montage.Proofs.Media.Growth
import Montage.Proofs.Media.Ranges

/-!
# Calls that change a catalogue in place

An operation returns a new catalogue or a failure, so a failure cannot leave anything behind. A call
that changes a catalogue in place can (`call`): it writes step by step, and what it has written
stays when a later step fails. The one call with several steps appends intervals: for each interval
it registers the recording and then appends the block, which may be refused (`appendRanges`).

On a consistent catalogue no step is refused after the first write
(`Consistent.exists_appendRanges`), because all intervals were checked before and because a
recording that has just been registered is found. So calls in place and operations agree
(`Consistent.call_snd`, `afterCalls_eq_after`). Hence a failed call leaves the catalogue exactly as
it was, other calls only add to it, and every catalogue that calls lead to is sound
(`sound_afterCalls`).
-/

set_option autoImplicit false
set_option relaxedAutoImplicit false

namespace Montage.Media.Catalogue

open Numeric Registry Timing

/-! ### Calls -/

/-- Registers recordings and appends ranges, one after the other. When a range is refused, what was
written before it stays. -/
def appendRanges (output : Key) (filters : List VisualFilter) (catalogue : Catalogue) :
    List (Path × Binary64 × Binary64 × Binary64) → Except Failure Unit × Catalogue
  | [] => (.ok (), catalogue)
  | (source, start, stop, speed) :: ranges =>
    let (registered, input) := catalogue.addInput source
    match registered.addBlock output { input, start, stop, speed, filters } with
    | .ok next => appendRanges output filters next ranges
    | .error failure => (.error failure, registered)

/-- A call that checks everything before it writes. -/
def settle (before : Catalogue) : Except Failure Catalogue → Except Failure Unit × Catalogue
  | .ok after => (.ok (), after)
  | .error failure => (.error failure, before)

/-- The outcome of a call, and the catalogue that it leaves behind. -/
def call (catalogue : Catalogue) : Operation → Except Failure Unit × Catalogue
  | .addInput path => (.ok (), (catalogue.addInput path).1)
  | .addOutput path => (.ok (), (catalogue.addOutput path).1)
  | .addBlock output block => catalogue.settle (catalogue.addBlock output block)
  | .addIntervals output intervals filters =>
    if catalogue.outputs.contains output = false then
      (.error (.unknownOutput output.text), catalogue)
    else match intervals.mapM rangeOf with
      | .error failure => (.error failure, catalogue)
      | .ok ranges => catalogue.appendRanges output filters ranges

/-- The catalogue after calls on the empty one. -/
def afterCalls (operations : List Operation) : Catalogue :=
  operations.foldl (fun catalogue operation ↦ (catalogue.call operation).2) {}

variable {catalogue : Catalogue} {key : Key}
  {ranges : List (Path × Binary64 × Binary64 × Binary64)}

/-! ### No step is refused after a write -/

/-- A range without fault can be appended once its recording is registered. -/
theorem Consistent.exists_addBlock (h : catalogue.Consistent)
    (houtput : catalogue.outputs.contains key) (source : Path) {start stop speed : Binary64}
    (hfault : Block.fault? start stop speed = none) (filters : List VisualFilter) :
    ∃ next, (catalogue.addInput source).1.addBlock key
        { input := (catalogue.addInput source).2, start, stop, speed, filters } = .ok next ∧
      next.Consistent ∧ next.outputs.contains key := by
  obtain ⟨input, hinput, -⟩ := h.get?_addInput_self source
  have hregistered : (catalogue.addInput source).1.inputs.contains (catalogue.addInput source).2 :=
    contains_of_get? hinput
  have houtput' : (catalogue.addInput source).1.outputs.contains key := by
    rwa [outputs_addInput]
  let block : Block := ⟨(catalogue.addInput source).2, start, stop, speed, filters⟩
  have hnext : (catalogue.addInput source).1.addBlock key block = .ok _ :=
    addBlock_eq_ok_iff.mpr ⟨hregistered, hfault, houtput', rfl⟩
  refine ⟨_, hnext, (h.addInput source).addBlock hnext, ?_⟩
  rw [contains_iff, keys_modify, ← contains_iff]
  exact houtput'

/-- Ranges without fault are all appended, in place as by the operation. -/
theorem Consistent.exists_appendRanges (h : catalogue.Consistent)
    (houtput : catalogue.outputs.contains key)
    (hranges : ∀ source start stop speed, (source, start, stop, speed) ∈ ranges →
      Block.fault? start stop speed = none) (filters : List VisualFilter) :
    ∃ next, ranges.foldlM (Catalogue.addRange key filters) catalogue = .ok next ∧
      catalogue.appendRanges key filters ranges = (.ok (), next) := by
  induction ranges generalizing catalogue with
  | nil => exact ⟨catalogue, rfl, rfl⟩
  | cons range ranges ih =>
    obtain ⟨source, start, stop, speed⟩ := range
    obtain ⟨next, hnext, hconsistent, hcontains⟩ := h.exists_addBlock houtput source
      (hranges source start stop speed List.mem_cons_self) filters
    obtain ⟨last, hfold, hplace⟩ := ih hconsistent hcontains fun source start stop speed hmem ↦
      hranges source start stop speed (List.mem_cons_of_mem _ hmem)
    refine ⟨last, ?_, ?_⟩
    · have hrange : catalogue.addRange key filters (source, start, stop, speed) = .ok next := hnext
      rw [List.foldlM_cons, hrange, Failure.ok_bind, hfold]
    · simp only [appendRanges, hnext, hplace]

/-- Appending intervals in place is all or nothing, as the operation is. -/
theorem Consistent.call_addIntervals (h : catalogue.Consistent) (output : Key)
    (intervals : List Interval) (filters : List VisualFilter) :
    catalogue.call (.addIntervals output intervals filters) =
      catalogue.settle (catalogue.addIntervals output intervals filters) := by
  by_cases houtput : catalogue.outputs.contains output = false
  · rw [call, addIntervals, if_pos houtput, if_pos houtput, settle]
  · rw [call, addIntervals, if_neg houtput, if_neg houtput]
    cases hranges : intervals.mapM rangeOf with
    | error failure => rw [Failure.error_bind, settle]
    | ok ranges =>
      obtain ⟨next, hfold, hplace⟩ := h.exists_appendRanges (by simpa using houtput)
        (fun _ _ _ _ ↦ fault?_eq_none_of_mem_ranges hranges) filters
      rw [Failure.ok_bind, hfold, settle]
      exact hplace

@[simp] theorem settle_snd (before : Catalogue) (result : Except Failure Catalogue) :
    (before.settle result).2 = before.orUnchanged result := by
  cases result <;> rfl

/-- A call leaves behind the catalogue that the operation returns. -/
theorem Consistent.call_snd (h : catalogue.Consistent) (operation : Operation) :
    (catalogue.call operation).2 = catalogue.perform operation := by
  cases operation with
  | addInput path => rfl
  | addOutput path => rfl
  | addBlock output block => rw [call, settle_snd, perform]
  | addIntervals output intervals filters => rw [h.call_addIntervals, settle_snd, perform]

/-- A call that fails leaves the catalogue as it was. -/
theorem Consistent.call_snd_of_error (h : catalogue.Consistent) {operation : Operation}
    {failure : Failure} (hcall : (catalogue.call operation).1 = .error failure) :
    (catalogue.call operation).2 = catalogue := by
  have hsettle {result : Except Failure Catalogue}
      (hresult : (catalogue.settle result).1 = .error failure) :
      (catalogue.settle result).2 = catalogue := by
    cases result with
    | ok next => cases hresult
    | error other => rfl
  cases operation with
  | addInput path => cases hcall
  | addOutput path => cases hcall
  | addBlock output block => exact hsettle hcall
  | addIntervals output intervals filters =>
    rw [h.call_addIntervals] at hcall ⊢
    exact hsettle hcall

theorem afterCalls_append_singleton (operations : List Operation) (operation : Operation) :
    afterCalls (operations ++ [operation]) = ((afterCalls operations).call operation).2 := by
  rw [afterCalls, List.foldl_append]
  rfl

/-- Calls lead to the catalogues that operations lead to. -/
theorem afterCalls_eq_after (operations : List Operation) :
    afterCalls operations = after operations := by
  induction operations using List.reverseRecOn with
  | nil => rfl
  | append_singleton operations operation ih =>
    rw [afterCalls_append_singleton, ih, (consistent_after operations).call_snd, after_append]
    rfl

/-! ### Sound catalogues -/

/-- The cache of paths and the registry of inputs are inverse to each other, no file is registered
twice, everything is stored under its own key, and all blocks can be played. -/
structure Sound (catalogue : Catalogue) : Prop where
  /-- A path leads to the key of the input that is the same file. -/
  inputKey?_iff : ∀ path key, catalogue.inputKey? path = some key ↔
    ∃ input, catalogue.inputs.get? key = some input ∧ input.path.Same path
  /-- What the cache holds was registered. -/
  cached : ∀ entry ∈ catalogue.keyOfPath,
    ∃ input, catalogue.inputs.get? entry.2 = some input ∧ input.path.Same entry.1
  /-- What was registered is found in the cache. -/
  registered : ∀ input ∈ catalogue.inputs.values, catalogue.inputKey? input.path = some input.key
  /-- No two inputs are the same file. -/
  distinct : catalogue.inputs.values.Pairwise fun input other ↦ ¬ input.path.Same other.path
  /-- An input carries the key under which it is found. -/
  inputs : ∀ entry ∈ catalogue.inputs.entries,
    entry.2.key = entry.1 ∧ catalogue.inputs.get? entry.1 = some entry.2
  /-- An output carries the key under which it is found. -/
  outputs : ∀ entry ∈ catalogue.outputs.entries,
    entry.2.key = entry.1 ∧ catalogue.outputs.get? entry.1 = some entry.2
  /-- A block names a registered input, its range is finite and does not end before it starts, and
  its speed is finite and positive. -/
  blocks : ∀ output ∈ catalogue.outputs.values, ∀ block ∈ output.blocks,
    catalogue.inputs.contains block.input ∧
      (block.start.isFinite ∧ block.stop.isFinite ∧ block.start ≤ block.stop) ∧
      (block.speed.isFinite ∧ Binary64.zero false < block.speed)

/-- The cache of a consistent catalogue has the key of every path that is registered. -/
theorem Consistent.inputKey?_eq_some_iff (h : catalogue.Consistent) {path : Path} :
    catalogue.inputKey? path = some key ↔
      ∃ input, catalogue.inputs.get? key = some input ∧ input.path.Same path := by
  refine ⟨h.get?_of_inputKey?, ?_⟩
  rintro ⟨input, hinput, hsame⟩
  cases hfound : catalogue.inputKey? path with
  | none =>
    exact absurd hsame (h.inputKey?_eq_none_iff.mp hfound input (mem_values_of_get? hinput))
  | some other =>
    obtain ⟨input', hinput', hsame'⟩ := h.get?_of_inputKey? hfound
    rw [h.key_eq_of_same hinput' hinput (hsame'.trans hsame.symm)]

/-- An entry of the registry of inputs is found under its key. -/
theorem Consistent.get?_inputs (h : catalogue.Consistent) {entry : Key × Input}
    (hentry : entry ∈ catalogue.inputs.entries) : catalogue.inputs.get? entry.1 = some entry.2 :=
  h.inputs_inStep.get?_eq_some_iff.mpr hentry

/-- Every catalogue that operations lead to is sound. -/
theorem sound_after (operations : List Operation) : (after operations).Sound where
  inputKey?_iff _ _ := (consistent_after operations).inputKey?_eq_some_iff
  cached := by
    rw [(consistent_after operations).keyOfPath_eq]
    refine List.forall_mem_map.mpr fun entry hentry ↦ ?_
    exact ⟨entry.2, (consistent_after operations).get?_inputs hentry, Path.Same.refl _⟩
  registered := by
    rw [← map_snd_entries]
    refine List.forall_mem_map.mpr fun entry hentry ↦ ?_
    rw [(labelled_after operations).inputs entry hentry]
    exact (consistent_after operations).inputKey?_eq_some_iff.mpr
      ⟨entry.2, (consistent_after operations).get?_inputs hentry, Path.Same.refl _⟩
  distinct := by
    rw [← map_snd_entries]
    exact List.pairwise_map.mpr (consistent_after operations).distinct
  inputs entry hentry :=
    ⟨(labelled_after operations).inputs entry hentry,
      (consistent_after operations).get?_inputs hentry⟩
  outputs entry hentry :=
    ⟨(labelled_after operations).outputs entry hentry,
      (consistent_after operations).outputs_inStep.get?_eq_some_iff.mpr hentry⟩
  blocks output houtput block hblock :=
    ⟨wired_after operations output houtput block hblock,
      fault?_eq_none_iff.mp (fault?_eq_none_after operations output houtput block hblock)⟩

/-- Calls in place lead to the catalogues that operations lead to, and these are sound. A further
call that fails leaves all of the catalogue exactly as it was, a call that succeeds only adds to it,
and so do any number of further calls, whether they fail or succeed. -/
theorem sound_afterCalls (operations : List Operation) :
    afterCalls operations = after operations ∧ (afterCalls operations).Sound ∧
      (∀ operation, match (afterCalls operations).call operation with
        | (.error _, next) => next = afterCalls operations
        | (.ok (), next) => (afterCalls operations).GrowsTo next) ∧
      ∀ more, (afterCalls operations).GrowsTo (afterCalls (operations ++ more)) := by
  rw [afterCalls_eq_after]
  refine ⟨rfl, sound_after operations, fun operation ↦ ?_, fun more ↦ ?_⟩
  · split
    next failure next hcall =>
      have hsame := (consistent_after operations).call_snd_of_error (congrArg Prod.fst hcall)
      rwa [hcall] at hsame
    next next hcall =>
      have hnext : next = (after operations).perform operation := by
        rw [← (consistent_after operations).call_snd, hcall]
      rw [hnext]
      exact growsTo_perform _ operation
  · rw [afterCalls_eq_after]
    exact growsTo_after operations more

end Montage.Media.Catalogue
