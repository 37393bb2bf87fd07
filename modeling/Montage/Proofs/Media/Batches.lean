import Montage.Proofs.Composition.Parts
import Montage.Proofs.Media.InPlace

/-!
# Appending many intervals at once

A call that appends intervals to an output checks all of them before it writes anything, and then
registers recordings and appends blocks one after the other (`Catalogue.appendIntervals`). It
answers with the number of blocks if the output is registered and every interval is usable
(`Interval.Usable`). In that case each interval has become one block at the end of the output, the
recordings that were not known are registered in the order of their first use (`newFiles`), and
nothing else is different (`Catalogue.Extends`). Otherwise the call fails with the flaw of the first
interval that is not usable (`Interval.Flaw`), and the catalogue is as it was.
`appendIntervals_all_or_nothing` says all of this.

The proof follows the writes: one more usable interval extends the catalogue by one more block
(`Extends.addRange`), hence so does a whole list of them (`exists_extends`).
-/

set_option autoImplicit false
set_option relaxedAutoImplicit false

/-! ### Usable intervals -/

namespace Montage.Timing

open Numeric Media Media.Catalogue Montage.Timing.Interval

/-- The interval has a recording and both bounds, its range is finite and does not end before it
starts, and its speed is finite and positive. -/
def Interval.Usable (i : Interval) : Prop :=
  ∃ source start stop, i.source = some source ∧ i.start = some start ∧ i.stop = some stop ∧
    (start.isFinite ∧ stop.isFinite ∧ start ≤ stop) ∧
      (i.speed.isFinite ∧ Binary64.zero false < i.speed)

/-- What keeps an interval from being usable. What it lacks comes before its range, and its range
before its speed. -/
inductive Interval.Flaw (i : Interval) : BlockFault → Prop
  /-- It lacks the recording or a bound. -/
  | incomplete : i.source = none ∨ i.start = none ∨ i.stop = none → Flaw i (.incomplete i)
  /-- Its range is infinite or ends before it starts. -/
  | unordered {start stop : Binary64} :
      i.source.isSome → i.start = some start → i.stop = some stop →
      ¬(start.isFinite ∧ stop.isFinite ∧ start ≤ stop) → Flaw i (.unordered start stop)
  /-- Its speed is infinite or not positive. -/
  | unusableSpeed {start stop : Binary64} :
      i.source.isSome → i.start = some start → i.stop = some stop →
      (start.isFinite ∧ stop.isFinite ∧ start ≤ stop) →
      ¬(i.speed.isFinite ∧ Binary64.zero false < i.speed) → Flaw i (.unusableSpeed i.speed)

variable {i : Interval} {failure : Failure}

/-- The intervals that make ranges are the usable ones. -/
theorem usable_iff : i.Usable ↔ ∃ range, rangeOf i = .ok range := by
  constructor
  · rintro ⟨source, start, stop, hsource, hstart, hstop, hfault⟩
    exact ⟨_, rangeOf_eq_ok_iff.mpr ⟨hsource, hstart, hstop, rfl, fault?_eq_none_iff.mpr hfault⟩⟩
  · rintro ⟨⟨source, start, stop, speed⟩, hrange⟩
    obtain ⟨hsource, hstart, hstop, rfl, hfault⟩ := rangeOf_eq_ok_iff.mp hrange
    exact ⟨source, start, stop, hsource, hstart, hstop, fault?_eq_none_iff.mp hfault⟩

/-- An interval that makes no range fails with a flaw that it has. -/
theorem exists_flaw_of_rangeOf (h : rangeOf i = .error failure) :
    ∃ fault, i.Flaw fault ∧ failure = .invalidBlock fault := by
  unfold rangeOf at h
  split at h
  next start stop source hbounds hsource =>
    obtain ⟨hstart, hstop⟩ := bounds?_eq_some_iff.mp hbounds
    have hsome : i.source.isSome := Option.isSome_of_eq_some hsource
    split at h
    next fault hfault =>
      cases h
      refine ⟨fault, ?_, rfl⟩
      unfold Block.fault? at hfault
      split_ifs at hfault with hrange hspeed
      · cases hfault
        exact .unusableSpeed hsome hstart hstop hrange hspeed
      · cases hfault
        exact .unordered hsome hstart hstop hrange
    · cases h
  next hmissing =>
    cases h
    refine ⟨_, .incomplete ?_, rfl⟩
    cases hsource : i.source with
    | none => exact Or.inl rfl
    | some source =>
      cases hstart : i.start with
      | none => exact Or.inr (Or.inl rfl)
      | some start =>
        cases hstop : i.stop with
        | none => exact Or.inr (Or.inr rfl)
        | some stop =>
          exact absurd hsource (hmissing start stop source
            (bounds?_eq_some_iff.mpr ⟨hstart, hstop⟩))

/-- An interval with a flaw is not usable. -/
theorem Interval.Flaw.not_usable {fault : BlockFault} (h : i.Flaw fault) : ¬ i.Usable := by
  rintro ⟨source, start, stop, hsource, hstart, hstop, hrange, hspeed⟩
  cases h with
  | incomplete hmissing => simp [hsource, hstart, hstop] at hmissing
  | unordered _ hstart' hstop' hnot =>
    obtain rfl := Option.some.inj (hstart.symm.trans hstart')
    obtain rfl := Option.some.inj (hstop.symm.trans hstop')
    exact hnot hrange
  | unusableSpeed _ _ _ _ hnot => exact hnot hspeed

end Montage.Timing

namespace Montage.Media

open Numeric Registry Timing Montage.Timing.Interval

/-! ### New files -/

/-- The files that are not the same as a known one, each as it is written first. -/
def newFiles (known sources : List Path) : List Path :=
  (firstOfEach sources).filter fun source ↦ ∀ file ∈ known, ¬ file.Same source

variable {known sources : List Path} {source : Path}

/-- One more file is new unless it is known or the same as an earlier one. -/
theorem newFiles_concat (known sources : List Path) (source : Path) :
    newFiles known (sources ++ [source]) =
      if ∃ file ∈ known ++ newFiles known sources, file.Same source then newFiles known sources
      else newFiles known sources ++ [source] := by
  have hmem : (∃ file ∈ known ++ newFiles known sources, file.Same source) ↔
      (∃ file ∈ known, file.Same source) ∨ ∃ file ∈ firstOfEach sources, file.Same source := by
    simp only [List.mem_append, or_and_right, exists_or]
    refine ⟨Or.imp_right ?_, fun h ↦ h.elim Or.inl ?_⟩
    · rintro ⟨file, hfile, hsame⟩
      exact ⟨file, List.mem_of_mem_filter hfile, hsame⟩
    · rintro ⟨file, hfile, hsame⟩
      by_cases hknown : ∃ other ∈ known, other.Same file
      · obtain ⟨other, hother, hfile⟩ := hknown
        exact Or.inl ⟨other, hother, hfile.trans hsame⟩
      · refine Or.inr ⟨file, List.mem_filter.mpr ⟨hfile, decide_eq_true ?_⟩, hsame⟩
        exact fun other hother hother' ↦ hknown ⟨other, hother, hother'⟩
  rw [newFiles, firstOfEach_concat]
  by_cases hearlier : ∃ file ∈ firstOfEach sources, file.Same source
  · rw [if_pos hearlier, if_pos (hmem.mpr (Or.inr hearlier)), newFiles]
  · rw [if_neg hearlier, List.filter_append, ← newFiles]
    by_cases hknown : ∃ file ∈ known, file.Same source
    · rw [if_pos (hmem.mpr (Or.inl hknown)), List.filter_cons_of_neg, List.filter_nil,
        List.append_nil]
      simpa using hknown
    · rw [if_neg fun h ↦ (hmem.mp h).elim hknown hearlier, List.filter_cons_of_pos, List.filter_nil]
      simpa using hknown

/-! ### Catalogues with more blocks -/

/-- The output with more blocks at its end. -/
def appendBlocks (blocks : List Block) (output : Output) : Output :=
  { output with blocks := output.blocks ++ blocks }

namespace Catalogue

/-- The second catalogue is the first one with one more block for each interval at the end of one
output, and with the recordings of the intervals registered. -/
structure Extends (before : Catalogue) (key : Key) (filters : List VisualFilter)
    (intervals : List Interval) (after : Catalogue) : Prop where
  /-- The cache of paths and the counters are in step with what is registered. -/
  consistent : after.Consistent
  /-- Each interval is played by one block, in order, and all other outputs are as they were. -/
  outputs : ∃ blocks, after.outputs = before.outputs.modify key (appendBlocks blocks) ∧
    List.Forall₂ (Block.Plays after.inputs filters) intervals blocks
  /-- The inputs are the old ones and then one for each new file, in order. -/
  inputs : ∃ added, after.inputs.values = before.inputs.values ++ added ∧
    added.map Input.path = newFiles (before.inputs.values.map Input.path) (recordings intervals)

/-- Appends intervals to an output in place and answers with the number of blocks. -/
def appendIntervals (catalogue : Catalogue) (output : Key) (intervals : List Interval)
    (filters : List VisualFilter) : Except Failure Nat × Catalogue :=
  let (outcome, next) := catalogue.call (.addIntervals output intervals filters)
  (outcome.map fun () ↦ intervals.length, next)

variable {before catalogue : Catalogue} {key : Key} {filters : List VisualFilter}
  {intervals : List Interval} {i : Interval}

/-- Registering a file adds an input exactly if no input is the same file. -/
theorem Consistent.values_addInput (h : catalogue.Consistent) (path : Path) :
    ∃ added, (catalogue.addInput path).1.inputs.values = catalogue.inputs.values ++ added ∧
      added.map Input.path =
        if ∃ file ∈ catalogue.inputs.values.map Input.path, file.Same path then [] else [path] := by
  have hnone : catalogue.inputKey? path = none ↔
      ¬ ∃ file ∈ catalogue.inputs.values.map Input.path, file.Same path := by
    rw [h.inputKey?_eq_none_iff]
    simp
  unfold Catalogue.addInput
  split
  next key hkey =>
    refine ⟨[], (List.append_nil _).symm, ?_⟩
    rw [if_pos, List.map_nil]
    by_contra hdifferent
    rw [hnone.mpr hdifferent] at hkey
    cases hkey
  next hkey =>
    refine ⟨_, values_insertWith _ _, ?_⟩
    rw [if_neg (hnone.mp hkey), List.map_singleton]

theorem extends_nil (h : before.Consistent) (key : Key) (filters : List VisualFilter) :
    before.Extends key filters [] before := by
  have hsame : before.outputs.modify key (appendBlocks []) = before.outputs := by
    have hid : appendBlocks [] = id := funext fun output ↦ by simp [appendBlocks]
    rw [hid, modify_id]
  exact ⟨h, ⟨[], hsame.symm, .nil⟩, ⟨[], (List.append_nil _).symm, rfl⟩⟩

/-- One more usable interval becomes one more block. -/
theorem Extends.addRange (h : before.Extends key filters intervals catalogue)
    (hkey : before.outputs.contains key) {range : Path × Binary64 × Binary64 × Binary64}
    (hrange : rangeOf i = .ok range) :
    ∃ next, catalogue.addRange key filters range = .ok next ∧
      before.Extends key filters (intervals ++ [i]) next := by
  obtain ⟨source, start, stop, speed⟩ := range
  obtain ⟨hsource, hstart, hstop, hspeed, hfault⟩ := rangeOf_eq_ok_iff.mp hrange
  obtain ⟨blocks, houtputs, hplays⟩ := h.outputs
  obtain ⟨added, hvalues, hadded⟩ := h.inputs
  have hcontains : catalogue.outputs.contains key := by
    rw [houtputs, contains_iff, keys_modify, ← contains_iff]
    exact hkey
  obtain ⟨input, hinput, hsame⟩ := h.consistent.get?_addInput_self source
  obtain ⟨next, hnext, hconsistent, -⟩ :=
    h.consistent.exists_addBlock hcontains source hfault filters
  obtain ⟨-, -, -, hresult⟩ := addBlock_eq_ok_iff.mp hnext
  have hinputs : next.inputs = (catalogue.addInput source).1.inputs := by rw [hresult]
  let block : Block := ⟨(catalogue.addInput source).2, start, stop, speed, filters⟩
  refine ⟨next, hnext, hconsistent, ⟨blocks ++ [block], ?_, ?_⟩, ?_⟩
  · rw [hresult]
    dsimp only
    rw [outputs_addInput, houtputs, modify_modify]
    congr 1
    funext output
    simp only [Function.comp_apply, appendBlock, appendBlocks, List.append_assoc]
    rfl
  · rw [hinputs]
    refine forall₂_concat_left_iff.mpr ⟨blocks, _, rfl, hplays.imp fun _ _ hblock ↦
      h.consistent.plays_addInput hblock source, hstart, hstop, hspeed, rfl, source, input, hsource,
      hinput, hsame⟩
  · obtain ⟨last, hlast, hpath⟩ := h.consistent.values_addInput source
    refine ⟨added ++ last, by rw [hinputs, hlast, hvalues, List.append_assoc], ?_⟩
    have hrecordings : recordings (intervals ++ [i]) = recordings intervals ++ [source] := by
      simp [recordings, hsource]
    rw [List.map_append, hpath, hadded, hrecordings, newFiles_concat, hvalues, List.map_append,
      hadded]
    split_ifs
    · exact List.append_nil _
    · rfl

/-- Usable intervals become blocks of a registered output. -/
theorem exists_extends (h : before.Consistent) (hkey : before.outputs.contains key)
    (filters : List VisualFilter) (husable : ∀ i ∈ intervals, i.Usable) :
    ∃ after, before.addIntervals key intervals filters = .ok after ∧
      before.Extends key filters intervals after := by
  have hregistered : ¬ before.outputs.contains key = false := by simp [hkey]
  rw [addIntervals, if_neg hregistered]
  clear hregistered
  induction intervals using List.reverseRecOn with
  | nil => exact ⟨before, rfl, extends_nil h key filters⟩
  | append_singleton intervals i ih =>
    obtain ⟨middle, hmiddle, hextends⟩ := ih fun other hother ↦
      husable other (List.mem_append_left _ hother)
    obtain ⟨range, hrange⟩ :=
      usable_iff.mp (husable i (List.mem_append_right _ (List.mem_singleton_self i)))
    obtain ⟨ranges, hranges, hfold⟩ := Failure.bind_eq_ok.mp hmiddle
    obtain ⟨after, hafter, hextends⟩ := hextends.addRange hkey hrange
    refine ⟨after, ?_, hextends⟩
    have hall : (intervals ++ [i]).mapM rangeOf = .ok (ranges ++ [range]) := by
      rw [List.mapM_append, hranges, Failure.ok_bind, List.mapM_cons, hrange, Failure.ok_bind]
      rfl
    rw [hall, Failure.ok_bind, List.foldlM_append, hfold, Failure.ok_bind, List.foldlM_cons, hafter,
      Failure.ok_bind]
    rfl

/-- Why a call that appends intervals fails: the output is not registered, or it is and the first
interval that is not usable has a flaw. -/
inductive Refusal (catalogue : Catalogue) (key : Key) (intervals : List Interval) : Failure → Prop
  /-- There is no output of this key. -/
  | unknown : catalogue.outputs.contains key = false →
      Refusal catalogue key intervals (.unknownOutput key.text)
  /-- An interval has a flaw, and all earlier ones are usable. -/
  | flawed {usable rest : List Interval} {i : Interval} {fault : BlockFault} :
      catalogue.outputs.contains key → intervals = usable ++ i :: rest →
      (∀ other ∈ usable, other.Usable) → i.Flaw fault →
      Refusal catalogue key intervals (.invalidBlock fault)

/-- What is refused cannot be appended. -/
theorem Refusal.not_usable {failure : Failure} (h : catalogue.Refusal key intervals failure) :
    ¬(catalogue.outputs.contains key ∧ ∀ i ∈ intervals, i.Usable) := by
  rintro ⟨hkey, husable⟩
  cases h with
  | unknown hunknown =>
    rw [hkey] at hunknown
    cases hunknown
  | flawed _ hintervals _ hflaw =>
    refine hflaw.not_usable (husable _ ?_)
    rw [hintervals]
    exact List.mem_append_right _ List.mem_cons_self

/-- Intervals that are not appended are refused for a reason. -/
theorem exists_extends_or_refusal (h : catalogue.Consistent) (key : Key)
    (intervals : List Interval) (filters : List VisualFilter) :
    ((catalogue.outputs.contains key ∧ ∀ i ∈ intervals, i.Usable) ∧
        ∃ after, catalogue.addIntervals key intervals filters = .ok after ∧
          catalogue.Extends key filters intervals after) ∨
      ∃ failure, catalogue.addIntervals key intervals filters = .error failure ∧
        catalogue.Refusal key intervals failure := by
  by_cases hkey : catalogue.outputs.contains key = false
  · exact Or.inr ⟨_, if_pos hkey, .unknown hkey⟩
  · have hregistered : catalogue.outputs.contains key := by simpa using hkey
    rcases Failure.forall_ok_or_exists_first_error rangeOf intervals with
      hall | ⟨usable, i, rest, failure, rfl, husable, hi⟩
    · have husable : ∀ i ∈ intervals, i.Usable := fun i hi ↦ usable_iff.mpr (hall i hi)
      exact Or.inl ⟨⟨hregistered, husable⟩, exists_extends h hregistered filters husable⟩
    · obtain ⟨fault, hflaw, rfl⟩ := exists_flaw_of_rangeOf hi
      refine Or.inr ⟨_, ?_, .flawed hregistered rfl
        (fun other hother ↦ usable_iff.mpr (husable other hother)) hflaw⟩
      rw [addIntervals, if_neg hkey, Failure.mapM_eq_error husable hi, Failure.error_bind]

/-- A call that appends intervals answers with their number exactly if the output is registered and
all of them are usable. Then it leaves behind what the operation returns: each interval has become a
block at the end of the output, in order, and the recordings that are new were registered. Otherwise
the call is refused, as the operation is, for want of the output or for a flaw of the first interval
that is not usable, and leaves the catalogue exactly as it was. -/
theorem appendIntervals_all_or_nothing (operations : List Operation) (key : Key)
    (intervals : List Interval) (filters : List VisualFilter) :
    let before := afterCalls operations
    let (answer, after) := before.appendIntervals key intervals filters
    (answer = .ok intervals.length ↔
        before.outputs.contains key ∧ ∀ i ∈ intervals, i.Usable) ∧
      (answer = .ok intervals.length →
        before.addIntervals key intervals filters = .ok after ∧
          before.Extends key filters intervals after) ∧
      (answer ≠ .ok intervals.length → ∃ failure, answer = .error failure ∧
        before.addIntervals key intervals filters = .error failure ∧
          before.Refusal key intervals failure ∧ after = before) := by
  have hconsistent : (afterCalls operations).Consistent := by
    rw [afterCalls_eq_after]
    exact consistent_after operations
  intro before
  rw [appendIntervals, hconsistent.call_addIntervals]
  rcases exists_extends_or_refusal hconsistent key intervals filters with
    ⟨husable, after, hafter, hextends⟩ | ⟨failure, hfailure, hrefusal⟩
  · rw [hafter]
    exact ⟨iff_of_true rfl husable, fun _ ↦ ⟨rfl, hextends⟩, fun h ↦ absurd rfl h⟩
  · rw [hfailure]
    refine ⟨iff_of_false ?_ hrefusal.not_usable, ?_, fun _ ↦ ⟨_, rfl, rfl, hrefusal, rfl⟩⟩
    · rintro ⟨⟩
    · rintro ⟨⟩

end Catalogue

end Montage.Media
