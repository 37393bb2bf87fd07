import Mathlib.Data.List.Basic
import Montage.Composition
import Montage.Proofs.Media.Ranges
import Montage.Proofs.Timing.Coverage
import Montage.Proofs.Timing.Recording

/-!
# What keeps a run from being planned

A run can be planned if every slot of it has both bounds and does not end before it starts
(`Timeline.Playable`). Otherwise there is exactly one obstacle (`Timeline.Obstacle`): no file
mentions the run, or else a slot lacks a bound, or else a slot is unordered; of several such slots
it is the first in the order of playback.

On a sound timeline resolution brings no further obstacles and removes none. The fragments of an
ordered interval all make usable blocks (`Interval.Sound.rangeOf_fragment`), and an unordered
interval is its own only fragment (`Interval.Sound.rangeOf_unordered`). So the fragments of a
playable run are all usable (`Timeline.Playable.rangeOf`), and the obstacle of any other run is what
appending it to an output ends with (`Timeline.Obstacle.addRun`).
-/

set_option autoImplicit false
set_option relaxedAutoImplicit false

namespace Montage.Timing

open Numeric Media Media.Catalogue Montage.Timing.Interval

/-! ### Bounds of a slot -/

/-- The bound is the first one that the interval lacks. -/
def Interval.Lacks (i : Interval) : Endpoint → Prop
  | .start => i.start = none
  | .stop => i.start ≠ none ∧ i.stop = none

/-- The interval has both bounds and does not end before it starts. -/
def Interval.Ordered (i : Interval) : Prop :=
  ∃ start stop, i.bounds? = some (start, stop) ∧ ¬ stop < start

variable {i f : Interval} {start stop : Binary64} {missing : Endpoint} {changes : List SpeedChange}

theorem Interval.missing?_eq_some_iff : i.missing? = some missing ↔ i.Lacks missing := by
  obtain ⟨start?, stop?, source, speed⟩ := i
  cases start? <;> cases stop? <;> cases missing <;> simp [missing?, Lacks]

theorem Interval.missing?_eq_none_iff : i.missing? = none ↔ i.bounds? ≠ none := by
  obtain ⟨start?, stop?, source, speed⟩ := i
  cases start? <;> cases stop? <;> simp [missing?, bounds?]

theorem Interval.Ordered.bounds?_ne_none (h : i.Ordered) : i.bounds? ≠ none := by
  obtain ⟨start, stop, hbounds, -⟩ := h
  rw [hbounds]
  exact Option.some_ne_none _

/-! ### Usable fragments -/

theorem fault?_eq_none {speed : Binary64} (hstart : start.isFinite) (hstop : stop.isFinite)
    (hle : start ≤ stop) (hspeed : IsSpeed speed) : Block.fault? start stop speed = none :=
  fault?_eq_none_iff.mpr ⟨⟨hstart, hstop, hle⟩, hspeed⟩

theorem fault?_eq_unordered {speed : Binary64} (hlt : stop < start) :
    Block.fault? start stop speed = some (.unordered start stop) := by
  rw [Block.fault?, if_pos]
  exact fun h ↦ Binary64.not_lt_of_le h.2.2 hlt

/-- A sound interval with a start that is at or before its end is usable. -/
theorem Interval.Sound.rangeOf_eq_ok (h : i.Sound) (hbounds : i.bounds? = some (start, stop))
    (hle : ¬ stop < start) : ∃ range, rangeOf i = .ok range := by
  obtain ⟨hstart, hstop⟩ := bounds?_eq_some_iff.mp hbounds
  obtain ⟨source, hsource⟩ :=
    Option.isSome_iff_exists.mp (h.source_isSome (Or.inl (by rw [hstart]; rfl)))
  have hstartFinite := h.start_finite start hstart
  have hstopFinite := h.stop_finite stop hstop
  exact ⟨_, rangeOf_eq_ok_iff.mpr ⟨hsource, hstart, hstop, rfl,
    fault?_eq_none hstartFinite hstopFinite
      (Binary64.le_of_not_lt (Binary64.ne_nan_of_isFinite hstartFinite)
        (Binary64.ne_nan_of_isFinite hstopFinite) hle) h.isSpeed⟩⟩

theorem resolve_of_not_lt (hbounds : i.bounds? = some (start, stop)) (hlt : ¬ start < stop)
    (changes : List SpeedChange) : resolve [i] changes = [i] := by
  refine resolve_of_spans_nothing (fun source a b hspans ↦ ?_) changes
  have hsame := hspans.bounds?_eq.symm.trans hbounds
  rw [Option.some.injEq, Prod.mk.injEq] at hsame
  obtain ⟨rfl, rfl⟩ := hsame
  exact hlt hspans.start_lt_stop

/-- The fragments of an ordered interval are usable. -/
theorem Interval.Sound.rangeOf_fragment (h : i.Sound) (hchanges : ∀ c ∈ changes, c.Sound)
    (hordered : i.Ordered) (hf : f ∈ resolve [i] changes) : ∃ range, rangeOf f = .ok range := by
  obtain ⟨start, stop, hbounds, hle⟩ := hordered
  by_cases hlt : start < stop
  · obtain ⟨source, hsource⟩ : ∃ source, i.source = some source :=
      Option.isSome_iff_exists.mp (h.source_isSome
        (Or.inl (by rw [(bounds?_eq_some_iff.mp hbounds).1]; rfl)))
    have htiling := (Tiling.last (Spans.of_bounds? hsource hbounds hlt)).resolve changes
    obtain ⟨a, b, hspans, -⟩ := htiling.exists_spans hf
    exact (h.of_mem_resolve hchanges hf).rangeOf_eq_ok hspans.bounds?_eq
      fun hba ↦ Binary64.lt_irrefl a (Binary64.lt_trans hspans.start_lt_stop hba)
  · rw [resolve_of_not_lt hbounds hlt, List.mem_singleton] at hf
    rw [hf]
    exact h.rangeOf_eq_ok hbounds hle

/-- An unordered interval is its own only fragment and is not usable. -/
theorem Interval.Sound.rangeOf_unordered (h : i.Sound) (hbounds : i.bounds? = some (start, stop))
    (hlt : stop < start) (changes : List SpeedChange) :
    resolve [i] changes = [i] ∧ rangeOf i = .error (.invalidBlock (.unordered start stop)) := by
  obtain ⟨source, hsource⟩ : ∃ source, i.source = some source :=
    Option.isSome_iff_exists.mp (h.source_isSome
      (Or.inl (by rw [(bounds?_eq_some_iff.mp hbounds).1]; rfl)))
  refine ⟨resolve_of_not_lt hbounds (fun hstart ↦ ?_) changes, ?_⟩
  · exact Binary64.lt_irrefl start (Binary64.lt_trans hstart hlt)
  · rw [rangeOf, hbounds, hsource]
    simp only [fault?_eq_unordered hlt]

/-! ### Playable runs and obstacles -/

/-- There is a run of this code, and all of its slots are ordered. -/
def Timeline.Playable (timeline : Timeline) (code : RunCode) : Prop :=
  ∃ run, timeline.run? code = some run ∧ ∀ entry ∈ run.slots, entry.2.Ordered

/-- Why a run cannot be planned. A missing run comes before a missing bound, a missing bound before
unordered bounds, and a slot before the slots that are played after it. -/
inductive Timeline.Obstacle (timeline : Timeline) (code : RunCode) : Failure → Prop
  /-- There is no run of this code. -/
  | unknown : timeline.run? code = none → Obstacle timeline code (.unknownRun code.toText)
  /-- A slot lacks a bound, and no earlier one does. -/
  | incomplete {run : Run} {before after : List (Slot × Interval)} {slot : Slot} {i : Interval}
      {missing : Endpoint} :
      timeline.run? code = some run → run.slots = before ++ (slot, i) :: after →
      (∀ entry ∈ before, entry.2.bounds? ≠ none) → i.Lacks missing →
      Obstacle timeline code (.incompleteInterval code.toText slot.toText missing)
  /-- All slots have bounds; one ends before it starts, and no earlier one does. -/
  | unordered {run : Run} {before after : List (Slot × Interval)} {slot : Slot} {i : Interval}
      {start stop : Binary64} :
      timeline.run? code = some run → (∀ entry ∈ run.slots, entry.2.bounds? ≠ none) →
      run.slots = before ++ (slot, i) :: after → (∀ entry ∈ before, entry.2.Ordered) →
      i.bounds? = some (start, stop) → stop < start →
      Obstacle timeline code (.invalidBlock (.unordered start stop))

/-- The fragments of a run, in the order of playback. -/
def Timeline.fragments (timeline : Timeline) (code : RunCode) : List Interval :=
  match timeline.run? code with
  | some run => resolve run.intervals timeline.changes
  | none => []

variable {timeline : Timeline} {code : RunCode} {run : Run} {failure : Failure}

theorem Run.map_snd_slots (run : Run) : run.slots.map Prod.snd = run.intervals := by
  simp [slots, intervals, Function.comp_def]

theorem Run.firstMissing?_eq_none_iff :
    run.firstMissing? = none ↔ ∀ entry ∈ run.slots, entry.2.bounds? ≠ none := by
  simp [firstMissing?, Interval.missing?_eq_none_iff]

theorem Run.firstMissing?_eq_some_iff {slot : Slot} :
    run.firstMissing? = some (slot, missing) ↔
      ∃ before i after, run.slots = before ++ (slot, i) :: after ∧
        (∀ entry ∈ before, entry.2.bounds? ≠ none) ∧ i.Lacks missing := by
  rw [firstMissing?, List.findSome?_eq_some_iff]
  constructor
  · rintro ⟨before, ⟨slot', i⟩, after, hslots, hfound, hbefore⟩
    obtain ⟨endpoint, hendpoint, heq⟩ := Option.map_eq_some_iff.mp hfound
    obtain ⟨rfl, rfl⟩ := Prod.mk.inj heq
    refine ⟨before, i, after, hslots, fun entry hentry ↦ ?_,
      Interval.missing?_eq_some_iff.mp hendpoint⟩
    exact Interval.missing?_eq_none_iff.mp (Option.map_eq_none_iff.mp (hbefore entry hentry))
  · rintro ⟨before, i, after, hslots, hbefore, hlacks⟩
    refine ⟨before, (slot, i), after, hslots, ?_, fun entry hentry ↦ ?_⟩
    · simp only [Interval.missing?_eq_some_iff.mpr hlacks, Option.map_some]
    · simp only [Interval.missing?_eq_none_iff.mpr (hbefore entry hentry), Option.map_none]

/-- A run is playable, or there is an obstacle. -/
theorem Timeline.playable_or_obstacle (timeline : Timeline) (code : RunCode) :
    timeline.Playable code ∨ ∃ failure, timeline.Obstacle code failure := by
  cases hrun : timeline.run? code with
  | none => exact Or.inr ⟨_, .unknown hrun⟩
  | some run =>
    cases hmissing : run.firstMissing? with
    | some found =>
      obtain ⟨before, i, after, hslots, hbefore, hlacks⟩ :=
        Run.firstMissing?_eq_some_iff.mp hmissing
      exact Or.inr ⟨_, .incomplete hrun hslots hbefore hlacks⟩
    | none =>
      have hcomplete := Run.firstMissing?_eq_none_iff.mp hmissing
      have hordered (entry : Slot × Interval)
          (h : (entry.2.bounds?.any fun bounds ↦ bounds.2 < bounds.1) = false)
          (hentry : entry.2.bounds? ≠ none) : entry.2.Ordered := by
        obtain ⟨bounds, hbounds⟩ := Option.ne_none_iff_exists'.mp hentry
        exact ⟨bounds.1, bounds.2, hbounds, by simpa [hbounds] using h⟩
      cases hfound : run.slots.find? fun entry ↦
        entry.2.bounds?.any fun bounds ↦ bounds.2 < bounds.1 with
      | none =>
        refine Or.inl ⟨run, hrun, fun entry hentry ↦ ?_⟩
        refine hordered entry ?_ (hcomplete entry hentry)
        simpa using List.find?_eq_none.mp hfound entry hentry
      | some entry =>
        obtain ⟨hunordered, before, after, hslots, hbefore⟩ :=
          List.find?_eq_some_iff_append.mp hfound
        obtain ⟨⟨start, stop⟩, hbounds, hlt⟩ := (Option.any_eq_true _ _).mp hunordered
        refine Or.inr ⟨_, .unordered hrun hcomplete hslots
          (fun other hother ↦ ?_) hbounds (of_decide_eq_true hlt)⟩
        refine hordered other (by simpa using hbefore other hother) (hcomplete other ?_)
        rw [hslots]
        exact List.mem_append_left _ hother

/-! ### Planning one run -/

theorem fragments_eq_flatMap (hrun : timeline.run? code = some run) :
    timeline.fragments code =
      run.slots.flatMap fun entry ↦ resolve [entry.2] timeline.changes := by
  simp only [Timeline.fragments, hrun]
  rw [resolve_eq_flatMap, ← Run.map_snd_slots, List.flatMap_map]

theorem Timeline.Sound.slot (h : timeline.Sound) (hrun : timeline.run? code = some run)
    {entry : Slot × Interval} (hentry : entry ∈ run.slots) : entry.2.Sound := by
  refine h.of_run? hrun entry.2 ?_
  rw [← Run.map_snd_slots]
  exact List.mem_map_of_mem hentry

theorem runIntervals_of_complete (hrun : timeline.run? code = some run)
    (hcomplete : ∀ entry ∈ run.slots, entry.2.bounds? ≠ none) :
    Composition.runIntervals timeline code = .ok (timeline.fragments code) := by
  rw [Composition.runIntervals, Timeline.fragments, hrun]
  simp only [Run.checkComplete, Run.firstMissing?_eq_none_iff.mpr hcomplete, Failure.ok_bind]
  rfl

/-- The fragments of a playable run are usable. -/
theorem Timeline.Playable.rangeOf (h : timeline.Playable code) (hsound : timeline.Sound) :
    ∀ f ∈ timeline.fragments code, ∃ range, rangeOf f = .ok range := by
  obtain ⟨run, hrun, hordered⟩ := h
  rw [fragments_eq_flatMap hrun]
  intro f hf
  obtain ⟨entry, hentry, hfragment⟩ := List.mem_flatMap.mp hf
  exact (hsound.slot hrun hentry).rangeOf_fragment hsound.changes (hordered entry hentry) hfragment

theorem Timeline.Playable.runIntervals (h : timeline.Playable code) :
    Composition.runIntervals timeline code = .ok (timeline.fragments code) := by
  obtain ⟨run, hrun, hordered⟩ := h
  exact runIntervals_of_complete hrun fun entry hentry ↦ (hordered entry hentry).bounds?_ne_none

/-- Finding the fragments of a run and making them blocks of a registered output ends with the
obstacle of the run. -/
theorem Timeline.Obstacle.addRun (h : timeline.Obstacle code failure) (hsound : timeline.Sound)
    {catalogue : Catalogue} {output : Registry.Key} (houtput : catalogue.outputs.contains output)
    (filters : List VisualFilter) (count : Nat) :
    Composition.addRun timeline output filters (catalogue, count) code = .error failure := by
  cases h with
  | unknown hrun =>
    rw [Composition.addRun, Composition.runIntervals, hrun]
    rfl
  | incomplete hrun hslots hbefore hlacks =>
    have hmissing := Run.firstMissing?_eq_some_iff.mpr ⟨_, _, _, hslots, hbefore, hlacks⟩
    rw [Composition.addRun, Composition.runIntervals, hrun]
    simp only [Run.checkComplete, hmissing, Failure.error_bind]
  | @unordered run before after slot i start stop hrun hcomplete hslots hordered hbounds hlt =>
    have hslot {entry : Slot × Interval} (hentry : entry ∈ before ++ (slot, i) :: after) :
        entry.2.Sound := hsound.slot hrun (by rwa [hslots])
    have hi := (hslot (List.mem_append_right _ List.mem_cons_self)).rangeOf_unordered hbounds hlt
      timeline.changes
    have hfragments : timeline.fragments code =
        before.flatMap (fun entry ↦ resolve [entry.2] timeline.changes) ++
          i :: after.flatMap fun entry ↦ resolve [entry.2] timeline.changes := by
      rw [fragments_eq_flatMap hrun, hslots, List.flatMap_append, List.flatMap_cons, hi.1]
      rfl
    have husable : ∀ f ∈ before.flatMap (fun entry ↦ resolve [entry.2] timeline.changes),
        ∃ range, rangeOf f = .ok range := by
      intro f hf
      obtain ⟨entry, hentry, hfragment⟩ := List.mem_flatMap.mp hf
      exact (hslot (List.mem_append_left _ hentry)).rangeOf_fragment hsound.changes
        (hordered entry hentry) hfragment
    have houtput' : ¬ catalogue.outputs.contains output = false := by simp [houtput]
    rw [Composition.addRun, runIntervals_of_complete hrun hcomplete, Failure.ok_bind, addIntervals,
      if_neg houtput', hfragments, Failure.mapM_eq_error husable hi.2, Failure.error_bind,
      Failure.error_bind]

end Montage.Timing
