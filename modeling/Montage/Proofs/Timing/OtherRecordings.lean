import Mathlib.Data.List.Forall2
import Montage.Proofs.Composition.Obstacle
import Montage.Proofs.Timing.LastTicks
import Montage.Proofs.Timing.LatestChange

/-!
# What other recordings do to a run

A run is what its own ticks leave behind, whatever other ticks stand between them
(`Ordered.lookup_foldl_markRuns`), and a change of the speed that lies in none of its intervals may
be left out (`resolve_filter`). All runs share one list of changes, so another recording has its
changes in this list too, but the intervals of a run lie on the recordings of its ticks only.

Hence readings may differ on a recording as long as they say nothing about the run there
(`Timeline.Reading.AgreeOff`): the run is the same and so are its fragments (`run?_eq_of_agreeOff`,
`resolveRun_eq_of_agreeOff`), although the changes that are declared differ in number and place.
-/

set_option autoImplicit false
set_option relaxedAutoImplicit false

namespace Montage.Timing

open Montage.Timing.Interval RunTable

variable {runs : List (RunCode × Run)} {ticks : List BoundTick} {tick : BoundTick} {code : RunCode}
  {run : Run} {intervals : List Interval} {changes : List SpeedChange} {c : SpeedChange}
  {recording : Path} {reading other : Timeline.Reading} {readings others : List Timeline.Reading}

/-! ### Ticks of one run -/

/-- The ticks of a run. -/
def ticksOf (code : RunCode) (ticks : List BoundTick) : List BoundTick :=
  ticks.filter (·.code = code)

/-- Sets the bound that a tick of a run sets. -/
def markRun (run? : Option Run) (tick : BoundTick) : Option Run :=
  some ((run?.getD {}).mark tick.slot tick.endpoint tick.time tick.source)

theorem ticksOf_append (code : RunCode) (ticks more : List BoundTick) :
    ticksOf code (ticks ++ more) = ticksOf code ticks ++ ticksOf code more :=
  List.filter_append ticks more

/-- A run is what its own ticks leave behind. -/
theorem RunTable.Ordered.lookup_foldl_markRuns (h : Ordered runs) (ticks : List BoundTick)
    (code : RunCode) :
    lookup (ticks.foldl markRuns runs) code =
      (ticksOf code ticks).foldl markRun (lookup runs code) := by
  induction ticks generalizing runs with
  | nil => rfl
  | cons tick ticks ih =>
    have hordered : Ordered (markRuns runs tick) := h.alterRun _ _
    rw [List.foldl_cons, ih hordered, h.lookup_markRuns]
    by_cases hcode : tick.code = code
    · have hkept : ticksOf code (tick :: ticks) = tick :: ticksOf code ticks :=
        List.filter_cons_of_pos (decide_eq_true hcode)
      rw [if_pos hcode, hkept, List.foldl_cons, hcode]
      rfl
    · have hdropped : ticksOf code (tick :: ticks) = ticksOf code ticks :=
        List.filter_cons_of_neg (by simpa using hcode)
      rw [if_neg hcode, hdropped]

theorem Timeline.run?_after (readings : List Timeline.Reading) (code : RunCode) :
    (Timeline.after readings).run? code =
      (ticksOf code (boundTicks (acceptedTicks readings))).foldl markRun none := by
  rw [Timeline.after_eq_enter]
  exact Ordered.lookup_foldl_markRuns List.Pairwise.nil _ code

theorem Timeline.changes_after (readings : List Timeline.Reading) :
    (Timeline.after readings).changes = speedTicks (acceptedTicks readings) := by
  rw [Timeline.after_eq_enter]
  rfl

/-- An interval of a run has the recording of one of the ticks of the run. -/
theorem exists_tick_of_mem_intervals (hrun : (Timeline.after readings).run? code = some run)
    {i : Interval} (hi : i ∈ run.intervals) {source : Path} (hsource : i.source = some source) :
    ∃ tick ∈ ticksOf code (boundTicks (acceptedTicks readings)), tick.source = source := by
  rw [← Run.map_snd_slots] at hi
  obtain ⟨entry, hentry, rfl⟩ := List.mem_map.mp hi
  rw [Timeline.eq_lastInterval_of_mem_slots hrun hentry] at hsource
  obtain ⟨tick, htick, hsame⟩ := Option.map_eq_some_iff.mp hsource
  obtain ⟨hmem, hboth⟩ := List.mem_filter.mp (List.mem_of_getLast? htick)
  refine ⟨tick, List.mem_filter.mpr ⟨hmem, ?_⟩, hsame⟩
  exact decide_eq_true (of_decide_eq_true hboth).1

/-! ### Changes that lie in no interval -/

/-- Changes that no interval contains may be left out. -/
theorem resolve_filter (p : SpeedChange → Bool)
    (h : ∀ c ∈ changes, p c = false → ∀ i ∈ intervals, ¬ i.Contains c) :
    resolve intervals (changes.filter p) = resolve intervals changes := by
  induction changes generalizing intervals with
  | nil => rfl
  | cons c changes ih =>
    obtain ⟨hc, hchanges⟩ := List.forall_mem_cons.mp h
    cases hp : p c with
    | false =>
      rw [List.filter_cons_of_neg (by simp [hp]), resolve_cons,
        applyChange_of_not_contains (hc hp), ih hchanges]
    | true =>
      rw [List.filter_cons_of_pos hp, resolve_cons, resolve_cons, ih]
      -- What a change has left contains no more changes than before.
      intro d hd hpd f hf hcontains
      obtain ⟨i, hi, hpiece⟩ := mem_applyChange.mp hf
      exact hchanges d hd hpd i hi (contains_of_mem_pieces hpiece hcontains)

/-- The changes that are not on a recording. -/
def changesOff (recording : Path) (changes : List SpeedChange) : List SpeedChange :=
  changes.filter fun c ↦ ¬ recording.Same c.source

theorem changesOff_append (recording : Path) (changes more : List SpeedChange) :
    changesOff recording (changes ++ more) =
      changesOff recording changes ++ changesOff recording more :=
  List.filter_append changes more

/-- Intervals that are not on a recording are resolved without its changes. -/
theorem resolve_changesOff (changes : List SpeedChange)
    (h : ∀ i ∈ intervals, ∀ source, i.source = some source → ¬ recording.Same source) :
    resolve intervals (changesOff recording changes) = resolve intervals changes := by
  refine resolve_filter _ fun c _ hon i hi hcontains ↦ ?_
  obtain ⟨source, _, _, hspans, hsource, -⟩ := exists_spans_of_contains hcontains
  have hsame : recording.Same c.source := by simpa using hon
  exact h i hi source hspans.source_eq (hsame.trans hsource.symm)

/-! ### Readings that differ on one recording -/

namespace Timeline.Reading

/-- No word of the reading says anything about the run. -/
def Silent (reading : Timeline.Reading) (code : RunCode) : Prop :=
  ∀ time slot endpoint, ¬ reading.Says time code slot endpoint

/-- Two readings are the same and not on the recording, or both are on the recording and say nothing
about the run. -/
inductive AgreeOff (recording : Path) (code : RunCode) : Timeline.Reading → Timeline.Reading → Prop
  /-- A reading that is not on the recording. -/
  | same {reading : Timeline.Reading} :
      ¬ recording.Same reading.recording → AgreeOff recording code reading reading
  /-- Two readings on the recording. -/
  | changed {reading other : Timeline.Reading} :
      recording.Same reading.recording → recording.Same other.recording →
      reading.Silent code → other.Silent code → AgreeOff recording code reading other

theorem silent_iff : reading.Silent code ↔ ∀ tick ∈ boundTicks reading.ticks, tick.code ≠ code := by
  constructor
  · rintro h tick htick rfl
    exact h _ _ _ (mem_boundTicks_iff.mp htick).2
  · intro h time slot endpoint hsays
    have htick : (⟨code, slot, endpoint, time, reading.recording⟩ : BoundTick) ∈
        boundTicks reading.ticks :=
      mem_boundTicks_iff.mpr ⟨rfl, hsays⟩
    exact h _ htick rfl

theorem Silent.ticksOf_eq_nil (h : reading.Silent code) :
    ticksOf code (boundTicks reading.ticks) = [] := by
  refine List.filter_eq_nil_iff.mpr fun tick htick hcode ↦ ?_
  exact silent_iff.mp h tick htick (of_decide_eq_true hcode)

theorem changesOff_eq_nil (h : recording.Same reading.recording) :
    changesOff recording (speedTicks reading.ticks) = [] := by
  refine List.filter_eq_nil_iff.mpr fun c hc hoff ↦ ?_
  rw [(mem_speedTicks_iff.mp hc).1] at hoff
  exact of_decide_eq_true hoff h

end Timeline.Reading

open Timeline.Reading

theorem acceptedTicks_cons (reading : Timeline.Reading) (readings : List Timeline.Reading) :
    acceptedTicks (reading :: readings) = reading.ticks ++ acceptedTicks readings :=
  List.flatMap_cons

theorem boundTicks_append (ticks more : List AcceptedTick) :
    boundTicks (ticks ++ more) = boundTicks ticks ++ boundTicks more :=
  List.filterMap_append

theorem speedTicks_append (ticks more : List AcceptedTick) :
    speedTicks (ticks ++ more) = speedTicks ticks ++ speedTicks more :=
  List.filterMap_append

/-- The ticks of the run are the same. -/
theorem ticksOf_eq_of_agreeOff (h : List.Forall₂ (AgreeOff recording code) readings others) :
    ticksOf code (boundTicks (acceptedTicks readings)) =
      ticksOf code (boundTicks (acceptedTicks others)) := by
  induction h with
  | nil => rfl
  | cons hagree _ ih =>
    simp only [acceptedTicks_cons, boundTicks_append, ticksOf_append, ih]
    cases hagree with
    | same _ => rfl
    | changed _ _ hsilent hsilent' => rw [hsilent.ticksOf_eq_nil, hsilent'.ticksOf_eq_nil]

/-- The changes on other recordings are the same. -/
theorem changesOff_eq_of_agreeOff (h : List.Forall₂ (AgreeOff recording code) readings others) :
    changesOff recording (speedTicks (acceptedTicks readings)) =
      changesOff recording (speedTicks (acceptedTicks others)) := by
  induction h with
  | nil => rfl
  | cons hagree _ ih =>
    simp only [acceptedTicks_cons, speedTicks_append, changesOff_append, ih]
    cases hagree with
    | same _ => rfl
    | changed hon hon' _ _ => rw [changesOff_eq_nil hon, changesOff_eq_nil hon']

/-- No tick of the run is on the recording. -/
theorem not_same_of_mem_ticksOf (h : List.Forall₂ (AgreeOff recording code) readings others)
    (htick : tick ∈ ticksOf code (boundTicks (acceptedTicks readings))) :
    ¬ recording.Same tick.source := by
  induction h with
  | nil => cases htick
  | cons hagree _ ih =>
    rw [acceptedTicks_cons, boundTicks_append, ticksOf_append] at htick
    rcases List.mem_append.mp htick with hfirst | hlater
    · cases hagree with
      | same hoff =>
        obtain ⟨hsource, -⟩ := mem_boundTicks_iff.mp (List.mem_of_mem_filter hfirst)
        rwa [hsource]
      | changed _ _ hsilent _ =>
        rw [hsilent.ticksOf_eq_nil] at hfirst
        cases hfirst
    · exact ih hlater

/-- The run is the same. -/
theorem run?_eq_of_agreeOff (h : List.Forall₂ (AgreeOff recording code) readings others) :
    (Timeline.after readings).run? code = (Timeline.after others).run? code := by
  rw [Timeline.run?_after, Timeline.run?_after, ticksOf_eq_of_agreeOff h]

/-- The fragments of the run are the same. -/
theorem resolveRun_eq_of_agreeOff (h : List.Forall₂ (AgreeOff recording code) readings others) :
    (Timeline.after readings).resolveRun code = (Timeline.after others).resolveRun code := by
  have hsame := run?_eq_of_agreeOff h
  rw [Timeline.resolveRun, Timeline.resolveRun, ← hsame]
  cases hrun : (Timeline.after readings).run? code with
  | none => rfl
  | some run =>
    have hoff : ∀ i ∈ run.intervals, ∀ source, i.source = some source →
        ¬ recording.Same source := by
      intro i hi source hsource
      obtain ⟨tick, htick, rfl⟩ := exists_tick_of_mem_intervals hrun hi hsource
      exact not_same_of_mem_ticksOf h htick
    dsimp only
    rw [← resolve_changesOff _ hoff, ← resolve_changesOff (Timeline.after others).changes hoff,
      Timeline.changes_after, Timeline.changes_after, changesOff_eq_of_agreeOff h]

end Montage.Timing
