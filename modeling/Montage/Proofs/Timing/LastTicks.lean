import Mathlib.Data.List.Induction
import Montage.Proofs.Timing.AcceptedTicks

/-!
# What the last ticks say

What a timeline holds can be told from its accepted ticks without replaying them (`Timeline.Tells`).
A run is there if a tick names it, a bound of a slot has the time of the last tick that set it, a
slot has the recording of its last tick, and the checkpoints go up to the greatest one that was
ticked, with empty intervals in the gaps. `tells_after` says so for all readings.

The proof follows the ticks. One tick marks one slot of one run and leaves the other slots as they
are (`Run.interval_mark`), while the list of checkpoints may grow (`Run.lt_length_mark`). A slot
whose ticks are known is the interval of these ticks (`lastInterval`), and one more tick marks this
interval (`lastInterval_append_singleton`); hence the slots of a table that was built tick by tick
are the intervals of their ticks (`RunTable.built_foldl_markRuns`).
-/

set_option autoImplicit false
set_option relaxedAutoImplicit false

namespace Montage.Timing

open Numeric RunTable

/-! ### Slots of a run -/

/-- A bound of an interval. -/
def Interval.bound? (i : Interval) : Endpoint → Option Binary64
  | .start => i.start
  | .stop => i.stop

/-- The interval of a slot, which is empty where the run has none. -/
def Run.interval (run : Run) : Slot → Interval
  | .intro => run.intro.getD {}
  | .checkpoint index => run.checkpoints[index]?.getD {}

namespace Run

/-- A tick marks the interval of its slot. -/
theorem interval_mark (run : Run) (slot : Slot) (endpoint : Endpoint) (time : Binary64)
    (source : Path) (other : Slot) :
    (run.mark slot endpoint time source).interval other =
      if slot = other then (run.interval slot).mark endpoint time source
      else run.interval other := by
  -- Intervals that are added in the gaps are empty, as what is missing is.
  have hgap (count place : Nat) :
      (run.checkpoints ++ List.replicate count ({} : Interval))[place]?.getD {} =
        run.checkpoints[place]?.getD {} := by
    by_cases hplace : place < run.checkpoints.length
    · rw [List.getElem?_append_left hplace]
    · have hnone : run.checkpoints[place]? = none := List.getElem?_eq_none (by omega)
      rw [List.getElem?_append_right (by omega), List.getElem?_replicate, hnone]
      split_ifs <;> rfl
  cases slot with
  | intro =>
    cases other with
    | intro => rfl
    | checkpoint index => rfl
  | checkpoint index =>
    cases other with
    | intro => rfl
    | checkpoint place =>
      simp only [mark, interval, List.getElem?_modify, Slot.checkpoint.injEq, ← hgap
        (index + 1 - run.checkpoints.length)]
      split_ifs with hplace
      · subst hplace
        have hlt : index < (run.checkpoints ++ List.replicate
            (index + 1 - run.checkpoints.length) ({} : Interval)).length := by
          rw [List.length_append, List.length_replicate]
          omega
        rw [List.getElem?_eq_getElem hlt]
        rfl
      · rw [Option.map_eq_map, Option.map_id']

/-- The checkpoints go on up to the ticked one. -/
theorem lt_length_mark (run : Run) (slot : Slot) (endpoint : Endpoint) (time : Binary64)
    (source : Path) (place : Nat) :
    place < (run.mark slot endpoint time source).checkpoints.length ↔
      place < run.checkpoints.length ∨ ∃ index, slot = .checkpoint index ∧ place ≤ index := by
  cases slot with
  | intro => simp [mark]
  | checkpoint index =>
    simp only [mark, List.length_modify, List.length_append, List.length_replicate,
      Slot.checkpoint.injEq, exists_eq_left']
    omega

/-- The intro is there once it was ticked. -/
theorem isSome_intro_mark (run : Run) (slot : Slot) (endpoint : Endpoint) (time : Binary64)
    (source : Path) :
    (run.mark slot endpoint time source).intro.isSome ↔ run.intro.isSome ∨ slot = .intro := by
  cases slot with
  | intro => simp [mark]
  | checkpoint index => simp [mark]

/-- A run is settled by its intervals, its number of checkpoints and whether it has an intro. -/
theorem eq_of_interval_eq {run other : Run}
    (hinterval : ∀ slot, run.interval slot = other.interval slot)
    (hlength : run.checkpoints.length = other.checkpoints.length)
    (hintro : run.intro.isSome ↔ other.intro.isSome) : run = other := by
  have hcheckpoints : run.checkpoints = other.checkpoints := by
    refine List.ext_getElem hlength fun place hrun hother ↦ ?_
    have hplace := hinterval (.checkpoint place)
    rwa [interval, interval, List.getElem?_eq_getElem hrun, List.getElem?_eq_getElem hother]
      at hplace
  have hboth : run.intro = other.intro := by
    have hplace := hinterval .intro
    cases hfirst : run.intro <;> cases hsecond : other.intro <;>
      simp [hfirst, hsecond, interval] at hintro hplace ⊢
    exact hplace
  cases run
  cases other
  exact congr (congrArg Run.mk hboth) hcheckpoints

end Run

/-! ### Ticks of a slot -/

/-- The ticks of a slot of a run. -/
def ticksFor (code : RunCode) (slot : Slot) (ticks : List BoundTick) : List BoundTick :=
  ticks.filter fun tick ↦ tick.code = code ∧ tick.slot = slot

/-- The interval that ticks of one slot leave behind. -/
def lastInterval (ticks : List BoundTick) : Interval where
  start := (ticks.filter (·.endpoint = .start)).getLast?.map BoundTick.time
  stop := (ticks.filter (·.endpoint = .stop)).getLast?.map BoundTick.time
  source := ticks.getLast?.map BoundTick.source

variable {runs : List (RunCode × Run)} {ticks : List BoundTick} {tick : BoundTick} {code : RunCode}

/-- The checkpoint of a run that a tick sets a bound of, if it does. -/
def BoundTick.checkpoint? (code : RunCode) (tick : BoundTick) : Option Nat :=
  match tick.slot with
  | .checkpoint index => if tick.code = code then some index else none
  | .intro => none

theorem BoundTick.checkpoint?_eq_some_iff {index : Nat} :
    tick.checkpoint? code = some index ↔ tick.code = code ∧ tick.slot = .checkpoint index := by
  unfold checkpoint?
  cases tick.slot with
  | intro => simp
  | checkpoint other => simp

/-- One more tick marks the interval. -/
theorem lastInterval_append_singleton (ticks : List BoundTick) (tick : BoundTick) :
    lastInterval (ticks ++ [tick]) =
      (lastInterval ticks).mark tick.endpoint tick.time tick.source := by
  obtain ⟨code, slot, endpoint, time, source⟩ := tick
  cases endpoint <;> simp [lastInterval, Interval.mark]

theorem ticksFor_append_singleton (code : RunCode) (slot : Slot) (ticks : List BoundTick)
    (tick : BoundTick) :
    ticksFor code slot (ticks ++ [tick]) =
      if tick.code = code ∧ tick.slot = slot then ticksFor code slot ticks ++ [tick]
      else ticksFor code slot ticks := by
  unfold ticksFor
  rw [List.filter_append]
  by_cases h : tick.code = code ∧ tick.slot = slot
  · rw [if_pos h, List.filter_cons_of_pos (by simpa using h), List.filter_nil]
  · rw [if_neg h, List.filter_cons_of_neg (by simpa using h), List.filter_nil, List.append_nil]

/-! ### Tables built tick by tick -/

namespace RunTable

/-- The run that a table has for a code, or an empty one. -/
def runAt (runs : List (RunCode × Run)) (code : RunCode) : Run := (lookup runs code).getD {}

theorem runAt_of_lookup {run : Run} (h : lookup runs code = some run) : runAt runs code = run := by
  rw [runAt, h, Option.getD_some]

/-- The table is what ticks leave behind. -/
structure Built (runs : List (RunCode × Run)) (ticks : List BoundTick) : Prop where
  ordered : Ordered runs
  isSome_lookup : ∀ code, (lookup runs code).isSome ↔ ∃ tick ∈ ticks, tick.code = code
  interval : ∀ code slot, (runAt runs code).interval slot = lastInterval (ticksFor code slot ticks)
  lt_length : ∀ code place, place < (runAt runs code).checkpoints.length ↔
    ∃ tick ∈ ticks, tick.code = code ∧ ∃ index, tick.slot = .checkpoint index ∧ place ≤ index
  isSome_intro : ∀ code, (runAt runs code).intro.isSome ↔
    ∃ tick ∈ ticks, tick.code = code ∧ tick.slot = .intro

theorem built_nil : Built [] [] where
  ordered := List.Pairwise.nil
  isSome_lookup := by simp [lookup]
  interval code slot := by cases slot <;> rfl
  lt_length := by simp [runAt, lookup]
  isSome_intro := by simp [runAt, lookup]

theorem Ordered.lookup_markRuns (h : Ordered runs) (tick : BoundTick) (code : RunCode) :
    lookup (markRuns runs tick) code =
      if tick.code = code then
        some ((runAt runs tick.code).mark tick.slot tick.endpoint tick.time tick.source)
      else lookup runs code :=
  h.lookup_alterRun _ _ _

theorem Ordered.runAt_markRuns (h : Ordered runs) (tick : BoundTick) (code : RunCode) :
    runAt (markRuns runs tick) code =
      if tick.code = code then
        (runAt runs code).mark tick.slot tick.endpoint tick.time tick.source
      else runAt runs code := by
  rw [runAt, h.lookup_markRuns]
  split_ifs with hcode
  · rw [hcode, Option.getD_some]
  · rfl

/-- What some tick does, the last one does or one before it. -/
theorem exists_mem_append_singleton {P : BoundTick → Prop} :
    (∃ other ∈ ticks ++ [tick], P other) ↔ (∃ other ∈ ticks, P other) ∨ P tick := by
  simp [or_and_right, exists_or]

/-- One more tick. -/
theorem Built.markRuns (h : Built runs ticks) (tick : BoundTick) :
    Built (markRuns runs tick) (ticks ++ [tick]) where
  ordered := h.ordered.alterRun _ _
  isSome_lookup code := by
    rw [h.ordered.lookup_markRuns, exists_mem_append_singleton, ← h.isSome_lookup]
    split_ifs with hcode
    · simp [hcode]
    · simp [hcode]
  interval code slot := by
    rw [h.ordered.runAt_markRuns, ticksFor_append_singleton]
    by_cases hcode : tick.code = code
    · rw [if_pos hcode, Run.interval_mark, h.interval, h.interval]
      by_cases hslot : tick.slot = slot
      · rw [if_pos hslot, if_pos ⟨hcode, hslot⟩, lastInterval_append_singleton, hslot]
      · rw [if_neg hslot, if_neg fun hboth ↦ hslot hboth.2]
    · rw [if_neg hcode, if_neg fun hboth ↦ hcode hboth.1, h.interval]
  lt_length code place := by
    rw [h.ordered.runAt_markRuns, exists_mem_append_singleton, ← h.lt_length]
    split_ifs with hcode
    · rw [Run.lt_length_mark]
      simp [hcode]
    · simp [hcode]
  isSome_intro code := by
    rw [h.ordered.runAt_markRuns, exists_mem_append_singleton, ← h.isSome_intro]
    split_ifs with hcode
    · rw [Run.isSome_intro_mark]
      simp [hcode]
    · simp [hcode]

/-- The table that ticks leave behind. -/
theorem built_foldl_markRuns (ticks : List BoundTick) : Built (ticks.foldl markRuns []) ticks := by
  induction ticks using List.reverseRecOn with
  | nil => exact built_nil
  | append_singleton ticks tick ih =>
    rw [List.foldl_append]
    exact ih.markRuns tick

/-- The checkpoints go up to the greatest one that a tick names. -/
theorem Built.length_eq (h : Built runs ticks) (code : RunCode) :
    (runAt runs code).checkpoints.length =
      (ticks.filterMap (BoundTick.checkpoint? code)).max?.elim 0 (· + 1) := by
  have hmem (index : Nat) : index ∈ ticks.filterMap (BoundTick.checkpoint? code) ↔
      ∃ tick ∈ ticks, tick.code = code ∧ tick.slot = .checkpoint index := by
    simp only [List.mem_filterMap, BoundTick.checkpoint?_eq_some_iff]
  have hlt (place : Nat) : place < (runAt runs code).checkpoints.length ↔
      ∃ index ∈ ticks.filterMap (BoundTick.checkpoint? code), place ≤ index := by
    simp only [h.lt_length, hmem]
    constructor
    · rintro ⟨tick, htick, hcode, index, hslot, hle⟩
      exact ⟨index, ⟨tick, htick, hcode, hslot⟩, hle⟩
    · rintro ⟨index, ⟨tick, htick, hcode, hslot⟩, hle⟩
      exact ⟨tick, htick, hcode, index, hslot, hle⟩
  cases hgreatest : (ticks.filterMap (BoundTick.checkpoint? code)).max? with
  | none =>
    rw [List.max?_eq_none_iff] at hgreatest
    have hzero := hlt 0
    rw [hgreatest] at hzero
    simpa using hzero
  | some greatest =>
    obtain ⟨hticked, hle⟩ := List.max?_eq_some_iff.mp hgreatest
    have hfirst := (hlt greatest).mpr ⟨greatest, hticked, Nat.le_refl _⟩
    have hlast : ¬ greatest + 1 < (runAt runs code).checkpoints.length := by
      rw [hlt]
      rintro ⟨index, hindex, habove⟩
      exact Nat.not_succ_le_self greatest (habove.trans (hle index hindex))
    rw [Option.elim_some]
    omega

end RunTable

/-! ### Timelines -/

theorem Run.interval_of_mem_slots {run : Run} {entry : Slot × Interval} (h : entry ∈ run.slots) :
    run.interval entry.1 = entry.2 := by
  rcases List.mem_append.mp h with hintro | hcheckpoint
  · obtain ⟨i, hi, rfl⟩ := List.mem_map.mp hintro
    rw [Option.mem_toList] at hi
    rw [interval, hi, Option.getD_some]
  · obtain ⟨⟨i, index⟩, hi, rfl⟩ := List.mem_map.mp hcheckpoint
    rw [interval, List.mem_zipIdx_iff_getElem?.mp hi, Option.getD_some]

namespace Timeline

/-- The runs are what the ticks that set bounds leave behind. -/
theorem built_after (readings : List Reading) :
    Built (after readings).runs (boundTicks (acceptedTicks readings)) := by
  rw [after_eq_enter]
  exact built_foldl_markRuns _

/-- The interval of a slot is what the ticks of the slot leave behind. -/
theorem eq_lastInterval_of_mem_slots {readings : List Reading} {run : Run}
    (hrun : (after readings).run? code = some run) {entry : Slot × Interval}
    (hentry : entry ∈ run.slots) :
    entry.2 = lastInterval (ticksFor code entry.1 (boundTicks (acceptedTicks readings))) := by
  rw [← Run.interval_of_mem_slots hentry, ← (built_after readings).interval, runAt_of_lookup hrun]

end Timeline

/-- The timeline holds what the accepted ticks say, and nothing else. -/
structure Timeline.Tells (timeline : Timeline) (ticks : List AcceptedTick) : Prop where
  /-- Every run is listed once, in the order of codes. -/
  ordered : timeline.runs.Pairwise fun a b ↦ a.1 < b.1
  /-- There is a run for a code exactly if a tick names it. -/
  run_iff : ∀ code, (timeline.run? code).isSome ↔ ∃ tick ∈ boundTicks ticks, tick.code = code
  /-- A bound of a slot has the time of the last tick that set it, and is not set without one. -/
  bound_eq : ∀ code run, timeline.run? code = some run → ∀ slot endpoint,
    (run.interval slot).bound? endpoint =
      ((ticksFor code slot (boundTicks ticks)).filter (·.endpoint = endpoint)).getLast?.map
        BoundTick.time
  /-- A slot has the recording of its last tick. -/
  source_eq : ∀ code run, timeline.run? code = some run → ∀ slot,
    (run.interval slot).source =
      (ticksFor code slot (boundTicks ticks)).getLast?.map BoundTick.source
  /-- All slots have normal speed. -/
  speed_eq : ∀ code run, timeline.run? code = some run → ∀ slot, (run.interval slot).speed = .one
  /-- There is an intro exactly if a tick names it. -/
  intro_iff : ∀ code run, timeline.run? code = some run →
    (run.intro.isSome ↔ ticksFor code .intro (boundTicks ticks) ≠ [])
  /-- The checkpoints go up to the greatest one that a tick names. -/
  length_eq : ∀ code run, timeline.run? code = some run →
    run.checkpoints.length =
      ((boundTicks ticks).filterMap (BoundTick.checkpoint? code)).max?.elim 0 (· + 1)
  /-- A checkpoint below it that no tick names is empty. -/
  gap : ∀ code run, timeline.run? code = some run → ∀ index < run.checkpoints.length,
    ticksFor code (.checkpoint index) (boundTicks ticks) = [] →
      run.checkpoints[index]? = some {}
  /-- The changes of the speed are those that ticks declare, in this order. -/
  changes_eq : timeline.changes = speedTicks ticks

theorem ticksFor_ne_nil_iff {slot : Slot} :
    ticksFor code slot ticks ≠ [] ↔ ∃ tick ∈ ticks, tick.code = code ∧ tick.slot = slot := by
  simp [ticksFor, List.filter_eq_nil_iff]

/-- A timeline tells the ticks that its table was built from. -/
theorem Timeline.tells_of_built {timeline : Timeline} {ticks : List AcceptedTick}
    (h : Built timeline.runs (boundTicks ticks)) (hchanges : timeline.changes = speedTicks ticks) :
    timeline.Tells ticks where
  ordered := h.ordered
  run_iff := h.isSome_lookup
  bound_eq code run hfound slot endpoint := by
    rw [← runAt_of_lookup hfound, h.interval]
    cases endpoint <;> rfl
  source_eq code run hfound slot := by
    rw [← runAt_of_lookup hfound, h.interval]
    rfl
  speed_eq code run hfound slot := by
    rw [← runAt_of_lookup hfound, h.interval]
    rfl
  intro_iff code run hfound := by
    rw [← runAt_of_lookup hfound, h.isSome_intro, ticksFor_ne_nil_iff]
  length_eq code run hfound := by
    rw [← runAt_of_lookup hfound, h.length_eq]
  gap code run hfound index hindex hnone := by
    have hempty := h.interval code (.checkpoint index)
    rw [runAt_of_lookup hfound, hnone, Run.interval, List.getElem?_eq_getElem hindex] at hempty
    rw [List.getElem?_eq_getElem hindex]
    exact congrArg some hempty
  changes_eq := hchanges

/-- A timeline that was read holds what the accepted ticks of its readings say, and all accepted
speeds are positive. A line without a time leaves nothing behind. The ticks of a line with a time
are those of its words, all at this one finite time and on the recording of the line. -/
theorem tells_after (readings : List Timeline.Reading) :
    (Timeline.after readings).Tells (acceptedTicks readings) ∧
      (∀ c ∈ speedTicks (acceptedTicks readings), Binary64.zero false < c.speed) ∧
      ∀ source line,
        ((TimedLine.ofLine line).isTimed = false →
          ticksOfLine source line = [] ∧
            ∀ timeline : Timeline, timeline.recordLine source line = timeline) ∧
        ((TimedLine.ofLine line).isTimed = true →
          ∃ time words, TimedLine.Reads line time words ∧ time.isFinite ∧
            ticksOfLine source line = words.filterMap fun word ↦
              AcceptedTick.ofTick? source time (Tick.ofWord word)) := by
  have htells : (Timeline.after readings).Tells (acceptedTicks readings) := by
    rw [Timeline.after_eq_enter]
    exact Timeline.tells_of_built (built_foldl_markRuns _) rfl
  refine ⟨htells, fun c hc ↦ ?_, fun source line ↦ ⟨fun huntimed ↦ ?_, fun htimed ↦ ?_⟩⟩
  · rw [← htells.changes_eq] at hc
    exact ((Timeline.sound_after readings).changes c hc).isSpeed.2
  · have hnone : ticksOfLine source line = [] := by
      unfold ticksOfLine
      split
      next hline =>
        rw [hline] at huntimed
        cases huntimed
      · rfl
    refine ⟨hnone, fun timeline ↦ ?_⟩
    rw [Timeline.recordLine_eq_enter, hnone, Timeline.enter_nil]
  · cases hline : TimedLine.ofLine line with
    | timed time words =>
      obtain ⟨hreads, hfinite⟩ := TimedLine.reads_of_ofLine hline
      exact ⟨time, words, hreads, hfinite, by rw [ticksOfLine, hline]⟩
    | untimed =>
      rw [hline] at htimed
      cases htimed
    | unusableTime field =>
      rw [hline] at htimed
      cases htimed

end Montage.Timing
