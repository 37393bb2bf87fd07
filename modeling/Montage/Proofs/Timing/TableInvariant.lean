import Montage.Proofs.Timing.Teams

/-!
# What every table of runs keeps

Whatever texts are read, in whatever order, the tables that they leave behind have the same shape
(`Timeline.WellKept`, `wellKept_after`). Teams have a name in lower case. Every run has a bound, its
checkpoints are ten at most, and the last of them has a bound. Bounds are finite, an interval has a
recording exactly if it has a bound, and its speed is normal. Speeds are declared at finite times
and are whole numbers from one to nine.

All of this is told by the ticks. A slot of a run is the interval of its ticks, which has a bound
and a recording as soon as there is a tick (`lastInterval_hasBound_iff`), and the checkpoints go up
to the greatest one that was ticked, which is named by a single digit (`index_le_of_mem`).
-/

set_option autoImplicit false
set_option relaxedAutoImplicit false

namespace Montage.Timing

open Numeric RunTable

/-! ### The shape of tables -/

/-- One of the two bounds is set. -/
def Interval.HasBound (i : Interval) : Prop := i.start.isSome ∨ i.stop.isSome

/-- The bounds that are set are finite, there is a recording exactly if one is set, and the speed is
normal. -/
structure Interval.WellKept (i : Interval) : Prop where
  start_finite : ∀ time, i.start = some time → time.isFinite
  stop_finite : ∀ time, i.stop = some time → time.isFinite
  source_iff : i.source.isSome ↔ i.HasBound
  speed_eq : i.speed = .one

/-- The most checkpoints that a run can have. -/
def maxCheckpoints : Nat := 10

/-- Some bound of the run is set, the checkpoints are not too many, the last of them has a bound,
and all intervals are well kept. -/
structure Run.WellKept (run : Run) : Prop where
  exists_hasBound : ∃ i ∈ run.intervals, i.HasBound
  length_le : run.checkpoints.length ≤ maxCheckpoints
  last_hasBound : ∀ i, run.checkpoints.getLast? = some i → i.HasBound
  intervals : ∀ i ∈ run.intervals, i.WellKept

/-- The change has a finite time, and its speed is a whole number from one to nine. -/
structure SpeedChange.WellKept (change : SpeedChange) : Prop where
  time_finite : change.time.isFinite
  exists_speed_eq : ∃ factor : Nat, 1 ≤ factor ∧ factor ≤ 9 ∧ change.speed = .ofNat factor

/-- Teams have names in lower case, and all runs and changes are well kept. -/
structure Timeline.WellKept (timeline : Timeline) : Prop where
  team_ne : ∀ stored ∈ timeline.teams, stored.1 ≠ ""
  team_lower : ∀ stored ∈ timeline.teams, stored.1.map Char.toLower = stored.1
  runs : ∀ entry ∈ timeline.runs, entry.2.WellKept
  changes : ∀ change ∈ timeline.changes, change.WellKept

variable {readings : List Timeline.Reading} {ticks : List BoundTick} {run : Run} {i : Interval}
  {slot : Slot} {code : RunCode}

/-! ### Intervals of ticks -/

/-- An interval of ticks has a bound as soon as there is a tick. -/
theorem lastInterval_hasBound_iff : (lastInterval ticks).HasBound ↔ ticks ≠ [] := by
  rcases List.eq_nil_or_concat ticks with rfl | ⟨earlier, tick, rfl⟩
  · simp [lastInterval, Interval.HasBound]
  · rw [List.concat_eq_append, lastInterval_append_singleton]
    refine iff_of_true ?_ (List.append_ne_nil_of_right_ne_nil _ (List.cons_ne_nil _ _))
    cases tick.endpoint with
    | start => exact Or.inl rfl
    | stop => exact Or.inr rfl

theorem isSome_source_lastInterval_iff : (lastInterval ticks).source.isSome ↔ ticks ≠ [] := by
  rw [lastInterval, Option.isSome_map, Option.isSome_iff_ne_none, ne_eq, List.getLast?_eq_none_iff]

/-! ### Slots of a run -/

/-- An interval of a run is the interval of a slot. -/
theorem Run.exists_interval_eq (h : i ∈ run.intervals) : ∃ slot, run.interval slot = i := by
  rcases List.mem_append.mp h with hintro | hcheckpoint
  · rw [Option.mem_toList] at hintro
    exact ⟨.intro, by rw [Run.interval, hintro, Option.getD_some]⟩
  · obtain ⟨index, hindex⟩ := List.mem_iff_getElem?.mp hcheckpoint
    exact ⟨.checkpoint index, by rw [Run.interval, hindex, Option.getD_some]⟩

/-- A slot with a bound is an interval of the run. -/
theorem Run.interval_mem_of_hasBound (h : (run.interval slot).HasBound) :
    run.interval slot ∈ run.intervals := by
  have hempty : ¬ ({} : Interval).HasBound := by simp [Interval.HasBound]
  cases slot with
  | intro =>
    cases hintro : run.intro with
    | none =>
      rw [Run.interval, hintro] at h
      exact absurd h hempty
    | some i =>
      rw [Run.interval, hintro]
      exact List.mem_append_left _ (Option.mem_toList.mpr hintro)
  | checkpoint index =>
    cases hplace : run.checkpoints[index]? with
    | none =>
      rw [Run.interval, hplace] at h
      exact absurd h hempty
    | some i =>
      rw [Run.interval, hplace]
      exact List.mem_append_right _ (List.mem_of_getElem? hplace)

/-! ### Ticks of readings -/

/-- A checkpoint is named by a single digit. -/
theorem index_le_of_mem {tick : BoundTick} {index : Nat}
    (h : tick ∈ boundTicks (acceptedTicks readings)) (hslot : tick.slot = .checkpoint index) :
    index ≤ 9 := by
  obtain ⟨reading, -, hreading⟩ := mem_boundTicks_acceptedTicks.mp h
  obtain ⟨-, line, -, words, -, word, -, hword⟩ := Timeline.Reading.mem_boundTicks_iff.mp hreading
  obtain ⟨parts, -, -, htick⟩ := ofWord_eq_boundary_iff.mp hword
  obtain ⟨-, hplace, -⟩ := Tick.boundary.inj htick
  rw [hslot] at hplace
  cases hending : parts.ending with
  | intro first second third flag =>
    rw [hending] at hplace
    cases hplace
  | checkpoint first second digit flag =>
    rw [hending, Ending.slot_checkpoint] at hplace
    obtain rfl := Slot.checkpoint.inj hplace
    exact digitValue_le digit

/-- Speeds are named by a single digit, which is not zero. -/
theorem exists_speed_eq_of_mem {change : SpeedChange}
    (h : change ∈ speedTicks (acceptedTicks readings)) :
    ∃ factor : Nat, 1 ≤ factor ∧ factor ≤ 9 ∧ change.speed = .ofNat factor := by
  obtain ⟨reading, -, hreading⟩ := mem_speedTicks_acceptedTicks.mp h
  obtain ⟨-, line, -, words, -, word, -, factor, hword, hspeed⟩ :=
    Timeline.Reading.mem_speedTicks_iff.mp hreading
  obtain ⟨hpositive, hle⟩ := speed_of_ofWord hword
  exact ⟨factor, hpositive, hle, hspeed⟩

/-! ### Runs that ticks leave behind -/

/-- A slot has a bound as soon as a tick names it. -/
theorem RunTable.Built.hasBound_iff {runs : List (RunCode × Run)} (h : Built runs ticks) :
    ((runAt runs code).interval slot).HasBound ↔
      ∃ tick ∈ ticks, tick.code = code ∧ tick.slot = slot := by
  rw [h.interval, lastInterval_hasBound_iff, ticksFor_ne_nil_iff]

/-- The last checkpoint is one that a tick names. -/
theorem RunTable.Built.last_hasBound {runs : List (RunCode × Run)} (h : Built runs ticks)
    (hlast : (runAt runs code).checkpoints.getLast? = some i) : i.HasBound := by
  rw [List.getLast?_eq_getElem?] at hlast
  obtain ⟨hlt, -⟩ := List.getElem?_eq_some_iff.mp hlast
  obtain ⟨tick, htick, hcode, index, hslot, hle⟩ := (h.lt_length code _).mp hlt
  have hindex : index < (runAt runs code).checkpoints.length :=
    (h.lt_length code index).mpr ⟨tick, htick, hcode, index, hslot, Nat.le_refl _⟩
  obtain rfl : (runAt runs code).checkpoints.length - 1 = index := by omega
  have hbound := h.hasBound_iff.mpr ⟨tick, htick, hcode, hslot⟩
  rwa [Run.interval, hlast, Option.getD_some] at hbound

/-- A run that ticks leave behind is well kept, if they name checkpoints by single digits. -/
theorem RunTable.Built.wellKept {runs : List (RunCode × Run)} (h : Built runs ticks)
    (hindex : ∀ tick ∈ ticks, ∀ index, tick.slot = .checkpoint index → index ≤ 9)
    (hmem : (code, run) ∈ runs) (hsound : run.Sound) : run.WellKept := by
  have hfound := h.ordered.lookup_eq_some_iff.mpr hmem
  obtain rfl := runAt_of_lookup hfound
  constructor
  · obtain ⟨tick, htick, hcode⟩ := (h.isSome_lookup code).mp (Option.isSome_of_eq_some hfound)
    have hbound := h.hasBound_iff.mpr ⟨tick, htick, hcode, rfl⟩
    exact ⟨_, Run.interval_mem_of_hasBound hbound, hbound⟩
  · by_contra hlength
    obtain ⟨tick, htick, -, index, hslot, hle⟩ := (h.lt_length code maxCheckpoints).mp (by omega)
    have hdigit := hindex tick htick index hslot
    rw [maxCheckpoints] at hle
    omega
  · intro i hlast
    exact h.last_hasBound hlast
  · intro i hi
    have hkept := hsound i hi
    obtain ⟨slot, hslot⟩ := Run.exists_interval_eq hi
    rw [h.interval] at hslot
    refine ⟨hkept.start_finite, hkept.stop_finite, ?_, ?_⟩
    · rw [← hslot, isSome_source_lastInterval_iff, lastInterval_hasBound_iff]
    · rw [← hslot]
      rfl

/-- Whatever is read, the teams, runs, intervals and changes of the timeline are well kept. -/
theorem wellKept_after (readings : List Timeline.Reading) :
    (Timeline.after readings).WellKept := by
  have hbuilt := Timeline.built_after readings
  have hsound := Timeline.sound_after readings
  have hteam (stored : String × List (Nat × Run))
      (hstored : stored ∈ (Timeline.after readings).teams) :
      ∃ code : RunCode, code.Recordable ∧ code.team = stored.1 := by
    obtain ⟨entry, hentry, hteam⟩ := Timeline.exists_mem_runs_of_mem_teams hstored
    exact ⟨entry.1, RunCode.recordable_of_mem_runs hentry, hteam⟩
  refine ⟨fun stored hstored ↦ ?_, fun stored hstored ↦ ?_, fun entry hentry ↦ ?_,
    fun change hchange ↦ ⟨(hsound.changes change hchange).time_finite, ?_⟩⟩
  · obtain ⟨code, hcode, hname⟩ := hteam stored hstored
    rw [← hname]
    exact fun hempty ↦ hcode.team_ne_nil (String.toList_eq_nil_iff.mpr hempty)
  · obtain ⟨code, hcode, hname⟩ := hteam stored hstored
    rw [← hname]
    exact hcode.map_toLower_team
  · exact hbuilt.wellKept (fun tick htick index hslot ↦ index_le_of_mem htick hslot) hentry
      (hsound.runs entry hentry)
  · rw [(tells_after readings).1.changes_eq] at hchange
    exact exists_speed_eq_of_mem hchange

end Montage.Timing
