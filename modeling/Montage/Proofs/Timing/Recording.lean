import Mathlib.Data.List.Basic
import Mathlib.Tactic.IntervalCases
import Montage.Proofs.Timing.Pieces
import Montage.Proofs.Timing.RunTable

/-!
# What is recorded

A timeline comes from the empty one by reading lines and whole texts, each on some recording
(`Timeline.Reading`, `Timeline.after`). Whatever the lines say, what they leave behind is sound:
times are finite, an interval with a bound has a recording, and speeds are finite and positive
(`Timeline.Sound`, `Timeline.sound_after`). A tick sets one bound of one interval or declares one
change, so soundness goes from an interval to its run and from the run to the timeline.

Resolution keeps intervals sound (`Interval.Sound.of_mem_resolve`), because the bounds of a fragment
are bounds of its interval or times of changes.
-/

set_option autoImplicit false
set_option relaxedAutoImplicit false

namespace Montage.Timing

open Numeric Montage.Timing.Interval

/-- A speed at which something can be played. -/
def IsSpeed (speed : Binary64) : Prop := speed.isFinite ∧ Binary64.zero false < speed

/-- The bounds that an interval has are finite, it has a recording as soon as it has a bound, and
its speed can be played. -/
structure Interval.Sound (i : Interval) : Prop where
  start_finite : ∀ time, i.start = some time → time.isFinite
  stop_finite : ∀ time, i.stop = some time → time.isFinite
  source_isSome : i.start.isSome ∨ i.stop.isSome → i.source.isSome
  isSpeed : IsSpeed i.speed

/-- The time of a change is finite and its speed can be played. -/
structure SpeedChange.Sound (c : SpeedChange) : Prop where
  time_finite : c.time.isFinite
  isSpeed : IsSpeed c.speed

/-- All intervals of the run are sound. -/
def Run.Sound (run : Run) : Prop := ∀ i ∈ run.intervals, i.Sound

/-- All runs and all changes of the timeline are sound. -/
structure Timeline.Sound (timeline : Timeline) : Prop where
  runs : ∀ entry ∈ timeline.runs, entry.2.Sound
  changes : ∀ c ∈ timeline.changes, c.Sound

variable {i f : Interval} {c : SpeedChange} {changes : List SpeedChange} {run : Run}
  {runs : List (RunCode × Run)} {timeline : Timeline} {time : Binary64}

/-! ### Intervals and runs -/

theorem isSpeed_one : IsSpeed .one := by
  constructor <;> decide +kernel

theorem Interval.sound_empty : ({} : Interval).Sound :=
  ⟨by simp, by simp, by simp, isSpeed_one⟩

theorem Interval.Sound.mark (h : i.Sound) (htime : time.isFinite) (endpoint : Endpoint)
    (source : Path) : (i.mark endpoint time source).Sound := by
  cases endpoint with
  | start =>
    refine ⟨?_, h.stop_finite, fun _ ↦ rfl, h.isSpeed⟩
    rintro _ ⟨⟩
    exact htime
  | stop =>
    refine ⟨h.start_finite, ?_, fun _ ↦ rfl, h.isSpeed⟩
    rintro _ ⟨⟩
    exact htime

theorem Run.sound_empty : ({} : Run).Sound := by
  intro i hi
  cases hi

theorem Run.Sound.mark (h : run.Sound) (htime : time.isFinite) (slot : Slot) (endpoint : Endpoint)
    (source : Path) : (run.mark slot endpoint time source).Sound := by
  intro i hi
  cases slot with
  | intro =>
    rcases List.mem_append.mp hi with hintro | hcheckpoint
    · obtain rfl := List.mem_singleton.mp hintro
      refine Interval.Sound.mark ?_ htime endpoint source
      cases hold : run.intro with
      | none => exact Interval.sound_empty
      | some old => exact h old (List.mem_append_left _ (by simp [hold]))
    · exact h i (List.mem_append_right _ hcheckpoint)
  | checkpoint index =>
    rcases List.mem_append.mp hi with hintro | hcheckpoint
    · exact h i (List.mem_append_left _ hintro)
    · have hgrown (j : Interval) (hj : j ∈ run.checkpoints ++
          List.replicate (index + 1 - run.checkpoints.length) ({} : Interval)) : j.Sound := by
        rcases List.mem_append.mp hj with hold | hgap
        · exact h j (List.mem_append_right _ hold)
        · rw [List.eq_of_mem_replicate hgap]
          exact Interval.sound_empty
      obtain ⟨place, hplace⟩ := List.mem_iff_getElem?.mp hcheckpoint
      simp only [Run.mark, List.getElem?_modify] at hplace
      obtain ⟨j, hj, rfl⟩ := Option.map_eq_some_iff.mp hplace
      have hsound := hgrown j (List.mem_of_getElem? hj)
      split
      · exact hsound.mark htime endpoint source
      · exact hsound

/-! ### Ticks and lines -/

theorem sound_alterRun {code : RunCode} {change : Run → Run}
    (h : ∀ entry ∈ runs, entry.2.Sound) (hchange : ∀ run : Run, run.Sound → (change run).Sound) :
    ∀ entry ∈ Timeline.alterRun code change runs, entry.2.Sound := by
  intro entry hentry
  rcases RunTable.mem_alterRun hentry with hold | ⟨-, ⟨old, hold, heq⟩ | hnew⟩
  · exact h entry hold
  · rw [heq]
    exact hchange _ (h old hold)
  · rw [hnew]
    exact hchange _ Run.sound_empty

theorem digitValue_le (c : Char) : Tick.digitValue c ≤ 9 := by
  rw [Tick.digitValue]
  split_ifs with hdigit
  · have hle := (Char.isDigit_iff_toNat.mp hdigit).2
    have hnine : '9'.toNat = '0'.toNat + 9 := rfl
    omega
  · omega

/-- A word that is read as a speed names one from one to nine. -/
theorem speed_of_ofWord {word : List Char} {factor : Nat} (h : Tick.ofWord word = .speed factor) :
    0 < factor ∧ factor ≤ 9 := by
  unfold Tick.ofWord at h
  cases hboundary : Tick.readBoundary? word with
  | some tick =>
    rw [hboundary, Option.getD_some] at h
    unfold Tick.readBoundary? at hboundary
    dsimp only at hboundary
    split_ifs at hboundary
    obtain ⟨⟨slot, endpoint⟩, -, htick⟩ := Option.map_eq_some_iff.mp hboundary
    rw [h] at htick
    dsimp only at htick
    split at htick <;> cases htick
  | none =>
    rw [hboundary, Option.getD_none] at h
    unfold Tick.readSpeed? at h
    split at h
    next x digit =>
      split_ifs at h with hword hpositive
      · rw [Option.getD_some, Tick.speed.injEq] at h
        rw [← h]
        exact ⟨hpositive, digitValue_le digit⟩
      · cases h
      · cases h
    · cases h

theorem isSpeed_ofNat {factor : Nat} (hpositive : 0 < factor) (hle : factor ≤ 9) :
    IsSpeed (.ofNat factor) := by
  constructor <;> interval_cases factor <;> decide +kernel

theorem Timeline.Sound.recordTick (h : timeline.Sound) (htime : time.isFinite) (source : Path)
    (word : List Char) : (timeline.recordTick source time (Tick.ofWord word)).Sound := by
  unfold Timeline.recordTick
  split
  next code slot endpoint _ =>
    exact ⟨sound_alterRun h.runs fun run hrun ↦ hrun.mark htime slot endpoint source, h.changes⟩
  next factor hword =>
    obtain ⟨hpositive, hle⟩ := speed_of_ofWord hword
    refine ⟨h.runs, fun c hc ↦ ?_⟩
    rcases List.mem_append.mp hc with hold | hnew
    · exact h.changes c hold
    · rw [List.mem_singleton.mp hnew]
      exact ⟨htime, isSpeed_ofNat hpositive hle⟩
  · exact h

/-- A line with a time has a finite one. -/
theorem isFinite_of_ofLine {line : List Char} {words : List (List Char)}
    (h : TimedLine.ofLine line = .timed time words) : time.isFinite := by
  unfold TimedLine.ofLine at h
  split at h
  · cases h
  · dsimp only at h
    split at h
    · split_ifs at h with hfinite
      cases h
      exact hfinite
    · cases h

theorem Timeline.Sound.recordLine (h : timeline.Sound) (source : Path) (line : List Char) :
    (timeline.recordLine source line).Sound := by
  unfold Timeline.recordLine
  split
  next time words hline =>
    have htime := isFinite_of_ofLine hline
    exact List.foldlRecOn words _ h fun _ hbefore word _ ↦ hbefore.recordTick htime source word
  · exact h

/-! ### Readings -/

namespace Timeline

/-- Something that a timeline is made to read. -/
inductive Reading where
  /-- One line of a recording. -/
  | line (source : Path) (line : List Char)
  /-- A whole text of a recording. -/
  | text (source : Path) (text : String)

/-- The timeline after a reading. -/
def read (timeline : Timeline) : Reading → Timeline
  | .line source line => timeline.recordLine source line
  | .text source text => timeline.recordText source text

/-- The timeline after readings from the empty one on. -/
def after (readings : List Reading) : Timeline := readings.foldl read {}

theorem Sound.read (h : timeline.Sound) (reading : Reading) : (timeline.read reading).Sound := by
  cases reading with
  | line source line => exact h.recordLine source line
  | text source text =>
    exact List.foldlRecOn _ _ h fun _ hbefore line _ ↦ hbefore.recordLine source line

/-- Every timeline that was read is sound. -/
theorem sound_after (readings : List Reading) : (after readings).Sound := by
  have hempty : ({} : Timeline).Sound := ⟨by simp, by simp⟩
  exact List.foldlRecOn readings _ hempty fun _ hbefore reading _ ↦ hbefore.read reading

theorem Sound.of_run? (h : timeline.Sound) {code : RunCode} (hrun : timeline.run? code = some run) :
    run.Sound := by
  obtain ⟨entry, hentry, rfl⟩ := Option.map_eq_some_iff.mp hrun
  exact h.runs entry (List.mem_of_find?_eq_some hentry)

end Timeline

/-! ### Resolution -/

theorem Interval.Sound.of_mem_pieces (h : i.Sound) (hc : c.Sound) (hf : f ∈ i.pieces c) :
    f.Sound := by
  by_cases hcontains : i.Contains c
  · obtain ⟨source, start, stop, hspans, -⟩ := exists_spans_of_contains hcontains
    have hsource : i.source.isSome := by rw [hspans.source_eq]; rfl
    rw [pieces, if_pos hcontains, split] at hf
    split_ifs at hf
    · rw [List.mem_singleton.mp hf]
      exact ⟨h.start_finite, h.stop_finite, h.source_isSome, hc.isSpeed⟩
    · rcases List.mem_pair.mp hf with rfl | rfl
      · refine ⟨h.start_finite, ?_, fun _ ↦ hsource, h.isSpeed⟩
        rintro _ ⟨⟩
        exact hc.time_finite
      · refine ⟨?_, h.stop_finite, fun _ ↦ hsource, hc.isSpeed⟩
        rintro _ ⟨⟩
        exact hc.time_finite
  · rw [pieces_of_not_contains hcontains, List.mem_singleton] at hf
    rwa [hf]

/-- The fragments of a sound interval are sound. -/
theorem Interval.Sound.of_mem_resolve (h : i.Sound) (hchanges : ∀ c ∈ changes, c.Sound)
    (hf : f ∈ resolve [i] changes) : f.Sound := by
  have hall : ∀ g ∈ resolve [i] changes, g.Sound := by
    refine List.foldlRecOn changes applyChange
      (motive := fun fragments ↦ ∀ g ∈ fragments, g.Sound) ?_ ?_
    · rintro g hg
      rwa [List.mem_singleton.mp hg]
    · intro fragments hfragments c hc g hg
      obtain ⟨e, he, hpiece⟩ := List.mem_flatMap.mp hg
      exact (hfragments e he).of_mem_pieces (hchanges c hc) hpiece
  exact hall f hf

end Montage.Timing
