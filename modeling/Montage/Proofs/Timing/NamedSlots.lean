import Montage.Proofs.Timing.BoundWords
import Montage.Proofs.Timing.LastTicks

/-!
# The slot that a tick names

A tick that is a bound changes nothing but this bound, the recording of its slot and the gaps below
a new checkpoint (`Sets`). A word that names a slot sets a bound of this slot. A word may have the
parts of a bound and name no slot, because its digit is of another script: it sets a bound of the
first checkpoint then (`sets_of_word`), and can replace the bound that another word has set
(`foreign_digit_replaces`). All other words leave the runs as they are.
-/

set_option autoImplicit false
set_option relaxedAutoImplicit false

namespace Montage.Timing

open Numeric

/-! ### Setting a bound -/

/-- In a run, one bound of one slot is set. The slot then has the recording of the tick, its other
bound and its speed are kept, and all other slots are as they were: an intro is added only if it is
the slot, and the checkpoints that are added below the slot are empty intervals. -/
structure SetsInRun (old run : Run) (tick : BoundTick) : Prop where
  bound : (run.interval tick.slot).bound? tick.endpoint = some tick.time
  source : (run.interval tick.slot).source = some tick.source
  otherBound : ∀ endpoint, endpoint ≠ tick.endpoint →
    (run.interval tick.slot).bound? endpoint = (old.interval tick.slot).bound? endpoint
  speed : (run.interval tick.slot).speed = (old.interval tick.slot).speed
  otherSlots : ∀ slot, slot ≠ tick.slot → run.interval slot = old.interval slot
  intro : run.intro.isSome ↔ old.intro.isSome ∨ tick.slot = .intro
  checkpoints : ∀ place, place < run.checkpoints.length ↔
    place < old.checkpoints.length ∨ ∃ index, tick.slot = .checkpoint index ∧ place ≤ index

/-- From one timeline to the next, a bound is set in one run, which may be new. All other runs and
the changes of the speed are as they were. -/
structure Sets (timeline next : Timeline) (tick : BoundTick) : Prop where
  changes : next.changes = timeline.changes
  others : ∀ code, code ≠ tick.code → next.run? code = timeline.run? code
  run : ∃ run, next.run? tick.code = some run ∧
    SetsInRun ((timeline.run? tick.code).getD {}) run tick

theorem bound?_mark_of_ne (i : Interval) (time : Binary64) (source : Path)
    {endpoint other : Endpoint} (h : other ≠ endpoint) :
    (i.mark endpoint time source).bound? other = i.bound? other := by
  cases endpoint <;> cases other
  · exact absurd rfl h
  · rfl
  · rfl
  · exact absurd rfl h

theorem setsInRun_mark (run : Run) (tick : BoundTick) :
    SetsInRun run (run.mark tick.slot tick.endpoint tick.time tick.source) tick := by
  have hslot : (run.mark tick.slot tick.endpoint tick.time tick.source).interval tick.slot =
      (run.interval tick.slot).mark tick.endpoint tick.time tick.source := by
    rw [Run.interval_mark, if_pos rfl]
  refine ⟨?_, ?_, fun endpoint hother ↦ ?_, ?_, fun slot hother ↦ ?_, ?_, ?_⟩
  · rw [hslot]
    cases tick.endpoint <;> rfl
  · rw [hslot]
    cases tick.endpoint <;> rfl
  · rw [hslot, bound?_mark_of_ne _ _ _ hother]
  · rw [hslot]
    cases tick.endpoint <;> rfl
  · rw [Run.interval_mark, if_neg hother.symm]
  · exact Run.isSome_intro_mark _ _ _ _ _
  · exact Run.lt_length_mark _ _ _ _ _

/-- A tick that is a bound sets this bound. -/
theorem sets_recordTick {timeline : Timeline} (hruns : RunTable.Ordered timeline.runs)
    (tick : BoundTick) :
    Sets timeline (timeline.recordTick tick.source tick.time
      (.boundary tick.code tick.slot tick.endpoint)) tick := by
  have hrun (code : RunCode) := hruns.lookup_alterRun tick.code
    (·.mark tick.slot tick.endpoint tick.time tick.source) code
  refine ⟨rfl, fun code hcode ↦ (hrun code).trans (if_neg hcode.symm), _,
    (hrun tick.code).trans (if_pos rfl), ?_⟩
  exact setsInRun_mark _ tick

/-- A tick that is no bound leaves the runs as they are. -/
theorem runs_recordTick_of_ne {timeline : Timeline} {source : Path} {time : Binary64} {tick : Tick}
    (h : ∀ code slot endpoint, tick ≠ .boundary code slot endpoint) :
    (timeline.recordTick source time tick).runs = timeline.runs := by
  cases tick with
  | boundary code slot endpoint => exact absurd rfl (h code slot endpoint)
  | counterOutOfRange => rfl
  | speed factor => rfl
  | standstill => rfl
  | unrecognized => rfl

/-- A word without the parts of a bound leaves all runs as they are. A word with these parts has
them in one way, and sets a bound of the slot that it names and nothing else. If it names no slot,
because its digit is of another script, it sets a bound of the first checkpoint. -/
theorem sets_of_word (source : Path) (time : Binary64) (timeline : Timeline)
    (hruns : RunTable.Ordered timeline.runs) (word : List Char) :
    let next := timeline.recordTick source time (Tick.ofWord word)
    ((¬ ∃ parts : BoundWord, parts.WellFormed ∧ parts.text = word) →
        next.runs = timeline.runs) ∧
      ∀ parts : BoundWord, parts.WellFormed → parts.text = word →
        (∀ other : BoundWord, other.WellFormed → other.text = word → other = parts) ∧
        (∀ slot, parts.ending.named? = some slot →
          Sets timeline next ⟨parts.code, slot, parts.ending.endpoint, time, source⟩) ∧
        (parts.ending.named? = none →
          Sets timeline next ⟨parts.code, .checkpoint 0, parts.ending.endpoint, time, source⟩) := by
  intro next
  refine ⟨fun hnone ↦ runs_recordTick_of_ne fun code slot endpoint htick ↦ ?_,
    fun parts hparts htext ↦ ?_⟩
  · obtain ⟨parts, hparts, htext, -⟩ := ofWord_eq_boundary_iff.mp htick
    exact hnone ⟨parts, hparts, htext⟩
  have htick : Tick.ofWord word = parts.tick :=
    ofWord_eq_boundary_iff.mpr ⟨parts, hparts, htext, rfl⟩
  have hsets : Sets timeline next
      ⟨parts.code, parts.ending.slot, parts.ending.endpoint, time, source⟩ := by
    rw [show next = timeline.recordTick source time parts.tick by rw [← htick]]
    exact sets_recordTick hruns
      ⟨parts.code, parts.ending.slot, parts.ending.endpoint, time, source⟩
  rw [Ending.slot] at hsets
  refine ⟨fun other hother hsame ↦ hparts.eq_of_text_eq hother (hsame.trans htext.symm),
    fun slot hslot ↦ ?_, fun hnone ↦ ?_⟩
  · rwa [hslot] at hsets
  · rwa [hnone] at hsets

/-- A checkpoint that is opened. -/
def sampleOpened : Timeline := .after [.line ⟨"clip.mp4"⟩ "1=2 ab1cp0a".toList]

/-- The parts of a word that closes the checkpoint after the next one. -/
def sampleClosing : BoundWord where
  team := ['A', 'B']
  digits := ['0', '1']
  ending := .checkpoint 'c' 'P' '2' 'B'

theorem sets_of_word_sample :
    RunTable.Ordered sampleOpened.runs ∧ sampleClosing.WellFormed ∧
      sampleClosing.text = "AB01cP2B".toList ∧ sampleClosing.code = ⟨"ab", 1⟩ ∧
      Sets sampleOpened
        (sampleOpened.recordTick ⟨"clip.mp4"⟩ (.ofNat 9) (Tick.ofWord "AB01cP2B".toList))
        ⟨sampleClosing.code, .checkpoint 2, .stop, .ofNat 9, ⟨"clip.mp4"⟩⟩ := by
  have hruns : RunTable.Ordered sampleOpened.runs := (Timeline.built_after _).ordered
  have hparts : sampleClosing.WellFormed := by decide +kernel
  have htext : sampleClosing.text = "AB01cP2B".toList := by decide
  obtain ⟨-, hsets⟩ := sets_of_word ⟨"clip.mp4"⟩ (.ofNat 9) sampleOpened hruns "AB01cP2B".toList
  obtain ⟨-, hnamed, -⟩ := hsets sampleClosing hparts htext
  exact ⟨hruns, hparts, htext, by decide +kernel, hnamed (.checkpoint 2) (by decide +kernel)⟩

/-- The parts of a word with a digit of another script. -/
def foreignDigit : BoundWord where
  team := ['a', 'b']
  digits := ['1']
  ending := .checkpoint 'c' 'p' '\u0663' 'a'

/-- The word names no slot, and it replaces the bound that the first checkpoint had. -/
theorem foreign_digit_replaces :
    foreignDigit.WellFormed ∧ foreignDigit.text = "ab1cp\u0663a".toList ∧
      foreignDigit.ending.named? = none ∧
      sampleOpened.run? ⟨"ab", 1⟩ =
        some ⟨none, [{ start := some (.ofNat 2), source := some ⟨"clip.mp4"⟩ }]⟩ ∧
      (sampleOpened.recordTick ⟨"clip.mp4"⟩ (.ofNat 9)
          (Tick.ofWord "ab1cp\u0663a".toList)).run? ⟨"ab", 1⟩ =
        some ⟨none, [{ start := some (.ofNat 9), source := some ⟨"clip.mp4"⟩ }]⟩ := by
  refine ⟨by decide +kernel, by decide, by decide +kernel, ?_, ?_⟩
  · decide +kernel
  · decide +kernel

end Montage.Timing
