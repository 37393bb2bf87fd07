import Montage.Proofs.Timing.LastTicks

/-!
# The recording of an interval

An interval is meant to be a span of one recording: both of its bounds are times of the recording
that it is cut from (`SpansOwnRecording`). A tick, however, sets one bound of a slot and makes its
own recording the recording of the slot, and leaves the other bound as it was. The recording of a
complete interval therefore is that of the later of the two ticks that its bounds come from, and the
earlier tick need not be of the same recording: the interval spans its own recording exactly if the
two ticks are of one recording (`spansOwnRecording_iff`).

They need not be when a slot is opened in one timing file and closed in another
(`mixes_recordings`). Nothing that happens to the interval later looks at where its bounds come
from, so such an interval is cut and played like any other.
-/

set_option autoImplicit false
set_option relaxedAutoImplicit false

namespace Montage.Timing

open Numeric

/-! ### Ticks that bounds come from -/

/-- The tick that a bound of a slot comes from: the last one that set it. -/
def settingTick? (code : RunCode) (slot : Slot) (endpoint : Endpoint) (ticks : List BoundTick) :
    Option BoundTick :=
  ((ticksFor code slot ticks).filter (·.endpoint = endpoint)).getLast?

/-- Both bounds of the interval of a slot come from ticks on the interval's own recording. -/
def SpansOwnRecording (ticks : List BoundTick) (code : RunCode) (slot : Slot) (i : Interval) :
    Prop :=
  ∃ source, i.source = some source ∧ ∀ endpoint, ∃ tick,
    settingTick? code slot endpoint ticks = some tick ∧ i.bound? endpoint = some tick.time ∧
      tick.source.Same source

variable {ticks : List BoundTick} {code : RunCode} {slot : Slot} {i : Interval}
  {last opening closing : BoundTick}

/-- The last tick of a slot is the one that its bound comes from. -/
theorem settingTick?_of_getLast? (h : (ticksFor code slot ticks).getLast? = some last) :
    settingTick? code slot last.endpoint ticks = some last := by
  obtain ⟨earlier, hearlier⟩ := List.getLast?_eq_some_iff.mp h
  have hkept : [last].filter (·.endpoint = last.endpoint) = [last] :=
    List.filter_cons_of_pos (decide_eq_true rfl)
  rw [settingTick?, hearlier, List.filter_append, hkept, List.getLast?_concat]

/-- If both bounds of a slot are set, its last tick is one of the two that they come from. -/
theorem exists_last_of_settingTick? (hopening : settingTick? code slot .start ticks = some opening)
    (hclosing : settingTick? code slot .stop ticks = some closing) :
    ∃ last, (ticksFor code slot ticks).getLast? = some last ∧
      (last = opening ∨ last = closing) := by
  cases hlast : (ticksFor code slot ticks).getLast? with
  | none =>
    rw [List.getLast?_eq_none_iff] at hlast
    rw [settingTick?, hlast] at hopening
    cases hopening
  | some last =>
    have hsetting := settingTick?_of_getLast? hlast
    refine ⟨last, rfl, ?_⟩
    cases hendpoint : last.endpoint with
    | start =>
      rw [hendpoint, hopening] at hsetting
      exact Or.inl (Option.some.inj hsetting).symm
    | stop =>
      rw [hendpoint, hclosing] at hsetting
      exact Or.inr (Option.some.inj hsetting).symm

/-- A complete interval has the times of the ticks that its bounds come from, and the recording of
the later one of them. -/
theorem exists_settingTicks_of_lastInterval
    (h : (lastInterval (ticksFor code slot ticks)).bounds? ≠ none) :
    ∃ opening closing last,
      settingTick? code slot .start ticks = some opening ∧
      settingTick? code slot .stop ticks = some closing ∧
      (ticksFor code slot ticks).getLast? = some last ∧ (last = opening ∨ last = closing) ∧
      lastInterval (ticksFor code slot ticks) =
        { start := some opening.time, stop := some closing.time, source := some last.source } := by
  have hstart : (lastInterval (ticksFor code slot ticks)).start =
      (settingTick? code slot .start ticks).map BoundTick.time := rfl
  have hstop : (lastInterval (ticksFor code slot ticks)).stop =
      (settingTick? code slot .stop ticks).map BoundTick.time := rfl
  rw [Interval.bounds?, hstart, hstop] at h
  cases hopening : settingTick? code slot .start ticks with
  | none => simp [hopening] at h
  | some opening =>
    cases hclosing : settingTick? code slot .stop ticks with
    | none => simp [hclosing] at h
    | some closing =>
      obtain ⟨last, hlast, heither⟩ := exists_last_of_settingTick? hopening hclosing
      refine ⟨opening, closing, last, rfl, rfl, hlast, heither, ?_⟩
      rw [settingTick?] at hopening hclosing
      rw [lastInterval, hopening, hclosing, hlast]
      rfl

/-- An interval with the recording of one of the two ticks spans it if both ticks are on it. -/
theorem spansOwnRecording_of_settingTicks
    (hopening : settingTick? code slot .start ticks = some opening)
    (hclosing : settingTick? code slot .stop ticks = some closing)
    (heither : last = opening ∨ last = closing)
    (hi : i = { start := some opening.time, stop := some closing.time,
                source := some last.source }) :
    SpansOwnRecording ticks code slot i ↔ opening.source.Same closing.source := by
  subst hi
  constructor
  · rintro ⟨source, -, hbounds⟩
    obtain ⟨first, hfirst, -, hfirstSource⟩ := hbounds .start
    obtain ⟨second, hsecond, -, hsecondSource⟩ := hbounds .stop
    obtain rfl : opening = first := Option.some.inj (hopening.symm.trans hfirst)
    obtain rfl : closing = second := Option.some.inj (hclosing.symm.trans hsecond)
    exact hfirstSource.trans hsecondSource.symm
  · intro hsame
    refine ⟨last.source, rfl, fun endpoint ↦ ?_⟩
    cases endpoint with
    | start =>
      refine ⟨opening, hopening, rfl, ?_⟩
      rcases heither with rfl | rfl
      · exact Path.Same.refl _
      · exact hsame
    | stop =>
      refine ⟨closing, hclosing, rfl, ?_⟩
      rcases heither with rfl | rfl
      · exact hsame.symm
      · exact Path.Same.refl _

/-! ### Intervals of a timeline that was read -/

/-- A complete interval of a run has the times of the last ticks that opened and closed its slot and
the recording of the later one of them. It spans its own recording, with both bounds from ticks on
it, if and only if these two ticks are on the same recording. -/
theorem spansOwnRecording_iff (readings : List Timeline.Reading) (code : RunCode) (run : Run)
    (hrun : (Timeline.after readings).run? code = some run) (entry : Slot × Interval)
    (hentry : entry ∈ run.slots) (hcomplete : entry.2.bounds? ≠ none) :
    let ticks := boundTicks (acceptedTicks readings)
    ∃ opening closing last,
      settingTick? code entry.1 .start ticks = some opening ∧
      settingTick? code entry.1 .stop ticks = some closing ∧
      (ticksFor code entry.1 ticks).getLast? = some last ∧ (last = opening ∨ last = closing) ∧
      entry.2 = { start := some opening.time, stop := some closing.time,
                  source := some last.source } ∧
      (SpansOwnRecording ticks code entry.1 entry.2 ↔ opening.source.Same closing.source) := by
  intro ticks
  have hinterval : entry.2 = lastInterval (ticksFor code entry.1 ticks) :=
    Timeline.eq_lastInterval_of_mem_slots hrun hentry
  rw [hinterval] at hcomplete
  obtain ⟨opening, closing, last, hopening, hclosing, hlast, heither, heq⟩ :=
    exists_settingTicks_of_lastInterval hcomplete
  rw [← hinterval] at heq
  exact ⟨opening, closing, last, hopening, hclosing, hlast, heither, heq,
    spansOwnRecording_of_settingTicks hopening hclosing heither heq⟩

/-- A checkpoint that is opened in one recording, and opened again and closed in another, whose path
is written in two ways. -/
def sampleReopened : List Timeline.Reading :=
  [.line ⟨"day.mp4"⟩ "1=2 ab1cp0a".toList, .text ⟨"night/clip.mp4"⟩ "1=4 ab1cp0a\n",
    .line ⟨"night//clip.mp4"⟩ "2=9 ab1cp0b".toList]

/-- The checkpoint spans its recording: the first opening was replaced. -/
theorem spansOwnRecording_iff_sample :
    let i : Interval := .between (.ofNat 4) (.ofNat 9) ⟨"night//clip.mp4"⟩
    (Timeline.after sampleReopened).run? ⟨"ab", 1⟩ = some ⟨none, [i]⟩ ∧
      SpansOwnRecording (boundTicks (acceptedTicks sampleReopened)) ⟨"ab", 1⟩ (.checkpoint 0)
        i := by
  intro i
  have hrun : (Timeline.after sampleReopened).run? ⟨"ab", 1⟩ = some ⟨none, [i]⟩ := by
    decide +kernel
  have hfirst : settingTick? ⟨"ab", 1⟩ (.checkpoint 0) .start
      (boundTicks (acceptedTicks sampleReopened)) =
        some ⟨⟨"ab", 1⟩, .checkpoint 0, .start, .ofNat 4, ⟨"night/clip.mp4"⟩⟩ := by
    decide +kernel
  have hsecond : settingTick? ⟨"ab", 1⟩ (.checkpoint 0) .stop
      (boundTicks (acceptedTicks sampleReopened)) =
        some ⟨⟨"ab", 1⟩, .checkpoint 0, .stop, .ofNat 9, ⟨"night//clip.mp4"⟩⟩ := by
    decide +kernel
  obtain ⟨opening, closing, -, hopening, hclosing, -, -, -, hiff⟩ :=
    spansOwnRecording_iff sampleReopened ⟨"ab", 1⟩ _ hrun (.checkpoint 0, i) List.mem_cons_self
      (Option.some_ne_none _)
  refine ⟨hrun, hiff.mpr ?_⟩
  obtain rfl := Option.some.inj (hfirst.symm.trans hopening)
  obtain rfl := Option.some.inj (hsecond.symm.trans hclosing)
  decide +kernel

/-- A checkpoint that is opened in one recording and closed in another. -/
def sampleMixed : List Timeline.Reading :=
  [.line ⟨"day.mp4"⟩ "1=2 ab1cp0a".toList, .line ⟨"night.mp4"⟩ "1=9 ab1cp0b".toList]

/-- The checkpoint is cut from the second recording, from a time on that was logged for the first
one. -/
theorem mixes_recordings :
    let i : Interval := .between (.ofNat 2) (.ofNat 9) ⟨"night.mp4"⟩
    let ticks := boundTicks (acceptedTicks sampleMixed)
    (Timeline.after sampleMixed).run? ⟨"ab", 1⟩ = some ⟨none, [i]⟩ ∧
      (Timeline.after sampleMixed).resolveRun ⟨"ab", 1⟩ = .ok [i] ∧
      (settingTick? ⟨"ab", 1⟩ (.checkpoint 0) .start ticks).map BoundTick.source =
        some ⟨"day.mp4"⟩ ∧
      ¬ SpansOwnRecording ticks ⟨"ab", 1⟩ (.checkpoint 0) i := by
  intro i ticks
  have hrun : (Timeline.after sampleMixed).run? ⟨"ab", 1⟩ = some ⟨none, [i]⟩ := by
    decide +kernel
  have hopening : (settingTick? ⟨"ab", 1⟩ (.checkpoint 0) .start ticks).map BoundTick.source =
      some ⟨"day.mp4"⟩ := by
    decide +kernel
  refine ⟨hrun, ?_, hopening, ?_⟩
  · rw [Timeline.resolveRun, hrun]
    exact congrArg Except.ok (by decide +kernel)
  · rintro ⟨source, hsource, hbounds⟩
    obtain ⟨tick, htick, -, hsame⟩ := hbounds .start
    obtain rfl : ⟨"night.mp4"⟩ = source := Option.some.inj hsource
    rw [htick, Option.map_some, Option.some.injEq] at hopening
    rw [hopening] at hsame
    revert hsame
    decide +kernel

end Montage.Timing
