import Montage.Proofs.Composition.Obstacle
import Montage.Proofs.Timing.LastTicks
import Montage.Proofs.Timing.LatestChange

/-!
# How long a speed holds

One could take a change of the speed to hold from its time onward, until the next change of the same
recording (`SpeedHolds`). Resolution is more local than that. A change acts on the interval that
contains it, and what it leaves behind ends where this interval ends: the next checkpoint of the
recording starts at normal speed again (`speed_lapses`).

Within an interval there is no difference. As soon as some change lies in the interval and not after
the start of a fragment, the latest change of the whole recording lies in the interval too, because
every change outside is either before the interval or after the fragment's start
(`Spans.inForce_of_decides`). `speed_of_fragments` puts both together: a fragment plays at the speed
that holds on its recording if its interval has a change by then, and at normal speed otherwise.
-/

set_option autoImplicit false
set_option relaxedAutoImplicit false

namespace Montage.Timing

open Numeric Montage.Timing.Interval

/-! ### Changes of a whole recording -/

/-- The change is on the recording and not after the time. -/
def SpeedChange.Reaches (c : SpeedChange) (source : Path) (time : Binary64) : Prop :=
  source.Same c.source ∧ c.time ≤ time

instance (c : SpeedChange) (source : Path) (time : Binary64) : Decidable (c.Reaches source time) :=
  inferInstanceAs (Decidable (_ ∧ _))

/-- The change in force on a recording at a time. No other change that reaches the time is later,
and none that is declared after it is at the same time. -/
def InForce (changes : List SpeedChange) (source : Path) (time : Binary64) (c : SpeedChange) :
    Prop :=
  ∃ earlier later, changes = earlier ++ c :: later ∧ c.Reaches source time ∧
    (∀ d ∈ earlier, d.Reaches source time → d.time ≤ c.time) ∧
    ∀ d ∈ later, d.Reaches source time → d.time < c.time

/-- The speed of a recording at a time if a change holds until the next one: that of the change in
force, or normal speed if no change reaches the time. -/
def SpeedHolds (changes : List SpeedChange) (source : Path) (time speed : Binary64) : Prop :=
  (∀ c ∈ changes, ¬ c.Reaches source time) ∧ speed = .one ∨
    ∃ c, InForce changes source time c ∧ speed = c.speed

variable {source : Path} {start stop time : Binary64} {i f : Interval} {changes : List SpeedChange}
  {c d : SpeedChange}

/-- A change that reaches a time of the interval lies in the interval or before it. -/
theorem Interval.Spans.counts_or_lt (hi : i.Spans source start stop) (hstop : time < stop)
    (hd : d.Reaches source time) : i.Counts time d ∨ d.time < start := by
  obtain ⟨hsource, hle⟩ := hd
  by_cases hstart : start ≤ d.time
  · left
    refine ⟨hi.contains_iff.mpr ⟨hsource, hstart, ?_⟩, hle⟩
    exact Binary64.lt_of_le_of_lt hle hstop
  · right
    have hlt := hi.start_lt_stop
    grind

/-- The change that decides the speed of an interval at one of its times is in force on the whole
recording. -/
theorem Interval.Spans.inForce_of_decides (hi : i.Spans source start stop) (hstop : time < stop)
    (hc : i.Decides time changes c) : InForce changes source time c := by
  obtain ⟨earlier, later, hchanges, ⟨hcontains, hle⟩, hearlier, hlater⟩ := hc
  obtain ⟨hsource, hstart, -⟩ := hi.contains_iff.mp hcontains
  refine ⟨earlier, later, hchanges, ⟨hsource, hle⟩, ?_, ?_⟩
  · intro d hd hreaches
    rcases hi.counts_or_lt hstop hreaches with hcounts | hbefore
    · exact hearlier d hd hcounts
    · exact Binary64.le_of_lt (Binary64.lt_of_lt_of_le hbefore hstart)
  · intro d hd hreaches
    rcases hi.counts_or_lt hstop hreaches with hcounts | hbefore
    · exact hlater d hd hcounts
    · exact Binary64.lt_of_lt_of_le hbefore hstart

/-! ### Fragments of an interval -/

/-- Every fragment of an interval with an ordered range has a start, and the recording of the
interval. A change that lies in the interval leaves room behind the start. -/
theorem Interval.Sound.start_of_fragment (hi : i.Sound) (hordered : i.Ordered)
    (hf : f ∈ resolve [i] changes) :
    ∃ source time, f.source = some source ∧ f.start = some time ∧
      ∀ c, i.Contains c → ∃ start stop, i.Spans source start stop ∧ time < stop := by
  obtain ⟨start, stop, hbounds, -⟩ := hordered
  obtain ⟨hstart, -⟩ := bounds?_eq_some_iff.mp hbounds
  obtain ⟨source, hsource⟩ : ∃ source, i.source = some source :=
    Option.isSome_iff_exists.mp (hi.source_isSome (Or.inl (Option.isSome_of_eq_some hstart)))
  by_cases hlt : start < stop
  · have hspans := Spans.of_bounds? hsource hbounds hlt
    obtain ⟨a, b, hab, -, hb⟩ := ((Tiling.last hspans).resolve changes).exists_spans hf
    refine ⟨source, a, hab.source_eq, hab.start_eq, fun c _ ↦ ⟨start, stop, hspans, ?_⟩⟩
    exact Binary64.lt_of_lt_of_le hab.start_lt_stop hb
  · rw [resolve_of_not_lt hbounds hlt, List.mem_singleton] at hf
    subst hf
    refine ⟨source, start, hsource, hstart, fun c hcontains ↦ ?_⟩
    obtain ⟨_, a, b, hspans, -⟩ := exists_spans_of_contains hcontains
    have hsame := hspans.bounds?_eq.symm.trans hbounds
    rw [Option.some.injEq, Prod.mk.injEq] at hsame
    obtain ⟨rfl, rfl⟩ := hsame
    exact absurd hspans.start_lt_stop hlt

/-! ### Fragments of a run -/

/-- The fragments of a run that can be played are those of its slots, in order. A fragment plays at
the speed that holds on its recording from the latest change on, if a change lies in the interval of
its slot and not after the start of the fragment. If there is none, it plays at normal speed,
whatever was declared for times before the interval. -/
theorem speed_of_fragments (readings : List Timeline.Reading) (code : RunCode)
    (h : (Timeline.after readings).Playable code) :
    let timeline := Timeline.after readings
    ∃ run, timeline.run? code = some run ∧
      timeline.resolveRun code =
        .ok (run.slots.flatMap fun entry ↦ resolve [entry.2] timeline.changes) ∧
      ∀ entry ∈ run.slots, ∀ f ∈ resolve [entry.2] timeline.changes,
        ∃ source time, f.source = some source ∧ f.start = some time ∧
          ((∃ c ∈ timeline.changes, entry.2.Counts time c) →
            SpeedHolds timeline.changes source time f.speed) ∧
          ((∀ c ∈ timeline.changes, ¬ entry.2.Counts time c) → f.speed = .one) := by
  intro timeline
  obtain ⟨run, hrun, hordered⟩ := h
  have hsound : timeline.Sound := Timeline.sound_after readings
  refine ⟨run, hrun, ?_, fun entry hentry f hf ↦ ?_⟩
  · have hfragments := fragments_eq_flatMap hrun
    rw [Timeline.fragments, hrun] at hfragments
    rw [Timeline.resolveRun, hrun]
    exact congrArg Except.ok hfragments
  · obtain ⟨source, time, hsource, hstart, hroom⟩ :=
      (hsound.slot hrun hentry).start_of_fragment (hordered entry hentry) hf
    refine ⟨source, time, hsource, hstart, ?_, ?_⟩
    · rintro ⟨c, hc, hcounts⟩
      rcases speedAt_of_mem_resolve hf hstart with ⟨hnone, -⟩ | ⟨d, hdecides, hspeed⟩
      · exact absurd hcounts (hnone c hc)
      · obtain ⟨start, stop, hspans, hstop⟩ := hroom c hcounts.1
        exact Or.inr ⟨d, hspans.inForce_of_decides hstop hdecides, hspeed⟩
    · intro hnone
      rcases speedAt_of_mem_resolve hf hstart with ⟨-, hspeed⟩ | ⟨d, hdecides, -⟩
      · -- The interval of a slot that was read has normal speed.
        rw [hspeed, Timeline.eq_lastInterval_of_mem_slots hrun hentry]
        rfl
      · obtain ⟨earlier, later, hchanges, hcounts, -⟩ := hdecides
        refine absurd hcounts (hnone d ?_)
        rw [hchanges]
        exact List.mem_append_right _ List.mem_cons_self

/-- Two checkpoints of a recording that meet, and a change in the first one. -/
def sampleLapse : List Timeline.Reading :=
  [.text ⟨"clip.mp4"⟩ "1=0 ab1cp0a\n2=5 x2\n3=10 ab1cp0b|ab1cp1a\n4=20 ab1cp1b\n"]

/-- The run of the two checkpoints. -/
def sampleLapseRun : Run where
  checkpoints := [.between (.ofNat 0) (.ofNat 10) ⟨"clip.mp4"⟩,
    .between (.ofNat 10) (.ofNat 20) ⟨"clip.mp4"⟩]

/-- The change in the first one. -/
def sampleLapseChange : SpeedChange := ⟨.ofNat 5, .ofNat 2, ⟨"clip.mp4"⟩⟩

theorem run?_sampleLapse : (Timeline.after sampleLapse).run? ⟨"ab", 1⟩ = some sampleLapseRun := by
  decide +kernel

theorem playable_sampleLapse : (Timeline.after sampleLapse).Playable ⟨"ab", 1⟩ := by
  refine ⟨sampleLapseRun, run?_sampleLapse, ?_⟩
  intro entry hentry
  rcases List.mem_pair.mp hentry with rfl | rfl
  · exact ⟨_, _, rfl, by decide +kernel⟩
  · exact ⟨_, _, rfl, by decide +kernel⟩

/-- The first checkpoint plays at double speed from the change on. -/
theorem speed_of_fragments_sample :
    let timeline := Timeline.after sampleLapse
    timeline.Playable ⟨"ab", 1⟩ ∧
      SpeedHolds timeline.changes ⟨"clip.mp4"⟩ (.ofNat 5) (.ofNat 2) := by
  intro timeline
  obtain ⟨run, hrun, -, hall⟩ := speed_of_fragments sampleLapse ⟨"ab", 1⟩ playable_sampleLapse
  obtain rfl := Option.some.inj (run?_sampleLapse.symm.trans hrun)
  obtain ⟨source, time, hsource, htime, hholds, -⟩ := hall _ List.mem_cons_self
    { start := some (.ofNat 5), stop := some (.ofNat 10), source := some ⟨"clip.mp4"⟩,
      speed := .ofNat 2 } (by decide +kernel)
  obtain rfl := Option.some.inj hsource
  obtain rfl := Option.some.inj htime
  refine ⟨playable_sampleLapse, hholds ⟨sampleLapseChange, ?_, ?_, ?_⟩⟩
  · decide +kernel
  · decide +kernel
  · decide +kernel

/-- All runs can be played, and the last checkpoint starts at ten seconds at normal speed. If a
change held until the next one, it would start at double speed. -/
theorem speed_lapses :
    let timeline := Timeline.after sampleLapse
    (∀ entry ∈ timeline.runs, timeline.Playable entry.1) ∧
      timeline.resolveRun ⟨"ab", 1⟩ =
        .ok [.between (.ofNat 0) (.ofNat 5) ⟨"clip.mp4"⟩,
          { start := some (.ofNat 5), stop := some (.ofNat 10), source := some ⟨"clip.mp4"⟩,
            speed := .ofNat 2 },
          .between (.ofNat 10) (.ofNat 20) ⟨"clip.mp4"⟩] ∧
      SpeedHolds timeline.changes ⟨"clip.mp4"⟩ (.ofNat 10) (.ofNat 2) ∧
      ¬ SpeedHolds timeline.changes ⟨"clip.mp4"⟩ (.ofNat 10) .one := by
  intro timeline
  have hruns : timeline.runs = [(⟨"ab", 1⟩, sampleLapseRun)] := by
    decide +kernel
  have hchanges : timeline.changes = [sampleLapseChange] := by
    decide +kernel
  have hreaches : sampleLapseChange.Reaches ⟨"clip.mp4"⟩ (.ofNat 10) := by
    decide +kernel
  refine ⟨?_, ?_, ?_, ?_⟩
  · intro entry hentry
    rw [hruns, List.mem_singleton] at hentry
    rw [hentry]
    exact playable_sampleLapse
  · rw [Timeline.resolveRun, run?_sampleLapse, hchanges]
    exact congrArg Except.ok (by decide +kernel)
  · rw [hchanges]
    exact Or.inr ⟨sampleLapseChange, ⟨[], [], rfl, hreaches, by simp, by simp⟩, rfl⟩
  · rw [hchanges]
    rintro (⟨hnone, -⟩ | ⟨c, ⟨earlier, later, hsplit, -⟩, hspeed⟩)
    · exact hnone sampleLapseChange List.mem_cons_self hreaches
    · have hc : c ∈ [sampleLapseChange] := by
        rw [hsplit]
        exact List.mem_append_right _ List.mem_cons_self
      obtain rfl := List.mem_singleton.mp hc
      revert hspeed
      decide +kernel

end Montage.Timing
