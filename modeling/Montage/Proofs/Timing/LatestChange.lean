import Mathlib.Data.List.Induction
import Montage.Proofs.Timing.Coverage

/-!
# The latest change sets the speed

Resolution never compares two changes and never sorts them, and still the fragments come out as if
it did. A fragment plays at the speed of the latest change of its interval that is not after the
start of the fragment; of several changes at one time it is the one that was declared last; and if
there is none, the fragment keeps the speed of the interval (`SpeedAt`).

The induction is over the changes from the first to the last declared. A change inside a fragment
starts a new one and is then the latest at that start. A change that lies before a fragment and not
in it cannot be the latest there, because the fragment starts at a change too, and at a later one
(`mem_starts_resolve`).

`speed_of_mem_resolve` is the statement. It ends with the case of two intervals that meet: a change
at the time where they meet sets the speed of the second one's first fragment and nothing else.
-/

set_option autoImplicit false
set_option relaxedAutoImplicit false

namespace Montage.Timing

open Numeric Montage.Timing.Interval

variable {source : Path} {start stop time speed : Binary64} {i j f : Interval}
  {fragments : List Interval} {changes : List SpeedChange} {c d : SpeedChange}

/-- Whether a change can have set the speed of an interval at a time: it lies in the interval and is
not after the time. -/
def Interval.Counts (i : Interval) (time : Binary64) (c : SpeedChange) : Prop :=
  i.Contains c ∧ c.time ≤ time

/-- The change that decides the speed of an interval at a time. No other change that counts is
later, and none that is declared after it is at the same time. -/
def Interval.Decides (i : Interval) (time : Binary64) (changes : List SpeedChange)
    (c : SpeedChange) : Prop :=
  ∃ earlier later, changes = earlier ++ c :: later ∧ i.Counts time c ∧
    (∀ d ∈ earlier, i.Counts time d → d.time ≤ c.time) ∧
    ∀ d ∈ later, i.Counts time d → d.time < c.time

/-- The speed of an interval at a time: that of the deciding change, or its own if no change
counts. -/
def Interval.SpeedAt (i : Interval) (changes : List SpeedChange) (time speed : Binary64) : Prop :=
  (∀ c ∈ changes, ¬ i.Counts time c) ∧ speed = i.speed ∨
    ∃ c, i.Decides time changes c ∧ speed = c.speed

namespace Interval

/-- A deciding change remains one if what is declared next is before it or does not count. -/
theorem Decides.append (h : i.Decides time changes d) (hc : i.Counts time c → c.time < d.time) :
    i.Decides time (changes ++ [c]) d := by
  obtain ⟨earlier, later, rfl, hcounts, hearlier, hlater⟩ := h
  refine ⟨earlier, later ++ [c], by simp, hcounts, hearlier, fun e he ↦ ?_⟩
  rcases List.mem_append.mp he with he | he
  · exact hlater e he
  · obtain rfl := List.mem_singleton.mp he
    exact hc

/-- A change that counts decides when it is declared after all others and none of them is later. -/
theorem decides_append_self (hc : i.Counts time c)
    (hlatest : ∀ d ∈ changes, i.Counts time d → d.time ≤ c.time) :
    i.Decides time (changes ++ [c]) c :=
  ⟨changes, [], rfl, hc, hlatest, by simp⟩

/-- The deciding change is the latest of those that count. -/
theorem Decides.time_le (h : i.Decides time changes c) (hd : d ∈ changes)
    (hcounts : i.Counts time d) : d.time ≤ c.time := by
  obtain ⟨earlier, later, rfl, hc, hearlier, hlater⟩ := h
  rcases List.mem_append.mp hd with hd | hd
  · exact hearlier d hd hcounts
  rcases List.mem_cons.mp hd with rfl | hd
  · obtain ⟨-, hle⟩ := hc
    grind
  · exact Binary64.le_of_lt (hlater d hd hcounts)

/-- A change that does not count leaves the speed as it is. -/
theorem SpeedAt.append_of_not_counts (h : i.SpeedAt changes time speed)
    (hc : ¬ i.Counts time c) : i.SpeedAt (changes ++ [c]) time speed := by
  rcases h with ⟨hnone, hspeed⟩ | ⟨d, hd, hspeed⟩
  · refine Or.inl ⟨fun e he ↦ ?_, hspeed⟩
    rcases List.mem_append.mp he with he | he
    · exact hnone e he
    · rwa [List.mem_singleton.mp he]
  · exact Or.inr ⟨d, hd.append fun hcounts ↦ absurd hcounts hc, hspeed⟩

/-- A change before another one that counts leaves the speed as it is. -/
theorem SpeedAt.append_of_lt (h : i.SpeedAt changes time speed) (hd : d ∈ changes)
    (hcounts : i.Counts time d) (hlt : c.time < d.time) :
    i.SpeedAt (changes ++ [c]) time speed := by
  rcases h with ⟨hnone, -⟩ | ⟨e, he, hspeed⟩
  · exact absurd hcounts (hnone d hd)
  · have hle := he.time_le hd hcounts
    exact Or.inr ⟨e, he.append fun _ ↦ Binary64.lt_of_lt_of_le hlt hle, hspeed⟩

end Interval

/-- The fragments of an interval play at the speed of the latest change. -/
theorem Interval.Spans.speedAt (h : i.Spans source start stop) (changes : List SpeedChange) :
    ∀ f ∈ resolve [i] changes, ∀ time, f.start = some time → i.SpeedAt changes time f.speed := by
  induction changes using List.reverseRecOn with
  | nil =>
    intro f hf time _
    rw [resolve_nil, List.mem_singleton] at hf
    exact Or.inl ⟨by simp, by rw [hf]⟩
  | append_singleton changes c ih =>
    intro f hf time htime
    have htiling : Tiling source start stop (resolve [i] changes) := (Tiling.last h).resolve changes
    rw [resolve_append, resolve_cons, resolve_nil, mem_applyChange] at hf
    obtain ⟨g, hg, hpiece⟩ := hf
    obtain ⟨a, b, hspans, ha, hb⟩ := htiling.exists_spans hg
    by_cases hcontains : g.Contains c
    · obtain ⟨hsource, hac, hcb⟩ := hspans.contains_iff.mp hcontains
      have hi : i.Contains c := h.contains_iff.mpr ⟨hsource, by grind, by grind⟩
      rcases Binary64.le_iff_lt_or_agrees.mp hac with hlt | hagrees
      · rw [hspans.pieces_of_lt hcontains hlt] at hpiece
        rcases List.mem_pair.mp hpiece with rfl | rfl
        · -- The part before the change starts before it, where the change does not count.
          obtain rfl : a = time := Option.some.inj (hspans.start_eq.symm.trans htime)
          exact (ih g hg a hspans.start_eq).append_of_not_counts fun hcounts ↦
            Binary64.not_lt_of_le hcounts.2 hlt
        · obtain rfl : c.time = time := Option.some.inj htime
          exact Or.inr ⟨c, decides_append_self ⟨hi, by grind⟩ fun d _ hd ↦ hd.2, rfl⟩
      · rw [hspans.pieces_of_agrees hcontains hagrees, List.mem_singleton] at hpiece
        rw [hpiece] at htime ⊢
        obtain rfl : a = time := Option.some.inj (hspans.start_eq.symm.trans htime)
        refine Or.inr ⟨c, decides_append_self ⟨hi, by grind⟩ fun d _ hd ↦ ?_, rfl⟩
        have hle := hd.2
        grind
    · rw [pieces_of_not_contains hcontains, List.mem_singleton] at hpiece
      rw [hpiece] at htime ⊢
      obtain rfl : a = time := Option.some.inj (hspans.start_eq.symm.trans htime)
      have hold := ih g hg a hspans.start_eq
      by_cases hcounts : i.Counts a c
      · -- The change lies before the fragment, which therefore starts at a later change.
        obtain ⟨hi, hle⟩ := hcounts
        obtain ⟨hsource, hstart, hstop⟩ := h.contains_iff.mp hi
        have hlt : c.time < a := by
          rcases Binary64.le_iff_lt_or_agrees.mp hle with hlt | hagrees
          · exact hlt
          · have hab := hspans.start_lt_stop
            exact absurd (hspans.contains_iff.mpr ⟨hsource, by grind, by grind⟩) hcontains
        rcases mem_starts_resolve (mem_starts.mpr ⟨g, hg, hspans.start_eq⟩) with
          hfirst | ⟨d, hd, hda, e, he, hde⟩
        · obtain ⟨e, he, hea⟩ := mem_starts.mp hfirst
          rw [List.mem_singleton.mp he, h.start_eq, Option.some.injEq] at hea
          grind
        · rw [List.mem_singleton.mp he] at hde
          exact hold.append_of_lt hd ⟨hde, by grind⟩ (by rwa [hda])
      · exact hold.append_of_not_counts hcounts

/-- The rule holds of an interval that spans nothing too: it is its own only fragment, and no change
counts for it. -/
theorem speedAt_of_mem_resolve (hf : f ∈ resolve [i] changes) (htime : f.start = some time) :
    i.SpeedAt changes time f.speed := by
  by_cases hspans : ∃ source start stop, i.Spans source start stop
  · obtain ⟨source, start, stop, h⟩ := hspans
    exact h.speedAt changes f hf time htime
  · have hnothing : ∀ source start stop, ¬ i.Spans source start stop := by
      intro source start stop h
      exact hspans ⟨source, start, stop, h⟩
    rw [resolve_of_spans_nothing hnothing, List.mem_singleton] at hf
    refine Or.inl ⟨fun c _ hcounts ↦ ?_, by rw [hf]⟩
    obtain ⟨source, start, stop, h, -⟩ := exists_spans_of_contains hcounts.1
    exact hnothing source start stop h

/-! ### Intervals that meet -/

theorem applyChange_of_not_contains (h : ∀ f ∈ fragments, ¬ f.Contains c) :
    applyChange fragments c = fragments := by
  induction fragments with
  | nil => rfl
  | cons f rest ih =>
    obtain ⟨hf, hrest⟩ := List.forall_mem_cons.mp h
    rw [← List.singleton_append, applyChange_append, applyChange_singleton,
      pieces_of_not_contains hf, ih hrest]

/-- A change outside a tiling changes nothing. -/
theorem Tiling.applyChange_of_outside (h : Tiling source start stop fragments)
    (hc : c.time < start ∨ stop ≤ c.time) : Timing.applyChange fragments c = fragments := by
  refine applyChange_of_not_contains fun f hf hcontains ↦ ?_
  obtain ⟨a, b, hspans, ha, hb⟩ := h.exists_spans hf
  obtain ⟨-, hac, hcb⟩ := hspans.contains_iff.mp hcontains
  grind

/-- A change at the start of a tiling sets the speed of the first fragment. -/
theorem Tiling.applyChange_of_agrees (h : Tiling source start stop fragments)
    (hsource : source.Same c.source) (hc : start.agrees c.time) :
    ∃ first rest, fragments = first :: rest ∧
      Timing.applyChange fragments c = { first with speed := c.speed } :: rest := by
  have hpieces {f : Interval} {middle : Binary64} (hf : f.Spans source start middle) :
      f.pieces c = [{ f with speed := c.speed }] := by
    have hlt := hf.start_lt_stop
    exact hf.pieces_of_agrees (hf.contains_iff.mpr ⟨hsource, by grind, by grind⟩) hc
  cases h with
  | last hspans => exact ⟨_, [], rfl, by rw [applyChange_singleton, hpieces hspans]⟩
  | @cons f rest _ middle _ hspans htiling =>
    have hlt := hspans.start_lt_stop
    refine ⟨f, rest, rfl, ?_⟩
    rw [← List.singleton_append, applyChange_append, applyChange_singleton, hpieces hspans,
      htiling.applyChange_of_outside (Or.inl (by grind)), List.singleton_append]

/-- Every fragment of an interval plays at the speed of the latest change that lies in the interval
and not after the start of the fragment, of several at one time that of the one declared last, and
at the interval's own speed if there is no such change. Where two intervals of a recording meet, a
change at that time, wherever it is declared, sets the speed of the second one's first fragment and
changes nothing else. -/
theorem speed_of_mem_resolve (intervals : List Interval) (changes : List SpeedChange) :
    resolve intervals changes = intervals.flatMap (fun i ↦ resolve [i] changes) ∧
      (∀ i ∈ intervals, ∀ start stop, i.bounds? = some (start, stop) → start < stop →
        ∀ f ∈ resolve [i] changes,
          ∃ time, f.start = some time ∧ i.SpeedAt changes time f.speed) ∧
      ∀ i j source start middle middle' stop, i.Spans source start middle →
        j.Spans source middle' stop → ∀ c : SpeedChange, source.Same c.source →
          middle.agrees c.time → middle'.agrees c.time → ∀ later,
            ∃ first rest, resolve [j] changes = first :: rest ∧
              resolve [i, j] (changes ++ c :: later) =
                resolve [i] (changes ++ later) ++
                  resolve ({ first with speed := c.speed } :: rest) later := by
  refine ⟨resolve_eq_flatMap intervals changes, fun i _ start stop hbounds hlt f hf ↦ ?_, ?_⟩
  · have hstart : ∃ time, f.start = some time := by
      cases hsource : i.source with
      | none =>
        rw [resolve_of_spans_nothing (fun _ _ _ h ↦ by simp [h.source_eq] at hsource),
          List.mem_singleton] at hf
        rw [hf]
        exact ⟨start, (bounds?_eq_some_iff.mp hbounds).1⟩
      | some source =>
        have hspans := Spans.of_bounds? hsource hbounds hlt
        obtain ⟨a, _, hab, -⟩ := ((Tiling.last hspans).resolve changes).exists_spans hf
        exact ⟨a, hab.start_eq⟩
    obtain ⟨time, htime⟩ := hstart
    exact ⟨time, htime, speedAt_of_mem_resolve hf htime⟩
  · intro i j source start middle middle' stop hi hj c hsource hmiddle hmiddle' later
    have hfirst := ((Tiling.last hi).resolve changes).applyChange_of_outside
      (c := c) (Or.inr (by grind))
    obtain ⟨first, rest, heq, hsecond⟩ :=
      ((Tiling.last hj).resolve changes).applyChange_of_agrees hsource hmiddle'
    refine ⟨first, rest, heq, ?_⟩
    rw [← List.singleton_append (x := i), resolve_append_intervals, resolve_append, resolve_cons,
      hfirst, ← resolve_append, resolve_append [j], resolve_cons, hsecond]

/-- Two more seconds of the recording, after `sampleInterval`. -/
def sampleNext : Interval := .between (.ofNat 10) (.ofNat 12) ⟨"clip.mp4"⟩

/-- A change where `sampleInterval` and `sampleNext` meet. -/
def sampleMeeting : SpeedChange := ⟨.ofNat 10, .ofNat 3, ⟨"clip.mp4"⟩⟩

/-- Of the two changes at six seconds the one declared last sets the speed from there on, and a
change at the time where two intervals meet only touches the second one, although more changes are
declared after it. -/
theorem speed_of_mem_resolve_sample :
    (∃ time, Option.some (.ofNat 6) = some time ∧
        sampleInterval.SpeedAt sampleChanges time (.ofNat 7)) ∧
      ∃ first rest, resolve [sampleNext] sampleChanges = first :: rest ∧
        resolve [sampleInterval, sampleNext]
            (sampleChanges ++ sampleMeeting :: sampleChanges) =
          resolve [sampleInterval] (sampleChanges ++ sampleChanges) ++
            resolve ({ first with speed := sampleMeeting.speed } :: rest) sampleChanges := by
  have hall := speed_of_mem_resolve [sampleInterval] sampleChanges
  refine ⟨?_, ?_⟩
  · exact hall.2.1 sampleInterval (by simp) _ _ rfl (by decide +kernel)
      { sampleInterval with start := some (.ofNat 6), speed := .ofNat 7 } (by decide +kernel)
  · exact hall.2.2 sampleInterval sampleNext ⟨"clip.mp4"⟩ (.ofNat 0) (.ofNat 10) (.ofNat 10)
      (.ofNat 12) ⟨rfl, rfl, rfl, by decide +kernel⟩ ⟨rfl, rfl, rfl, by decide +kernel⟩
      sampleMeeting (by decide +kernel) (by decide +kernel) (by decide +kernel) sampleChanges

end Montage.Timing
