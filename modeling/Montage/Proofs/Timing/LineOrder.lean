import Montage.Proofs.Timing.LastTicks
import Montage.Proofs.Timing.Reordering

/-!
# The order of lines

The lines of a recording may be read in any order, as long as none of their accepted ticks compete:
no bound of a slot is set twice, and no two speeds are declared for the same time. The runs are then
the same (`RunTable.Built.eq_of_perm`), although checkpoints are added and runs are listed as the
ticks come, and so are the fragments (`resolve_eq_of_perm`), although the changes of the speed are
applied in another order. `after_lines_perm` puts both together.

No two steps of a reading are exchanged in the proof. What is read is settled by the ticks as a
collection: a slot by its last ticks, of which there is one for each bound, and the fragments by the
changes that are tied with each other, of which there are none. Both say that a filter finds at most
one item, and then it finds the same in every order (`filter_eq_of_perm`).
-/

set_option autoImplicit false
set_option relaxedAutoImplicit false

namespace Montage.Timing

open Numeric RunTable

/-! ### Filters that find at most one item -/

/-- A property that no two items have picks the same items in every order. -/
theorem filter_eq_of_perm {α : Type} {p : α → Prop} [DecidablePred p] {items others : List α}
    (h : items.Perm others) (hpair : items.Pairwise fun a b ↦ ¬ (p a ∧ p b)) :
    items.filter p = others.filter p := by
  have halone {list : List α} (hlist : list.Pairwise fun a b ↦ ¬ (p a ∧ p b)) :
      (list.filter p).Pairwise fun _ _ ↦ False := by
    refine List.pairwise_filter.mpr (hlist.imp fun hboth ha hb ↦ hboth ⟨?_, ?_⟩)
    · exact of_decide_eq_true ha
    · exact of_decide_eq_true hb
  have hothers : others.Pairwise fun a b ↦ ¬ (p a ∧ p b) :=
    hpair.perm h fun hboth ⟨ha, hb⟩ ↦ hboth ⟨hb, ha⟩
  exact (h.filter _).eq_of_pairwise (fun _ _ _ _ hab _ ↦ hab.elim) (halone hpair) (halone hothers)

/-! ### Bounds -/

/-- The bound that a tick sets. -/
def BoundTick.target (tick : BoundTick) : RunCode × Slot × Endpoint :=
  (tick.code, tick.slot, tick.endpoint)

variable {source : Path} {runs others : List (RunCode × Run)} {ticks reordered : List BoundTick}

/-- Ticks of one slot leave the same interval in every order if they set each bound once. -/
theorem lastInterval_eq_of_perm (h : ticks.Perm reordered)
    (hendpoints : (ticks.map BoundTick.endpoint).Nodup)
    (hsource : ∀ tick ∈ ticks, tick.source = source) :
    lastInterval ticks = lastInterval reordered := by
  have hbound (endpoint : Endpoint) : ticks.filter (·.endpoint = endpoint) =
      reordered.filter (·.endpoint = endpoint) := by
    refine filter_eq_of_perm h ((List.pairwise_map.mp hendpoints).imp ?_)
    rintro a b hne ⟨ha, hb⟩
    exact hne (ha.trans hb.symm)
  -- All ticks have the same recording, so it does not matter which of them is the last.
  have hlast : ticks.getLast?.map BoundTick.source = reordered.getLast?.map BoundTick.source := by
    have hall {list : List BoundTick} (hlist : ∀ tick ∈ list, tick.source = source) :
        list.map BoundTick.source = List.replicate list.length source :=
      (List.map_congr_left hlist).trans List.map_const'
    rw [← List.getLast?_map, ← List.getLast?_map, hall hsource,
      hall fun tick htick ↦ hsource tick (h.mem_iff.mpr htick), h.length_eq]
  rw [lastInterval, lastInterval, hbound, hbound, hlast]

/-- Among the ticks of one slot, no bound is set twice if none is set twice at all. -/
theorem nodup_endpoints_ticksFor (h : (ticks.map BoundTick.target).Nodup) (code : RunCode)
    (slot : Slot) : ((ticksFor code slot ticks).map BoundTick.endpoint).Nodup := by
  refine List.pairwise_map.mpr (List.pairwise_filter.mpr ?_)
  refine (List.pairwise_map.mp h).imp fun {a b} hne ha hb hendpoint ↦ hne ?_
  obtain ⟨hacode, haslot⟩ := of_decide_eq_true ha
  obtain ⟨hbcode, hbslot⟩ := of_decide_eq_true hb
  rw [BoundTick.target, BoundTick.target, hacode, haslot, hbcode, hbslot, hendpoint]

/-- Ticks of one recording leave the same table in every order if they set each bound once. -/
theorem RunTable.Built.eq_of_perm (hruns : Built runs ticks) (hothers : Built others reordered)
    (h : ticks.Perm reordered) (htargets : (ticks.map BoundTick.target).Nodup)
    (hsource : ∀ tick ∈ ticks, tick.source = source) : runs = others := by
  refine hruns.ordered.eq_of_lookup_eq hothers.ordered fun code ↦ ?_
  have hsome : (lookup runs code).isSome ↔ (lookup others code).isSome := by
    simp only [hruns.isSome_lookup, hothers.isSome_lookup, h.mem_iff]
  have hrun : runAt runs code = runAt others code := by
    refine Run.eq_of_interval_eq (fun slot ↦ ?_) ?_ ?_
    · rw [hruns.interval, hothers.interval]
      exact lastInterval_eq_of_perm (h.filter _) (nodup_endpoints_ticksFor htargets code slot)
        fun tick htick ↦ hsource tick (List.mem_of_mem_filter htick)
    · refine eq_of_forall_lt_iff fun place ↦ ?_
      simp only [hruns.lt_length, hothers.lt_length, h.mem_iff]
    · simp only [hruns.isSome_intro, hothers.isSome_intro, h.mem_iff]
  cases hfirst : lookup runs code with
  | none =>
    rw [hfirst, Option.isSome_none, Bool.false_eq_true, false_iff, Option.not_isSome_iff_eq_none]
      at hsome
    exact hsome.symm
  | some run =>
    obtain ⟨other, hsecond⟩ := Option.isSome_iff_exists.mp
      (hsome.mp (Option.isSome_of_eq_some hfirst))
    rw [runAt_of_lookup hfirst, runAt_of_lookup hsecond] at hrun
    rw [hsecond, hrun]

/-! ### Changes -/

/-- Changes at different times cut intervals into the same fragments in every order. -/
theorem resolve_eq_of_perm (intervals : List Interval) {changes reordered : List SpeedChange}
    (h : changes.Perm reordered) (hnan : ∀ c ∈ changes, c.time ≠ .nan)
    (htimes : changes.Pairwise fun c d ↦ ¬ c.time.agrees d.time) :
    resolve intervals changes = resolve intervals reordered := by
  refine resolve_eq_of_tiedWith_eq intervals hnan (fun c hc ↦ hnan c (h.mem_iff.mpr hc)) fun e ↦ ?_
  refine filter_eq_of_perm h (htimes.imp ?_)
  rintro c d hne ⟨hc, hd⟩
  exact hne (hc.symm.trans hd).1

/-! ### Lines -/

/-- Lines of a recording, read one after the other. -/
def linesOn (source : Path) (lines : List (List Char)) : List Timeline.Reading :=
  lines.map (Timeline.Reading.line source)

/-- All bounds of lines of one recording are set on this recording. -/
theorem source_of_mem_boundTicks {lines : List (List Char)} {tick : BoundTick}
    (h : tick ∈ boundTicks (acceptedTicks (linesOn source lines))) : tick.source = source := by
  obtain ⟨reading, hreading, htick⟩ := mem_boundTicks_acceptedTicks.mp h
  obtain ⟨line, -, rfl⟩ := List.mem_map.mp hreading
  exact (Timeline.Reading.mem_boundTicks_iff.mp htick).1

/-- Accepted ticks of one recording leave the same runs and fragments in every order if they set no
bound of a slot twice and declare no two speeds for the same time. -/
theorem Timeline.enter_eq_of_perm {ticks reordered : List AcceptedTick} (h : ticks.Perm reordered)
    (htargets : ((boundTicks ticks).map BoundTick.target).Nodup)
    (hsource : ∀ tick ∈ boundTicks ticks, tick.source = source)
    (htimes : (speedTicks ticks).Pairwise fun c d ↦ ¬ c.time.agrees d.time)
    (hnan : ∀ c ∈ speedTicks ticks, c.time ≠ .nan) :
    (({} : Timeline).enter ticks).runs = (({} : Timeline).enter reordered).runs ∧
      (({} : Timeline).enter ticks).resolveAll = (({} : Timeline).enter reordered).resolveAll := by
  have hruns : (({} : Timeline).enter ticks).runs = (({} : Timeline).enter reordered).runs :=
    (built_foldl_markRuns _).eq_of_perm (built_foldl_markRuns _) (h.filterMap _) htargets hsource
  refine ⟨hruns, ?_⟩
  rw [resolveAll, resolveAll, hruns]
  refine List.map_congr_left fun entry _ ↦ Prod.ext rfl ?_
  exact resolve_eq_of_perm entry.2.intervals (h.filterMap _) hnan htimes

/-- Lines of a recording may be read in any order if their accepted ticks set no bound of a slot
twice and declare no two speeds for the same time: the same lines have a time, and the runs and
their fragments are the same. -/
theorem after_lines_perm (source : Path) (lines reordered : List (List Char))
    (h : lines.Perm reordered)
    (htargets : ((boundTicks (acceptedTicks (linesOn source lines))).map BoundTick.target).Nodup)
    (htimes : (speedTicks (acceptedTicks (linesOn source lines))).Pairwise
      fun c d ↦ ¬ c.time.agrees d.time) :
    (lines.filter fun line ↦ (TimedLine.ofLine line).isTimed).Perm
        (reordered.filter fun line ↦ (TimedLine.ofLine line).isTimed) ∧
      (Timeline.after (linesOn source lines)).runs =
        (Timeline.after (linesOn source reordered)).runs ∧
      (Timeline.after (linesOn source lines)).resolveAll =
        (Timeline.after (linesOn source reordered)).resolveAll := by
  have hticks : (acceptedTicks (linesOn source lines)).Perm
      (acceptedTicks (linesOn source reordered)) :=
    (h.map _).flatMap_right _
  have hsource (tick : BoundTick)
      (htick : tick ∈ boundTicks (acceptedTicks (linesOn source lines))) :
      tick.source = source := source_of_mem_boundTicks htick
  have hsound := Timeline.sound_after (linesOn source lines)
  rw [Timeline.after_eq_enter] at hsound
  rw [Timeline.after_eq_enter, Timeline.after_eq_enter]
  refine ⟨h.filter _, Timeline.enter_eq_of_perm hticks htargets hsource htimes fun c hc ↦ ?_⟩
  exact Binary64.ne_nan_of_isFinite (hsound.changes c hc).time_finite

/-- Lines that set bounds of two runs, with a gap before the last checkpoint of one of them, and
declare two speeds. One of the lines has no time. -/
def sampleLines : List (List Char) :=
  ["1=ab1cp2a|cd3inta".toList, "8 = ab1cp2b x2".toList, "later".toList, "2=4.5 x5 ab1inta".toList,
    "3=9 ab1cp0b cd3intb".toList]

/-- The lines may be read backwards. -/
theorem after_lines_perm_sample :
    ((boundTicks (acceptedTicks (linesOn ⟨"clip.mp4"⟩ sampleLines))).map
        BoundTick.target).Nodup ∧
      (speedTicks (acceptedTicks (linesOn ⟨"clip.mp4"⟩ sampleLines))).Pairwise
        (fun c d ↦ ¬ c.time.agrees d.time) ∧
      (Timeline.after (linesOn ⟨"clip.mp4"⟩ sampleLines)).runs =
        (Timeline.after (linesOn ⟨"clip.mp4"⟩ sampleLines.reverse)).runs ∧
      (Timeline.after (linesOn ⟨"clip.mp4"⟩ sampleLines)).resolveAll =
        (Timeline.after (linesOn ⟨"clip.mp4"⟩ sampleLines.reverse)).resolveAll := by
  have htargets : ((boundTicks (acceptedTicks (linesOn ⟨"clip.mp4"⟩ sampleLines))).map
      BoundTick.target).Nodup := by
    decide +kernel
  have htimes : (speedTicks (acceptedTicks (linesOn ⟨"clip.mp4"⟩ sampleLines))).Pairwise
      (fun c d ↦ ¬ c.time.agrees d.time) := by
    decide +kernel
  obtain ⟨-, hruns, hresolve⟩ := after_lines_perm ⟨"clip.mp4"⟩ sampleLines sampleLines.reverse
    (List.reverse_perm sampleLines).symm htargets htimes
  exact ⟨htargets, htimes, hruns, hresolve⟩

end Montage.Timing
