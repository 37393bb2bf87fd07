import Montage.Proofs.Numeric.Order
import Montage.Timing.Resolution

/-!
# The pieces of an interval

Resolution acts on every interval by itself: the fragments of a list are the fragments of its
members, one after the other (`resolve_eq_flatMap`), and one change turns an interval into its
pieces (`Interval.pieces`). This module says what the pieces are. An interval that spans some time
of a recording and contains the change is retagged when the change lies at its start
(`Spans.pieces_of_agrees`) and cut in two when it lies behind the start (`Spans.pieces_of_lt`); any
other interval is left alone (`pieces_of_not_contains`).

An interval that lacks a bound or a recording, or does not start before it ends, spans nothing. It
contains no change, so resolution returns it as it is (`resolve_of_spans_nothing`).
-/

set_option autoImplicit false
set_option relaxedAutoImplicit false

namespace Montage.Timing

open Numeric

namespace Interval

/-- The interval covers the times of a recording from `start` up to `stop`, and there are some. -/
structure Spans (i : Interval) (source : Path) (start stop : Binary64) : Prop where
  source_eq : i.source = some source
  start_eq : i.start = some start
  stop_eq : i.stop = some stop
  start_lt_stop : start < stop

/-- The pieces into which a change cuts the interval. -/
def pieces (i : Interval) (change : SpeedChange) : List Interval :=
  if i.Contains change then i.split change else [i]

variable {i f : Interval} {source : Path} {start stop : Binary64} {c d : SpeedChange}

theorem Spans.contains_iff (h : i.Spans source start stop) :
    i.Contains c ↔ source.Same c.source ∧ start ≤ c.time ∧ c.time < stop := by
  simp only [Contains, bounds?, h.source_eq, h.start_eq, h.stop_eq]

theorem bounds?_eq_some_iff :
    i.bounds? = some (start, stop) ↔ i.start = some start ∧ i.stop = some stop := by
  unfold bounds?
  cases i.start <;> cases i.stop <;> simp

theorem Spans.bounds?_eq (h : i.Spans source start stop) : i.bounds? = some (start, stop) :=
  bounds?_eq_some_iff.mpr ⟨h.start_eq, h.stop_eq⟩

theorem Spans.of_bounds? (hsource : i.source = some source)
    (hbounds : i.bounds? = some (start, stop)) (hlt : start < stop) :
    i.Spans source start stop := by
  obtain ⟨hstart, hstop⟩ := bounds?_eq_some_iff.mp hbounds
  exact ⟨hsource, hstart, hstop, hlt⟩

/-- Only an interval that spans something contains a change. -/
theorem exists_spans_of_contains (h : i.Contains c) :
    ∃ source start stop, i.Spans source start stop ∧
      source.Same c.source ∧ start ≤ c.time ∧ c.time < stop := by
  obtain ⟨start?, stop?, source?, speed⟩ := i
  cases start? <;> cases stop? <;> cases source? <;> simp only [Contains, bounds?] at h
  case some.some.some start stop source =>
    obtain ⟨hsource, hstart, hstop⟩ := h
    exact ⟨source, start, stop,
      ⟨rfl, rfl, rfl, Binary64.lt_of_le_of_lt hstart hstop⟩, hsource, hstart, hstop⟩

theorem pieces_of_not_contains (h : ¬ i.Contains c) : i.pieces c = [i] := if_neg h

/-- A change at the start of the interval only sets its speed. -/
theorem Spans.pieces_of_agrees (hi : i.Spans source start stop) (hc : i.Contains c)
    (hstart : start.agrees c.time) : i.pieces c = [{ i with speed := c.speed }] := by
  rw [pieces, if_pos hc, split, if_pos]
  rw [hi.start_eq]
  exact hstart

/-- A change behind the start of the interval cuts it in two. -/
theorem Spans.pieces_of_lt (hi : i.Spans source start stop) (hc : i.Contains c)
    (hstart : start < c.time) :
    i.pieces c =
      [{ i with stop := some c.time }, { i with start := some c.time, speed := c.speed }] := by
  rw [pieces, if_pos hc, split, if_neg]
  rw [hi.start_eq]
  change ¬ start.agrees c.time = true
  grind

/-- A new speed leaves the span as it is. -/
theorem Spans.withSpeed (h : i.Spans source start stop) (speed : Binary64) :
    ({ i with speed := speed } : Interval).Spans source start stop :=
  ⟨h.source_eq, h.start_eq, h.stop_eq, h.start_lt_stop⟩

/-- The part of the span before a time within it. -/
theorem Spans.head (h : i.Spans source start stop) {time : Binary64} (hstart : start < time) :
    ({ i with stop := some time } : Interval).Spans source start time :=
  ⟨h.source_eq, h.start_eq, rfl, hstart⟩

/-- The part of the span from a time within it. -/
theorem Spans.tail (h : i.Spans source start stop) {time : Binary64} (hstop : time < stop)
    (speed : Binary64) :
    ({ i with start := some time, speed := speed } : Interval).Spans source time stop :=
  ⟨h.source_eq, rfl, h.stop_eq, hstop⟩

end Interval

open Montage.Timing.Interval

/-! ### Resolution interval by interval -/

theorem applyChange_eq_flatMap (intervals : List Interval) (change : SpeedChange) :
    applyChange intervals change = intervals.flatMap (·.pieces change) := rfl

@[simp] theorem applyChange_nil (change : SpeedChange) : applyChange [] change = [] := rfl

@[simp] theorem applyChange_singleton (i : Interval) (change : SpeedChange) :
    applyChange [i] change = i.pieces change := by
  rw [applyChange_eq_flatMap, List.flatMap_singleton]

@[simp] theorem applyChange_append (intervals more : List Interval) (change : SpeedChange) :
    applyChange (intervals ++ more) change =
      applyChange intervals change ++ applyChange more change :=
  List.flatMap_append

@[simp] theorem resolve_nil (intervals : List Interval) : resolve intervals [] = intervals := rfl

@[simp] theorem resolve_cons (intervals : List Interval) (change : SpeedChange)
    (changes : List SpeedChange) :
    resolve intervals (change :: changes) = resolve (applyChange intervals change) changes := rfl

/-- Declaring more changes resolves what the earlier ones have left. -/
theorem resolve_append (intervals : List Interval) (changes more : List SpeedChange) :
    resolve intervals (changes ++ more) = resolve (resolve intervals changes) more :=
  List.foldl_append

theorem resolve_append_intervals (intervals more : List Interval) (changes : List SpeedChange) :
    resolve (intervals ++ more) changes = resolve intervals changes ++ resolve more changes := by
  induction changes generalizing intervals more with
  | nil => rfl
  | cons change changes ih => rw [resolve_cons, applyChange_append, ih, resolve_cons, resolve_cons]

theorem resolve_no_intervals (changes : List SpeedChange) : resolve [] changes = [] := by
  induction changes with
  | nil => rfl
  | cons change changes ih => rw [resolve_cons, applyChange_nil, ih]

/-- The fragments of a list of intervals are those of its members, in order. -/
theorem resolve_eq_flatMap (intervals : List Interval) (changes : List SpeedChange) :
    resolve intervals changes = intervals.flatMap fun i ↦ resolve [i] changes := by
  induction intervals with
  | nil => exact resolve_no_intervals changes
  | cons i rest ih =>
    rw [List.flatMap_cons, ← ih, ← resolve_append_intervals, List.singleton_append]

/-- An interval that spans nothing is not touched by any change. -/
theorem resolve_of_spans_nothing {i : Interval}
    (h : ∀ source start stop, ¬ i.Spans source start stop) (changes : List SpeedChange) :
    resolve [i] changes = [i] := by
  induction changes with
  | nil => rfl
  | cons change changes ih =>
    have hnot : ¬ i.Contains change := by
      intro hcontains
      obtain ⟨source, start, stop, hspans, -⟩ := exists_spans_of_contains hcontains
      exact h source start stop hspans
    rw [resolve_cons, applyChange_singleton, pieces_of_not_contains hnot, ih]

end Montage.Timing
