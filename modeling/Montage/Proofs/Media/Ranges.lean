import Mathlib.Data.List.Basic
import Montage.Media.Catalogue
import Montage.Proofs.Failure.Traversal
import Montage.Proofs.Timing.Pieces

/-!
# Usable ranges

Intervals are checked before they are appended to an output, and an interval that passes becomes a
range: a recording, two bounds and a speed (`rangeOf_eq_ok_iff`). All intervals of a call are
checked first, and nothing is wrong with any of the ranges if all of them pass
(`fault?_eq_none_of_mem_ranges`).
-/

set_option autoImplicit false
set_option relaxedAutoImplicit false

namespace Montage.Timing

open Numeric Media Media.Catalogue Montage.Timing.Interval

variable {f : Interval} {start stop speed : Binary64} {source : Path}

/-- Nothing is wrong with a finite range that does not end before it starts, at a finite positive
speed. -/
theorem fault?_eq_none_iff :
    Block.fault? start stop speed = none ↔
      (start.isFinite ∧ stop.isFinite ∧ start ≤ stop) ∧
        (speed.isFinite ∧ Binary64.zero false < speed) := by
  rw [Block.fault?]
  by_cases hrange : start.isFinite ∧ stop.isFinite ∧ start ≤ stop
  · by_cases hspeed : speed.isFinite ∧ Binary64.zero false < speed
    · rw [if_neg (not_not_intro hrange), if_neg (not_not_intro hspeed)]
      exact iff_of_true rfl ⟨hrange, hspeed⟩
    · rw [if_neg (not_not_intro hrange), if_pos hspeed]
      exact iff_of_false (Option.some_ne_none _) fun h ↦ hspeed h.2
  · rw [if_pos hrange]
    exact iff_of_false (Option.some_ne_none _) fun h ↦ hrange h.1

/-- A fragment is usable if it has a recording and both bounds and nothing is wrong with it as a
block. -/
theorem rangeOf_eq_ok_iff :
    rangeOf f = .ok (source, start, stop, speed) ↔
      f.source = some source ∧ f.start = some start ∧ f.stop = some stop ∧ f.speed = speed ∧
        Block.fault? start stop speed = none := by
  unfold rangeOf
  cases hbounds : f.bounds? with
  | none =>
    constructor
    · intro h
      cases h
    · rintro ⟨-, hstart, hstop, -⟩
      rw [bounds?_eq_some_iff.mpr ⟨hstart, hstop⟩] at hbounds
      cases hbounds
  | some bounds =>
    obtain ⟨hstart, hstop⟩ := bounds?_eq_some_iff.mp hbounds
    cases hsource : f.source with
    | none => simp
    | some recording =>
      dsimp only
      cases hfault : Block.fault? bounds.1 bounds.2 f.speed with
      | some fault =>
        simp only [hstart, hstop, Option.some.injEq]
        constructor
        · intro h
          cases h
        · rintro ⟨-, rfl, rfl, rfl, hnone⟩
          rw [hfault] at hnone
          cases hnone
      | none =>
        simp only [hstart, hstop, Option.some.injEq, Except.ok.injEq, Prod.mk.injEq]
        constructor
        · rintro ⟨rfl, rfl, rfl, rfl⟩
          exact ⟨rfl, rfl, rfl, rfl, hfault⟩
        · rintro ⟨rfl, rfl, rfl, rfl, -⟩
          exact ⟨rfl, rfl, rfl, rfl⟩

/-- Nothing is wrong with the ranges of intervals that were all found usable. -/
theorem fault?_eq_none_of_mem_ranges {intervals : List Interval}
    {ranges : List (Path × Binary64 × Binary64 × Binary64)}
    (h : intervals.mapM rangeOf = .ok ranges) (hrange : (source, start, stop, speed) ∈ ranges) :
    Block.fault? start stop speed = none := by
  obtain ⟨i, -, hi⟩ := Failure.exists_of_mem_mapM h hrange
  exact (rangeOf_eq_ok_iff.mp hi).2.2.2.2

end Montage.Timing
