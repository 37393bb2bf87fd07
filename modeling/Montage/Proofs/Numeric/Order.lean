import Montage.Numeric.Binary64

/-!
# The order of binary64 numbers

The comparisons of the format are comparisons of places (`le_iff`, `lt_iff`, `agrees_iff`), so they
inherit the laws of the integers wherever the numbers have a place. What is lost is reflexivity:
`nan` is neither below, above nor in agreement with anything. Numbers that agree cannot be told
apart by a comparison, although the two zeros are different numbers.
-/

set_option autoImplicit false
set_option relaxedAutoImplicit false

namespace Montage.Numeric.Binary64

attribute [grind =] le_iff lt_iff agrees_iff

variable {x y z : Binary64}

protected theorem lt_irrefl (x : Binary64) : ¬ x < x := by grind

protected theorem le_of_lt (h : x < y) : x ≤ y := by grind

protected theorem le_trans (hxy : x ≤ y) (hyz : y ≤ z) : x ≤ z := by grind

protected theorem lt_trans (hxy : x < y) (hyz : y < z) : x < z := by grind

protected theorem lt_of_le_of_lt (hxy : x ≤ y) (hyz : y < z) : x < z := by grind

protected theorem lt_of_lt_of_le (hxy : x < y) (hyz : y ≤ z) : x < z := by grind

protected theorem not_lt_of_le (h : x ≤ y) : ¬ y < x := by grind

/-- Below or at is below or in agreement. -/
theorem le_iff_lt_or_agrees : x ≤ y ↔ x < y ∨ x.agrees y := by grind

theorem agrees_comm : x.agrees y ↔ y.agrees x := by grind

theorem agrees_trans (hxy : x.agrees y) (hyz : y.agrees z) : x.agrees z := by grind

/-- Every number but `nan` has a place. -/
theorem exists_position (h : x ≠ nan) : ∃ i, x.position = some i := by
  cases x with
  | nan => exact absurd rfl h
  | number negative rank => cases negative <;> exact ⟨_, rfl⟩

/-- Every number but `nan` agrees with itself. -/
theorem agrees_self (h : x ≠ nan) : x.agrees x := by
  obtain ⟨i, hi⟩ := exists_position h
  exact agrees_iff.mpr ⟨i, i, hi, hi, rfl⟩

/-- A finite number is a number. -/
theorem ne_nan_of_isFinite (h : x.isFinite) : x ≠ nan := by
  rintro rfl
  cases h

/-- Numbers other than `nan` can be compared. -/
protected theorem le_of_not_lt (hx : x ≠ nan) (hy : y ≠ nan) (h : ¬ y < x) : x ≤ y := by
  obtain ⟨i, hi⟩ := exists_position hx
  obtain ⟨j, hj⟩ := exists_position hy
  rw [lt_iff] at h
  rw [le_iff]
  refine ⟨i, j, hi, hj, Int.not_lt.mp fun hlt ↦ h ⟨j, i, hj, hi, hlt⟩⟩

end Montage.Numeric.Binary64
