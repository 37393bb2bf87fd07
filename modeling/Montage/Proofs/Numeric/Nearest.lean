import Mathlib.Algebra.Order.Group.Nat
import Montage.Numeric.Rounding

/-!
# Nearest ranks

The rank nearest to a fraction depends only on its value and not on how the fraction is written
(`nearestRank_congr`), and the rank nearest to the value of a rank is that rank
(`nearestRank_units`).
-/

set_option autoImplicit false
set_option relaxedAutoImplicit false

namespace Montage.Numeric

variable {numerator denominator factor rank : Nat}

theorem roundQuotient_mul_right (hfactor : 0 < factor) :
    roundQuotient (numerator * factor) (denominator * factor) =
      roundQuotient numerator denominator := by
  have hlt : denominator * factor < 2 * (numerator % denominator * factor) ↔
      denominator < 2 * (numerator % denominator) := by
    rw [← Nat.mul_assoc, Nat.mul_lt_mul_right hfactor]
  have heq : 2 * (numerator % denominator * factor) = denominator * factor ↔
      2 * (numerator % denominator) = denominator := by
    rw [← Nat.mul_assoc, Nat.mul_left_inj hfactor.ne']
  simp only [roundQuotient, Nat.mul_div_mul_right _ _ hfactor, Nat.mul_mod_mul_right, hlt, heq]

/-- A whole number needs no rounding. -/
theorem roundQuotient_mul_self (h : 0 < denominator) (whole : Nat) :
    roundQuotient (whole * denominator) denominator = whole := by
  simp only [roundQuotient, Nat.mul_div_cancel _ h, Nat.mul_mod_left]
  rw [if_neg (by omega)]

theorem nearestRank_mul_right (hfactor : 0 < factor) :
    nearestRank (numerator * factor) (denominator * factor) =
      nearestRank numerator denominator := by
  simp only [nearestRank, Nat.mul_div_mul_right _ _ hfactor]
  rw [Nat.mul_right_comm, roundQuotient_mul_right hfactor]

/-- Equal fractions have the same nearest rank. -/
theorem nearestRank_congr {other divisor : Nat} (hdenominator : 0 < denominator)
    (hdivisor : 0 < divisor) (h : numerator * divisor = other * denominator) :
    nearestRank numerator denominator = nearestRank other divisor := by
  rw [← nearestRank_mul_right hdivisor, h, Nat.mul_comm denominator,
    nearestRank_mul_right hdenominator]

/-! ### Values of ranks -/

theorem unitsPerOne_eq : unitsPerOne = 2 ^ unitsPerOneLog := by
  delta unitsPerOne
  simp only [Nat.pow_eq]

theorem unitsPerOne_pos : 0 < unitsPerOne := by
  rw [unitsPerOne_eq]
  exact Nat.two_pow_pos _

/-- The number of times that the distance between the values has doubled up to a rank. -/
def doublings (rank : Nat) : Nat := rank / ranksPerExponent - 1

/-- The value of a rank is a significand times a power of two. -/
theorem exists_units_eq (rank : Nat) :
    ∃ significand, units rank = significand * 2 ^ doublings rank ∧
      rank = doublings rank * ranksPerExponent + significand ∧ significand < 2 * ranksPerExponent ∧
      (doublings rank = 0 ∨ ranksPerExponent ≤ significand) := by
  have hpositive : 0 < ranksPerExponent := by decide
  have hsplit := Nat.div_add_mod rank ranksPerExponent
  have hmod := Nat.mod_lt rank hpositive
  unfold units doublings
  split_ifs with hlt
  · refine ⟨rank, ?_, ?_, by omega, ?_⟩
    · rw [Nat.div_eq_of_lt hlt]
      simp
    · rw [Nat.div_eq_of_lt hlt]
      simp
    · rw [Nat.div_eq_of_lt hlt]
      simp
  · refine ⟨ranksPerExponent + rank % ranksPerExponent, rfl, ?_, by omega, by omega⟩
    have hquotient : 1 ≤ rank / ranksPerExponent :=
      (Nat.one_le_div_iff hpositive).mpr (Nat.not_lt.mp hlt)
    obtain ⟨quotient, hquotient⟩ := Nat.exists_eq_add_of_le hquotient
    rw [hquotient] at hsplit ⊢
    rw [Nat.add_sub_cancel_left]
    rw [Nat.mul_add, Nat.mul_one, Nat.mul_comm ranksPerExponent quotient] at hsplit
    omega

theorem units_pos (h : 0 < rank) : 0 < units rank := by
  obtain ⟨significand, hunits, hrank, -, hnormal⟩ := exists_units_eq rank
  rw [hunits]
  refine Nat.mul_pos ?_ (Nat.two_pow_pos _)
  rcases hnormal with hzero | hle
  · rw [hzero] at hrank
    omega
  · exact Nat.lt_of_lt_of_le (by decide) hle

theorem units_lt (rank : Nat) : units rank < 2 ^ (53 + doublings rank) := by
  obtain ⟨significand, hunits, -, hlt, -⟩ := exists_units_eq rank
  rw [hunits, Nat.pow_add]
  exact Nat.mul_lt_mul_of_pos_right hlt (Nat.two_pow_pos _)

theorem doublings_le (h : rank < infinityRank) : doublings rank ≤ 2045 := by
  have hlt : rank / ranksPerExponent < 2047 := Nat.div_lt_of_lt_mul (by rwa [Nat.mul_comm])
  unfold doublings
  omega

/-- The rank nearest to the value of a rank is that rank. -/
theorem nearestRank_units (h : rank ≤ infinityRank) : nearestRank (units rank) 1 = rank := by
  obtain ⟨significand, hunits, hsum, -, hnormal⟩ := exists_units_eq rank
  have hshift : (units rank / 1).log2 - 52 = doublings rank := by
    rw [Nat.div_one]
    rcases Nat.eq_zero_or_pos rank with rfl | hrank
    · rfl
    · have hpositive := units_pos hrank
      have hlog := (Nat.log2_lt hpositive.ne').mpr (units_lt rank)
      rcases hnormal with hnormal | hle
      · omega
      · have hlower : 2 ^ (52 + doublings rank) ≤ units rank := by
          rw [hunits, Nat.pow_add]
          exact Nat.mul_le_mul_right _ hle
        have := (Nat.le_log2 hpositive.ne').mpr hlower
        omega
  have hwhole : roundQuotient (units rank) (1 * Nat.pow 2 (doublings rank)) = significand := by
    rw [hunits, Nat.one_mul]
    exact roundQuotient_mul_self (Nat.two_pow_pos _) significand
  simp only [nearestRank]
  rw [hshift, hwhole, ← hsum, Nat.min_eq_right h]

end Montage.Numeric
