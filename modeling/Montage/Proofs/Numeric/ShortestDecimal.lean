import Mathlib.Tactic.Ring
import Montage.Proofs.Numeric.Nearest
import Montage.Proofs.Numeric.Numerals

/-!
# Shortest decimals

A decimal stands for the rank nearest to its value, and zeros at the end of its digits may as well
be part of its exponent (`Decimal.nearestRank_mul_pow`). All digits of the value of a rank stand for
the rank (`Decimal.nearestRank_exact`), since the powers of ten that reading decides without
computing them are out of reach. So does the shortest decimal (`Decimal.nearestRank_ofRank`),
whether it is found on some grid or consists of all digits.
-/

set_option autoImplicit false
set_option relaxedAutoImplicit false

namespace Montage.Numeric

namespace Decimal

variable {d : Decimal} {n rank : Nat}

/-! ### Lengths of numerals -/

theorem digitsOf_mul_ten (h : 0 < n) : digitsOf (10 * n) = digitsOf n ++ ['0'] :=
  (Nat.toDigits_append_toDigits (d := 0) (by decide) h (by decide)).symm

theorem length_digitsOf_mul_pow (h : 0 < n) (zeros : Nat) :
    (digitsOf (n * 10 ^ zeros)).length = (digitsOf n).length + zeros := by
  induction zeros with
  | zero => rw [Nat.pow_zero, Nat.mul_one, Nat.add_zero]
  | succ zeros ih =>
    rw [Nat.pow_succ, ← Nat.mul_assoc, Nat.mul_comm,
      digitsOf_mul_ten (Nat.mul_pos h (Nat.pow_pos (by decide))), List.length_append, ih,
      List.length_singleton, Nat.add_assoc]

theorem lt_pow_length_digitsOf (n : Nat) : n < 10 ^ (digitsOf n).length :=
  (Nat.length_toDigits_le_iff (by decide) (by exact Nat.length_toDigits_pos)).mp (Nat.le_refl _)

theorem pow_le_of_lt_length_digitsOf {count : Nat} (hcount : 0 < count)
    (h : count < (digitsOf n).length) : 10 ^ count ≤ n := by
  by_contra hlt
  have hle := (Nat.length_toDigits_le_iff (by decide) hcount).mpr (Nat.not_le.mp hlt)
  exact absurd h (Nat.not_lt.mpr hle)

/-! ### What decimals stand for -/

/-- A decimal of a moderate magnitude stands for the rank nearest to its value. -/
theorem nearestRank_of_magnitude (hdigits : d.digits ≠ 0) (hlow : -400 ≤ d.magnitude)
    (hhigh : d.magnitude ≤ 400) :
    d.nearestRank = Numeric.nearestRank (d.digits * 10 ^ d.exponent.toNat * unitsPerOne)
      (10 ^ (-d.exponent).toNat) := by
  rw [nearestRank, if_neg (by omega), if_neg (by omega)]
  split_ifs with hexponent
  · have hzero : (-d.exponent).toNat = 0 := by omega
    rw [hzero]
    rfl
  · have hzero : d.exponent.toNat = 0 := by omega
    rw [hzero, Nat.pow_zero, Nat.mul_one]
    rfl

/-- Zeros at the end of the digits count like a greater exponent. -/
theorem nearestRank_mul_pow (digits zeros : Nat) (exponent : Int) :
    nearestRank ⟨digits * 10 ^ zeros, exponent⟩ = nearestRank ⟨digits, exponent + zeros⟩ := by
  rcases Nat.eq_zero_or_pos digits with rfl | hpositive
  · simp [nearestRank]
  have hproduct : 0 < digits * 10 ^ zeros := Nat.mul_pos hpositive (Nat.pow_pos (by decide))
  have hmagnitude : magnitude ⟨digits * 10 ^ zeros, exponent⟩ =
      magnitude ⟨digits, exponent + zeros⟩ := by
    simp only [magnitude, length_digitsOf_mul_pow hpositive]
    omega
  by_cases hlow : -400 ≤ magnitude ⟨digits, exponent + zeros⟩
  · by_cases hhigh : magnitude ⟨digits, exponent + zeros⟩ ≤ 400
    · rw [nearestRank_of_magnitude hpositive.ne' hlow hhigh,
        nearestRank_of_magnitude hproduct.ne' (hmagnitude ▸ hlow) (hmagnitude ▸ hhigh)]
      refine nearestRank_congr (Nat.pow_pos (by decide)) (Nat.pow_pos (by decide)) ?_
      have hexponents : zeros + exponent.toNat + (-(exponent + zeros)).toNat =
          (exponent + zeros).toNat + (-exponent).toNat := by omega
      calc
        digits * 10 ^ zeros * 10 ^ exponent.toNat * unitsPerOne * 10 ^ (-(exponent + zeros)).toNat
        _ = digits * unitsPerOne *
              10 ^ (zeros + exponent.toNat + (-(exponent + zeros)).toNat) := by ring
        _ = digits * unitsPerOne * 10 ^ ((exponent + zeros).toNat + (-exponent).toNat) := by
          rw [hexponents]
        _ = digits * 10 ^ (exponent + zeros).toNat * unitsPerOne * 10 ^ (-exponent).toNat := by
          ring
    · simp only [nearestRank, hmagnitude]
      rw [if_neg (by omega), if_pos (by omega), if_neg (by omega), if_pos (by omega)]
  · simp only [nearestRank, hmagnitude]
    rw [if_pos (by omega), if_pos (by omega)]

/-! ### Shortest decimals -/

/-- The exact digits of a rank are its value, without the places. -/
theorem exactDigits_mul (rank : Nat) :
    exactDigits rank * unitsPerOne = units rank * 10 ^ places rank := by
  obtain ⟨significand, hunits, -⟩ := exists_units_eq rank
  have hplaces : places rank = unitsPerOneLog - doublings rank := rfl
  obtain ⟨rest, hrest⟩ : ∃ rest, doublings rank = rest + (unitsPerOneLog - places rank) :=
    ⟨doublings rank - (unitsPerOneLog - places rank), by omega⟩
  have hone : unitsPerOne = 2 ^ (unitsPerOneLog - places rank) * 2 ^ places rank := by
    rw [← Nat.pow_add, Nat.sub_add_cancel (by omega), unitsPerOne_eq]
  have hquotient : units rank / Nat.pow 2 (unitsPerOneLog - places rank) =
      significand * 2 ^ rest := by
    rw [hunits, hrest, Nat.pow_add, ← Nat.mul_assoc]
    exact Nat.mul_div_cancel _ (Nat.two_pow_pos _)
  calc exactDigits rank * unitsPerOne
      = significand * 2 ^ rest * 5 ^ places rank *
          (2 ^ (unitsPerOneLog - places rank) * 2 ^ places rank) := by
        rw [exactDigits, hquotient, hone]
        rfl
    _ = significand * 2 ^ (rest + (unitsPerOneLog - places rank)) *
          (2 ^ places rank * 5 ^ places rank) := by ring
    _ = significand * 2 ^ (rest + (unitsPerOneLog - places rank)) * (2 * 5) ^ places rank := by
        rw [Nat.mul_pow]
    _ = units rank * 10 ^ places rank := by rw [← hrest, ← hunits]

/-- The exact digits of a positive finite rank have a moderate magnitude. -/
theorem magnitude_exactDigits (hpositive : 0 < rank) (hfinite : rank < infinityRank) :
    -400 ≤ magnitude ⟨exactDigits rank, -places rank⟩ ∧
      magnitude ⟨exactDigits rank, -places rank⟩ ≤ 400 := by
  have hexact := exactDigits_mul rank
  have hunits := units_pos hpositive
  have hten : 0 < 10 ^ places rank := Nat.pow_pos (by decide)
  simp only [magnitude]
  constructor
  · by_contra hlow
    have hdigits := lt_pow_length_digitsOf (exactDigits rank)
    have hone : unitsPerOne ≤ 10 ^ 400 := by decide +kernel
    have hpower : 10 ^ ((digitsOf (exactDigits rank)).length + 400) ≤ 10 ^ places rank :=
      Nat.pow_le_pow_right (by decide) (by omega)
    have hlt : units rank * 10 ^ places rank < 10 ^ places rank :=
      calc units rank * 10 ^ places rank
          = exactDigits rank * unitsPerOne := hexact.symm
        _ < 10 ^ (digitsOf (exactDigits rank)).length * unitsPerOne :=
          Nat.mul_lt_mul_of_pos_right hdigits unitsPerOne_pos
        _ ≤ 10 ^ (digitsOf (exactDigits rank)).length * 10 ^ 400 := Nat.mul_le_mul_left _ hone
        _ = 10 ^ ((digitsOf (exactDigits rank)).length + 400) := by rw [Nat.pow_add]
        _ ≤ 10 ^ places rank := hpower
    exact absurd hlt (Nat.not_lt.mpr (Nat.le_mul_of_pos_left _ hunits))
  · by_contra hhigh
    have hdigits : 10 ^ (400 + places rank) ≤ exactDigits rank :=
      pow_le_of_lt_length_digitsOf (by omega) (by omega)
    have hbound := doublings_le hfinite
    have hone : 2 ^ (53 + doublings rank) ≤ 10 ^ 400 * unitsPerOne :=
      Nat.le_trans (Nat.pow_le_pow_right (by decide) (by omega : _ ≤ 53 + 2045)) (by decide +kernel)
    have hle : 2 ^ (53 + doublings rank) * 10 ^ places rank ≤ units rank * 10 ^ places rank :=
      calc 2 ^ (53 + doublings rank) * 10 ^ places rank
          ≤ 10 ^ 400 * unitsPerOne * 10 ^ places rank := Nat.mul_le_mul_right _ hone
        _ = 10 ^ (400 + places rank) * unitsPerOne := by rw [Nat.pow_add, Nat.mul_right_comm]
        _ ≤ exactDigits rank * unitsPerOne := Nat.mul_le_mul_right _ hdigits
        _ = units rank * 10 ^ places rank := hexact
    exact absurd (units_lt rank) (Nat.not_lt.mpr (Nat.le_of_mul_le_mul_right hle hten))

/-- All digits of a value stand for its rank. -/
theorem nearestRank_exact (hpositive : 0 < rank) (hfinite : rank < infinityRank) :
    (truncated rank 0 false).nearestRank = rank := by
  have htruncated : truncated rank 0 false = ⟨exactDigits rank, -places rank⟩ := by
    simp [truncated]
  obtain ⟨hlow, hhigh⟩ := magnitude_exactDigits hpositive hfinite
  have hexact := exactDigits_mul rank
  have hdigits : exactDigits rank ≠ 0 := by
    intro hzero
    rw [hzero, Nat.zero_mul] at hexact
    exact absurd hexact.symm (Nat.mul_pos (units_pos hpositive) (Nat.pow_pos (by decide))).ne'
  rw [htruncated, nearestRank_of_magnitude hdigits hlow hhigh]
  refine (nearestRank_congr (Nat.pow_pos (by decide)) Nat.one_pos ?_).trans
    (nearestRank_units (Nat.le_of_lt hfinite))
  have hup : (-(places rank : Int)).toNat = 0 := by omega
  have hdown : (-(-(places rank : Int))).toNat = places rank := by omega
  dsimp only
  rw [hup, hdown, Nat.pow_zero, Nat.mul_one, Nat.mul_one, hexact]

theorem nearestRank_of_neighbour? {dropped : Nat} (h : neighbour? rank dropped = some d) :
    d.nearestRank = rank := by
  unfold neighbour? at h
  dsimp only at h
  split at h
  · next hbelow habove =>
    split_ifs at h
    · cases h
      exact eq_of_beq habove
    · cases h
      exact eq_of_beq hbelow
  · next hbelow _ =>
    cases h
    exact eq_of_beq hbelow
  · next _ habove =>
    cases h
    exact eq_of_beq habove
  · cases h

/-- The shortest decimal of a rank stands for it. -/
theorem nearestRank_ofRank (hpositive : 0 < rank) (hfinite : rank < infinityRank) :
    (ofRank rank).nearestRank = rank := by
  unfold ofRank
  dsimp only
  cases hshortest : (List.range (digitsOf (exactDigits rank)).length).findSome? fun i ↦
      neighbour? rank ((digitsOf (exactDigits rank)).length - (i + 1)) with
  | none => exact nearestRank_exact hpositive hfinite
  | some d =>
    obtain ⟨i, -, hneighbour⟩ := List.exists_of_findSome?_eq_some hshortest
    exact nearestRank_of_neighbour? hneighbour

end Decimal

end Montage.Numeric
