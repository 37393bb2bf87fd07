import Montage.Text.Digit

/-!
# Letters and digits

Capitals, small letters and the digits from zero to nine are ranges of code points. Only a capital
has another lower case, a small letter, so lower-casing keeps letters letters (`isAlpha_toLower`)
and changes nothing that is in lower case (`toLower_toLower`). No letter is a digit, whatever the
script of the digit (`not_isDecimalDigit_of_isAlpha`).
-/

set_option autoImplicit false
set_option relaxedAutoImplicit false

namespace Montage.Text

variable {c : Char}

/-! ### Case -/

-- Mathlib gives the lemmas on case to those who import all of it only.
theorem isUpper_iff : c.isUpper ↔ 0x41 ≤ c.toNat ∧ c.toNat ≤ 0x5a :=
  decide_eq_true_iff

theorem isLower_iff : c.isLower ↔ 0x61 ≤ c.toNat ∧ c.toNat ≤ 0x7a := by
  delta Char.isLower
  rw [Bool.and_eq_true, decide_eq_true_eq, decide_eq_true_eq]
  exact Iff.rfl

theorem isAlpha_iff : c.isAlpha ↔ c.isUpper ∨ c.isLower := by
  delta Char.isAlpha
  exact Bool.or_eq_true_iff

theorem not_isUpper_of_isLower (h : c.isLower) : ¬ c.isUpper := by
  rw [isLower_iff] at h
  rw [isUpper_iff]
  omega

theorem not_isUpper_of_isDigit (h : c.isDigit) : ¬ c.isUpper := by
  have hle : c.toNat ≤ 0x39 := (Char.isDigit_iff_toNat.mp h).2
  rw [isUpper_iff]
  omega

theorem toLower_eq_self (h : ¬ c.isUpper) : c.toLower = c := by
  rw [isUpper_iff] at h
  delta Char.toLower
  exact dif_neg h

theorem isLower_toLower (h : c.isUpper) : c.toLower.isLower := by
  rw [isUpper_iff] at h
  have hlower : c.toLower.toNat = (c.toNat + 0x20) % 2 ^ 32 := by
    delta Char.toLower
    exact congrArg Char.toNat (dif_pos h)
  rw [isLower_iff, hlower]
  omega

theorem toLower_toLower (c : Char) : c.toLower.toLower = c.toLower := by
  by_cases h : c.isUpper
  · exact toLower_eq_self (not_isUpper_of_isLower (isLower_toLower h))
  · rw [toLower_eq_self h, toLower_eq_self h]

theorem isAlpha_toLower : c.toLower.isAlpha ↔ c.isAlpha := by
  by_cases h : c.isUpper
  · exact iff_of_true (isAlpha_iff.mpr (Or.inr (isLower_toLower h))) (isAlpha_iff.mpr (Or.inl h))
  · rw [toLower_eq_self h]

theorem toNat_of_isAlpha (h : c.isAlpha) : 0x40 < c.toNat ∧ c.toNat < 0x80 := by
  rw [isAlpha_iff, isUpper_iff, isLower_iff] at h
  omega

theorem not_isDigit_of_isAlpha (h : c.isAlpha) : c.isDigit = false := by
  rw [← Bool.not_eq_true]
  intro hdigit
  have hle : c.toNat ≤ 0x39 := (Char.isDigit_iff_toNat.mp hdigit).2
  have hlt := (toNat_of_isAlpha h).1
  omega

/-! ### Digits of all scripts -/

theorem isDecimalDigit_of_isDigit (h : c.isDigit) : isDecimalDigit c := by
  obtain ⟨hlow, hhigh⟩ := Char.isDigit_iff_toNat.mp h
  rw [isDecimalDigit, List.any_eq_true]
  refine ⟨0x30, List.mem_cons_self, ?_⟩
  rw [Bool.and_eq_true, decide_eq_true_eq, decide_eq_true_eq]
  exact ⟨hlow, Nat.lt_succ_of_le hhigh⟩

/-- A character between the first two rows of digits is no digit. -/
theorem isDecimalDigit_eq_false (hlow : 0x39 < c.toNat) (hhigh : c.toNat < 0x660) :
    isDecimalDigit c = false := by
  rw [isDecimalDigit, List.any_eq_false]
  intro first hfirst
  have hdistinct : first ≤ 0x30 ∨ 0x660 ≤ first := by
    revert first
    decide
  rw [Bool.and_eq_true, decide_eq_true_eq, decide_eq_true_eq]
  omega

theorem not_isDecimalDigit_of_isAlpha (h : c.isAlpha) : isDecimalDigit c = false := by
  obtain ⟨hlow, hhigh⟩ := toNat_of_isAlpha h
  exact isDecimalDigit_eq_false (by omega) (by omega)

end Montage.Text
