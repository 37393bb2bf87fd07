import Mathlib.Algebra.Group.Nat.Defs
import Mathlib.Data.List.Induction
import Montage.Numeric.Notation

/-!
# Numerals

A whole number is written as its decimal digits (`Decimal.digitsOf`), and reading them gives the
number back (`digitsValue_digitsOf`). Digits before others count with a power of ten
(`digitsValue_append`), so zeros in front change nothing and zeros at the end multiply by ten. Zeros
in front are also all that numerals of one value can differ in (`eq_zeros_append`).
-/

set_option autoImplicit false
set_option relaxedAutoImplicit false

namespace Montage.Numeric

open Decimal

theorem digitsValue_eq_ofDigitChars (digits : List Char) :
    digitsValue digits = Nat.ofDigitChars 10 digits 0 :=
  Nat.ofDigitChars_eq_foldl.symm

@[simp]
theorem digitsValue_digitsOf (n : Nat) : digitsValue (digitsOf n) = n := by
  rw [digitsValue_eq_ofDigitChars]
  exact Nat.ofDigitChars_ten_toDigits

theorem digitsValue_append (digits more : List Char) :
    digitsValue (digits ++ more) = digitsValue digits * 10 ^ more.length + digitsValue more := by
  simp only [digitsValue_eq_ofDigitChars]
  rw [Nat.ofDigitChars_append, Nat.ofDigitChars_eq_ofDigitChars_zero, Nat.mul_comm]

theorem digitsValue_replicate_zero (count : Nat) :
    digitsValue (List.replicate count '0') = 0 := by
  rw [digitsValue_eq_ofDigitChars, Nat.ofDigitChars_replicate_zero, Nat.mul_zero]

theorem digitsValue_concat (digits : List Char) (c : Char) :
    digitsValue (digits ++ [c]) = 10 * digitsValue digits + (c.toNat - '0'.toNat) := by
  rw [digitsValue, List.foldl_append, digitsValue]
  rfl

section Digits

variable {digits others : List Char}

/-- Digits are known by their number and their value. -/
theorem eq_of_digitsValue_eq (hdigits : ∀ c ∈ digits, c.isDigit) (hothers : ∀ c ∈ others, c.isDigit)
    (hlength : digits.length = others.length) (hvalue : digitsValue digits = digitsValue others) :
    digits = others := by
  induction digits using List.reverseRecOn generalizing others with
  | nil => exact (List.eq_nil_of_length_eq_zero hlength.symm).symm
  | append_singleton digits c ih =>
    cases others using List.reverseRecOn with
    | nil => simp at hlength
    | append_singleton others d =>
      obtain ⟨hdigits, hc⟩ := List.forall_mem_append.mp hdigits
      obtain ⟨hothers, hd⟩ := List.forall_mem_append.mp hothers
      obtain ⟨hclow, hchigh⟩ := Char.isDigit_iff_toNat.mp (hc c List.mem_cons_self)
      obtain ⟨hdlow, hdhigh⟩ := Char.isDigit_iff_toNat.mp (hd d List.mem_cons_self)
      have hzero : '0'.toNat = 48 := rfl
      have hnine : '9'.toNat = 57 := rfl
      rw [digitsValue_concat, digitsValue_concat] at hvalue
      have hrest : digits.length = others.length := by simpa using hlength
      have hlast : c.toNat = d.toNat := by omega
      have hfront : digitsValue digits = digitsValue others := by omega
      rw [ih hdigits hothers hrest hfront, Char.toNat_inj.mp hlast]

/-- The longer one of two numerals of one value has more zeros in front, and nothing else. -/
theorem eq_zeros_append (hdigits : ∀ c ∈ digits, c.isDigit) (hothers : ∀ c ∈ others, c.isDigit)
    (hlength : digits.length ≤ others.length) (hvalue : digitsValue digits = digitsValue others) :
    others = List.replicate (others.length - digits.length) '0' ++ digits := by
  refine eq_of_digitsValue_eq hothers ?_ ?_ ?_
  · refine List.forall_mem_append.mpr ⟨fun c hc ↦ ?_, hdigits⟩
    rw [List.eq_of_mem_replicate hc]
    rfl
  · rw [List.length_append, List.length_replicate, Nat.sub_add_cancel hlength]
  · rw [digitsValue_append, digitsValue_replicate_zero, Nat.zero_mul, Nat.zero_add, hvalue]

end Digits

theorem digitsOf_injective : Function.Injective digitsOf :=
  Function.LeftInverse.injective digitsValue_digitsOf

theorem digitsOf_ne_nil (n : Nat) : digitsOf n ≠ [] := Nat.toDigits_ne_nil

theorem isDigit_of_mem_digitsOf {n : Nat} {c : Char} (h : c ∈ digitsOf n) : c.isDigit :=
  Nat.isDigit_of_mem_toDigits (by decide) (by decide) h

theorem toList_toString (n : Nat) : (toString n).toList = digitsOf n := by
  rw [Nat.toString_eq_ofList_toDigits, String.toList_ofList]
  rfl

theorem toString_injective : Function.Injective (toString : Nat → String) := by
  intro m n h
  apply digitsOf_injective
  rw [← toList_toString, h, toList_toString]

end Montage.Numeric
