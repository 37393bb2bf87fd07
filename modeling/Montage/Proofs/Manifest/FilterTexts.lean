import Montage.Proofs.Numeric.ReadBack
import Montage.Proofs.Text.Pieces
import Montage.VisualFilter

/-!
# Texts of filters

A filter is written as its kind, an equals sign and its value (`VisualFilter.toText`). The kind
has no equals sign, so the two parts are found again, and the value is made of numbers, which read
back (`readNumber?_digitsOf` and `Binary64.ofChars?_toChars`). Hence every filter whose numbers are
in range is read from its text (`VisualFilter.ofText?_toText`). The text is one word: it has no
blanks (`VisualFilter.isBlank_of_mem_toText`).
-/

set_option autoImplicit false
set_option relaxedAutoImplicit false

namespace Montage.VisualFilter

open Numeric Numeric.Decimal

/-! ### Writing -/

/-- What a filter does, in a word. -/
def kind : VisualFilter → String
  | rotate _ => "rotate"
  | transpose _ => "transpose"
  | crop .. => "crop"

/-- The numbers of a filter. -/
def value : VisualFilter → List Char
  | rotate degrees => degrees.toChars
  | transpose direction => digitsOf direction
  | crop width height x y =>
    digitsOf width ++ ':' :: (digitsOf height ++ ':' :: (digitsOf x ++ ':' :: digitsOf y))

/-- The text of a filter, as in `rotate=90`. -/
def toText (filter : VisualFilter) : String :=
  filter.kind ++ "=" ++ String.ofList filter.value

/-- The numbers of a filter are in range: an angle is finite, a direction is one of the four, and
sizes and places are not too great. -/
def Writable : VisualFilter → Prop
  | rotate degrees => degrees.isFinite
  | transpose direction => direction ≤ maxDirection
  | crop width height x y => ∀ n ∈ [width, height, x, y], n ≤ maxPixels

instance : DecidablePred Writable
  | rotate degrees => inferInstanceAs (Decidable (degrees.isFinite = true))
  | transpose direction => inferInstanceAs (Decidable (direction ≤ maxDirection))
  | crop width height x y =>
    inferInstanceAs (Decidable (∀ n ∈ [width, height, x, y], n ≤ maxPixels))

variable {filter : VisualFilter}

theorem toList_toText (filter : VisualFilter) :
    filter.toText.toList = filter.kind.toList ++ '=' :: filter.value := by
  simp [toText]

theorem kind_mem (filter : VisualFilter) : filter.kind ∈ ["rotate", "transpose", "crop"] := by
  cases filter <;> simp [kind]

/-! ### Characters -/

theorem notMem_digitsOf {c : Char} (h : c.isDigit = false) (n : Nat) : c ∉ digitsOf n := by
  intro hc
  rw [isDigit_of_mem_digitsOf hc] at h
  cases h

theorem isBlank_of_isNumeral {c : Char} (h : Binary64.isNumeral c) : Text.isBlank c = false := by
  rcases Bool.or_eq_true_iff.mp h with hdigit | hmark
  · exact Text.not_isBlank_of_isDigit hdigit
  · have hmarks : ['.', '-', 'i', 'n', 'f', 'N', 'a'].all (!Text.isBlank ·) := by decide
    simpa using List.all_eq_true.mp hmarks c (of_decide_eq_true hmark)

theorem isBlank_of_mem_value {c : Char} (h : c ∈ filter.value) : Text.isBlank c = false := by
  have hdigits {n : Nat} (hc : c ∈ digitsOf n) : Text.isBlank c = false :=
    Text.not_isBlank_of_isDigit (isDigit_of_mem_digitsOf hc)
  cases filter with
  | rotate degrees => exact isBlank_of_isNumeral (Binary64.isNumeral_of_mem_toChars h)
  | transpose direction => exact hdigits h
  | crop width height x y =>
    simp only [value, List.mem_append, List.mem_cons] at h
    rcases h with h | rfl | h | rfl | h | rfl | h
    all_goals first
      | exact hdigits h
      | decide

/-- The text of a filter is one word. -/
theorem isBlank_of_mem_toText {c : Char} (h : c ∈ filter.toText.toList) :
    Text.isBlank c = false := by
  rw [toList_toText] at h
  rcases List.mem_append.mp h with hkind | hrest
  · have hkinds : ∀ kind ∈ ["rotate", "transpose", "crop"],
        kind.toList.all (!Text.isBlank ·) := by
      decide
    simpa using List.all_eq_true.mp (hkinds _ filter.kind_mem) c hkind
  · rcases List.mem_cons.mp hrest with rfl | hvalue
    · decide
    · exact isBlank_of_mem_value hvalue

/-! ### Reading back -/

theorem readNumber?_digitsOf {limit n : Nat} (h : n ≤ limit) :
    readNumber? limit (digitsOf n) = some n := by
  obtain ⟨first, rest, hdigits⟩ := List.exists_cons_of_ne_nil (digitsOf_ne_nil n)
  have hall : (digitsOf n).all Char.isDigit :=
    List.all_eq_true.mpr fun c hc ↦ isDigit_of_mem_digitsOf hc
  have hsign : first ≠ '+' := by
    rintro rfl
    exact notMem_digitsOf rfl n (hdigits ▸ List.mem_cons_self)
  have hvalue := digitsValue_digitsOf n
  rw [hdigits] at hall hvalue ⊢
  simp [readNumber?, hsign, hall, hvalue, h]

/-- A filter whose numbers are in range is read from its text. -/
theorem ofText?_toText (h : filter.Writable) : ofText? filter.toText = some filter := by
  have hkind : '=' ∉ filter.kind.toList := by
    have hkinds : ∀ kind ∈ ["rotate", "transpose", "crop"], '=' ∉ kind.toList := by decide
    exact hkinds _ filter.kind_mem
  rw [ofText?, Text.trim_eq_self fun c hc ↦ isBlank_of_mem_toText hc, toList_toText,
    Text.cutOnce?_append_cons hkind, Option.bind_some]
  cases filter with
  | rotate degrees =>
    have hfinite : degrees.isFinite := h
    simp [kind, value, Binary64.ofChars?_toChars, hfinite]
  | transpose direction =>
    have hread := readNumber?_digitsOf h
    simp [kind, value, hread]
  | crop width height x y =>
    obtain ⟨hwidth, hheight, hx, hy⟩ :
        width ≤ maxPixels ∧ height ≤ maxPixels ∧ x ≤ maxPixels ∧ y ≤ maxPixels := by
      simpa [Writable] using h
    have hcolon (n : Nat) : ':' ∉ digitsOf n := notMem_digitsOf rfl n
    have hpieces : Text.cut (· == ':') (crop width height x y).value =
        [digitsOf width, digitsOf height, digitsOf x, digitsOf y] := by
      rw [value, Text.cut_first (hcolon width), Text.cut_first (hcolon height),
        Text.cut_first (hcolon x), Text.cut_of_notMem (hcolon y)]
    simp [kind, hpieces, readNumber?_digitsOf, hwidth, hheight, hx, hy]

end Montage.VisualFilter
