import Montage.Proofs.Numeric.ReadBack

/-!
# Separators

Texts that are joined by a separator can be told apart again if none of them holds the separator
(`intercalate_inj`), and so can a text and what follows it after the first separator
(`append_cons_inj`, `value_append_cons_inj`). Numbers hold no separators (`avoids_toString`,
`avoids_toText`).
-/

set_option autoImplicit false
set_option relaxedAutoImplicit false

namespace Montage.Text

open Numeric

/-- The text has none of these characters. -/
def Avoids (separators : List Char) (text : String) : Prop := ∀ c ∈ text.toList, c ∉ separators

-- The instance is named because another one searches all characters.
instance (separators : List Char) (text : String) : Decidable (Avoids separators text) :=
  List.decidableBAll (· ∉ separators) text.toList

variable {separators : List Char} {separator : Char} {text more : String}
  {texts others : List String}

@[simp]
theorem avoids_append :
    Avoids separators (text ++ more) ↔ Avoids separators text ∧ Avoids separators more := by
  simp only [Avoids, String.toList_append, List.forall_mem_append]

theorem Avoids.notMem (h : Avoids separators text) (hseparator : separator ∈ separators) :
    separator ∉ text.toList :=
  fun hmem ↦ h separator hmem hseparator

theorem Avoids.mono {fewer : List Char} (h : Avoids separators text)
    (hsubset : fewer ⊆ separators) : Avoids fewer text :=
  fun c hc hfewer ↦ h c hc (hsubset hfewer)

theorem Avoids.intercalate (h : Avoids separators more)
    (htexts : ∀ text ∈ texts, Avoids separators text) :
    Avoids separators (more.intercalate texts) := by
  induction texts with
  | nil => simp [Avoids]
  | cons text texts ih =>
    obtain ⟨htext, hrest⟩ := List.forall_mem_cons.mp htexts
    cases texts with
    | nil => simpa using htext
    | cons next texts =>
      rw [String.intercalate_cons_cons]
      simp only [avoids_append]
      exact ⟨⟨htext, h⟩, ih hrest⟩

/-! ### Numbers -/

theorem avoids_toString (h : separators.any Char.isDigit = false) (n : Nat) :
    Avoids separators (toString n) := by
  intro c hc hseparator
  rw [toList_toString] at hc
  exact List.any_eq_false.mp h c hseparator (isDigit_of_mem_digitsOf hc)

theorem avoids_toText (h : separators.any Binary64.isNumeral = false) (x : Binary64) :
    Avoids separators x.toText := by
  intro c hc hseparator
  rw [Binary64.toText, String.toList_ofList] at hc
  exact List.any_eq_false.mp h c hseparator (Binary64.isNumeral_of_mem_toChars hc)

/-! ### Taking texts apart -/

/-- What stands before and behind the first separator is settled. -/
theorem append_cons_inj {before before' behind behind' : List Char} (h : separator ∉ before)
    (h' : separator ∉ before')
    (heq : before ++ separator :: behind = before' ++ separator :: behind') :
    before = before' ∧ behind = behind' := by
  rcases List.append_eq_append_iff.mp heq with ⟨rest, hrest, htail⟩ | ⟨rest, hrest, htail⟩
  · cases rest with
    | nil => exact ⟨by simpa using hrest.symm, (List.cons.inj htail).2⟩
    | cons c rest =>
      obtain ⟨rfl, -⟩ := List.cons.inj htail
      exact absurd (hrest ▸ List.mem_append_right _ List.mem_cons_self) h'
  · cases rest with
    | nil => exact ⟨by simpa using hrest, (List.cons.inj htail).2.symm⟩
    | cons c rest =>
      obtain ⟨rfl, -⟩ := List.cons.inj htail
      exact absurd (hrest ▸ List.mem_append_right _ List.mem_cons_self) h

/-- A value is settled by its text up to a separator, if no text of a value holds it. -/
theorem value_append_cons_inj {α : Type} {textOf : α → String} (hinj : Function.Injective textOf)
    (havoids : ∀ a, Avoids [separator] (textOf a)) {a b : α} {behind behind' : List Char}
    (heq : (textOf a).toList ++ separator :: behind = (textOf b).toList ++ separator :: behind') :
    a = b ∧ behind = behind' := by
  obtain ⟨htext, hbehind⟩ := append_cons_inj ((havoids a).notMem List.mem_cons_self)
    ((havoids b).notMem List.mem_cons_self) heq
  exact ⟨hinj (String.toList_inj.mp htext), hbehind⟩

/-- Texts that are joined by a separator are settled if none of them holds it. -/
theorem intercalate_inj {mark : String} (hmark : mark.toList = [separator])
    (h : ∀ text ∈ texts, separator ∉ text.toList) (h' : ∀ text ∈ others, separator ∉ text.toList)
    (hne : texts ≠ []) (hne' : others ≠ [])
    (heq : mark.intercalate texts = mark.intercalate others) : texts = others := by
  have hsplit {texts : List String} (h : ∀ text ∈ texts, separator ∉ text.toList)
      (hne : texts ≠ []) :
      (mark.intercalate texts).toList.splitOn separator = texts.map String.toList := by
    rw [String.toList_intercalate, hmark]
    exact List.splitOn_intercalate separator (by simpa using h) (by simpa using hne)
  have hchars := hsplit h hne
  rw [heq, hsplit h' hne'] at hchars
  exact (List.map_inj_right fun _ _ ↦ String.toList_inj.mp).mp hchars.symm

end Montage.Text
