import Mathlib.Data.Finset.Card
import Mathlib.Data.List.Shortlex
import Mathlib.Data.Set.Card
import Mathlib.Data.Set.List
import Mathlib.Tactic.Ring
import Montage.Proofs.Registry.Keys

/-!
# The order of keys

The keys that a new counter hands out are the texts of two letters or more, in shortlex order:
shorter texts come first, and texts of one length stand in alphabetical order (`Key.Before`). Every
such text is handed out once, and exactly `n` of them come before the key that is handed out after
`n` others (`KeyCounter.handOut_shortlex`).

The proof reads letters as a number, as `KeyCounter.ordinal` does. The numbers of texts of one
length lie between two powers of twenty-six (`pow_length_le`, `le_pow_length_succ`), so a shorter
text has the lesser number; and of two texts of one length the first letter in which they differ
decides (`ordinal_lt_of_shortlex`). Handing out a key moves the number on by one, so no text is left
out.
-/

set_option autoImplicit false
set_option relaxedAutoImplicit false

namespace Montage.Registry

/-! ### Texts of keys -/

/-- The text of the key has two letters or more, all of them from `A` to `Z`. -/
structure Key.IsAlphabetic (key : Key) : Prop where
  two_le_length : 2 ≤ key.text.toList.length
  isLetter : ∀ c ∈ key.text.toList, 'A' ≤ c ∧ c ≤ 'Z'

/-- Shorter texts come first, and texts of one length are in alphabetical order. -/
def Key.Before (a b : Key) : Prop := List.Shortlex (· < ·) a.text.toList b.text.toList

namespace KeyCounter

variable {counter other : KeyCounter} {letters others : List (Fin 26)}

/-- The keys that a counter hands out one after the other. -/
def handOut (counter : KeyCounter) : Nat → List Key
  | 0 => []
  | count + 1 => counter.current :: counter.next.handOut count

/-- A counter hands out the key that is current at the time. -/
theorem handOut_eq_map (counter : KeyCounter) (count : Nat) :
    counter.handOut count = (List.range count).map fun place ↦ (counter.skip place).current := by
  induction count generalizing counter with
  | zero => rfl
  | succ count ih =>
    rw [handOut, ih, List.range_succ_eq_map, List.map_cons, List.map_map]
    rfl

/-- The last key of two letters is followed by the first one of three. -/
example : handOut ⟨[25, 25]⟩ 2 = [⟨"ZZ"⟩, ⟨"AAA"⟩] := by
  decide +kernel

theorem toList_text_current (counter : KeyCounter) :
    counter.current.text.toList = counter.letters.map letter :=
  String.toList_ofList

theorem letter_lt_letter {a b : Fin 26} (h : a < b) : letter a < letter b := by
  revert a b
  decide +kernel

theorem letter_bounds (a : Fin 26) : 'A' ≤ letter a ∧ letter a ≤ 'Z' := by
  revert a
  decide +kernel

/-- A character from `A` to `Z` is the letter of a place. -/
theorem exists_letter_eq {c : Char} (h : 'A' ≤ c ∧ c ≤ 'Z') : ∃ place, letter place = c := by
  have hlow : 'A'.toNat ≤ c.toNat := h.1
  have hhigh : c.toNat ≤ 'A'.toNat + 25 := h.2
  refine ⟨⟨c.toNat - 'A'.toNat, by omega⟩, ?_⟩
  rw [letter, Nat.add_sub_cancel' hlow, Char.ofNat_toNat]

/-- The keys of alphabetic texts are those of counters with two letters or more. -/
theorem isAlphabetic_iff {key : Key} :
    key.IsAlphabetic ↔ ∃ counter : KeyCounter, 2 ≤ counter.letters.length ∧
      counter.current = key := by
  constructor
  · rintro ⟨hlength, hletters⟩
    obtain ⟨letters, hmap⟩ : key.text.toList ∈ Set.range (List.map letter) := by
      rw [Set.range_list_map]
      exact fun c hc ↦ exists_letter_eq (hletters c hc)
    refine ⟨⟨letters⟩, ?_, ?_⟩
    · rwa [← hmap, List.length_map] at hlength
    · rw [current, hmap, String.ofList_toList]
  · rintro ⟨counter, hlength, rfl⟩
    constructor
    · rwa [toList_text_current, List.length_map]
    · rw [toList_text_current]
      exact List.forall_mem_map.mpr fun place _ ↦ letter_bounds place

/-! ### Letters as numbers -/

theorem ordinalOf_append (letters others : List (Fin 26)) :
    ordinalOf (letters ++ others) =
      ordinalOf letters + 26 ^ letters.length * ordinalOf others := by
  induction letters with
  | nil => simp [ordinalOf]
  | cons place letters ih =>
    rw [List.cons_append, ordinalOf, ih, ordinalOf, List.length_cons]
    ring

theorem pow_length_le (letters : List (Fin 26)) :
    26 ^ letters.length ≤ 25 * ordinalOf letters + 1 := by
  induction letters with
  | nil => exact Nat.le_refl _
  | cons place letters ih =>
    rw [List.length_cons, Nat.pow_succ, ordinalOf]
    omega

theorem le_pow_length_succ (letters : List (Fin 26)) :
    25 * ordinalOf letters + 26 ≤ 26 ^ (letters.length + 1) := by
  induction letters with
  | nil => exact Nat.le_refl _
  | cons place letters ih =>
    rw [List.length_cons, Nat.pow_succ, ordinalOf]
    have hplace := place.isLt
    omega

/-- Of two texts of one length, the first letter in which they differ decides. -/
theorem ordinalOf_reverse_lt_of_lex (h : List.Lex (· < ·) letters others)
    (hlength : letters.length = others.length) :
    ordinalOf letters.reverse < ordinalOf others.reverse := by
  induction h with
  | nil => cases hlength
  | @cons place letters others hrest ih =>
    have hrest := ih (Nat.succ.inj hlength)
    simp only [List.reverse_cons, ordinalOf_append, List.length_reverse, Nat.succ.inj hlength]
    exact Nat.add_lt_add_right hrest _
  | @rel place letters later others hplace =>
    have hlength := Nat.succ.inj hlength
    have hupper := le_pow_length_succ letters.reverse
    have hlower := pow_length_le others.reverse
    have hstep : 26 ^ others.length * (place.val + 1) + 26 ^ others.length ≤
        26 ^ others.length * (later.val + 1) :=
      Nat.mul_le_mul_left (26 ^ others.length) (Nat.succ_le_succ hplace)
    simp only [List.reverse_cons, ordinalOf_append, List.length_reverse, hlength, ordinalOf,
      Nat.pow_succ, Nat.mul_zero, Nat.add_zero] at hupper hlower ⊢
    omega

/-- The letters that come first have the lesser number. -/
theorem ordinal_lt_of_shortlex (h : List.Shortlex (· < ·) counter.letters other.letters) :
    counter.ordinal < other.ordinal := by
  rcases List.shortlex_def.mp h with hshorter | ⟨hlength, hlex⟩
  · have hupper := le_pow_length_succ counter.letters.reverse
    have hlower := pow_length_le other.letters.reverse
    have hpow : 26 ^ (counter.letters.length + 1) ≤ 26 ^ other.letters.length :=
      Nat.pow_le_pow_right (by decide) hshorter
    rw [List.length_reverse] at hupper hlower
    rw [ordinal, ordinal]
    omega
  · exact ordinalOf_reverse_lt_of_lex hlex hlength

/-- Of two counters, one has the letters that come first. -/
theorem shortlex_or_eq_or_shortlex (counter other : KeyCounter) :
    List.Shortlex (· < ·) counter.letters other.letters ∨ counter = other ∨
      List.Shortlex (· < ·) other.letters counter.letters := by
  have hletters := Std.Trichotomous.rel_or_eq_or_rel_swap (r := List.Shortlex (α := Fin 26) (· < ·))
    (a := counter.letters) (b := other.letters)
  exact hletters.imp_right (Or.imp_left (congrArg KeyCounter.mk))

/-- Counters with one number have the same letters. -/
theorem eq_of_ordinal_eq (h : counter.ordinal = other.ordinal) : counter = other := by
  rcases shortlex_or_eq_or_shortlex counter other with hless | hsame | hgreater
  · exact absurd h (ordinal_lt_of_shortlex hless).ne
  · exact hsame
  · exact absurd h.symm (ordinal_lt_of_shortlex hgreater).ne

/-- The alphabet has the order of its places, so keys have the order of their letters. -/
theorem before_of_shortlex (h : List.Shortlex (· < ·) counter.letters other.letters) :
    counter.current.Before other.current := by
  have hmap {letters others : List (Fin 26)} (hlex : List.Lex (· < ·) letters others) :
      List.Lex (· < ·) (letters.map letter) (others.map letter) := by
    induction hlex with
    | nil => exact List.Lex.nil
    | cons _ ih => exact List.Lex.cons ih
    | rel hplace => exact List.Lex.rel (letter_lt_letter hplace)
  rw [Key.Before, toList_text_current, toList_text_current, List.shortlex_def, List.length_map,
    List.length_map]
  exact (List.shortlex_def.mp h).imp_right fun ⟨hlength, hlex⟩ ↦ ⟨hlength, hmap hlex⟩

/-- Keys come in the order of the numbers of their letters. -/
theorem current_before_iff :
    counter.current.Before other.current ↔ counter.ordinal < other.ordinal := by
  rcases shortlex_or_eq_or_shortlex counter other with hless | rfl | hgreater
  · exact iff_of_true (before_of_shortlex hless) (ordinal_lt_of_shortlex hless)
  · exact iff_of_false (Std.Irrefl.irrefl (r := List.Shortlex (· < ·)) _) (Nat.lt_irrefl _)
  · exact iff_of_false
      (Std.Asymm.asymm (r := List.Shortlex (· < ·)) _ _ (before_of_shortlex hgreater))
      (Nat.lt_asymm (ordinal_lt_of_shortlex hgreater))

/-- The first key is the least of two letters: more than one letter makes its number or a greater
one. -/
theorem two_le_length_iff :
    2 ≤ counter.letters.length ↔ first.ordinal ≤ counter.ordinal := by
  have hupper := le_pow_length_succ counter.letters.reverse
  have hlower := pow_length_le counter.letters.reverse
  have hfirst : first.ordinal = 27 := rfl
  rw [List.length_reverse] at hupper hlower
  rw [hfirst, ordinal]
  constructor
  · intro hlength
    have hpow : 26 ^ 2 ≤ 26 ^ counter.letters.length := Nat.pow_le_pow_right (by decide) hlength
    omega
  · intro hordinal
    by_contra hshort
    have hpow : 26 ^ (counter.letters.length + 1) ≤ 26 ^ 2 :=
      Nat.pow_le_pow_right (by decide) (by omega)
    omega

/-! ### Keys of a new counter -/

/-- Every alphabetic text is handed out, and nothing else is. -/
theorem isAlphabetic_iff_exists {key : Key} :
    key.IsAlphabetic ↔ ∃ count, keyAfter count = key := by
  rw [isAlphabetic_iff]
  constructor
  · rintro ⟨counter, hlength, rfl⟩
    have hordinal := two_le_length_iff.mp hlength
    refine ⟨counter.ordinal - first.ordinal, congrArg current (eq_of_ordinal_eq ?_)⟩
    rw [ordinal_skip, Nat.add_sub_cancel' hordinal]
  · rintro ⟨count, rfl⟩
    refine ⟨first.skip count, two_le_length_iff.mpr ?_, rfl⟩
    rw [ordinal_skip]
    exact Nat.le_add_right _ _

theorem keyAfter_before_iff {m n : Nat} :
    (keyAfter m).Before (keyAfter n) ↔ m < n := by
  rw [keyAfter, keyAfter, current_before_iff, ordinal_skip, ordinal_skip, Nat.add_lt_add_iff_left]

/-- A new counter hands out the keys `keyAfter n`, in the order of `n`. Such a key is alphabetic,
exactly `n` alphabetic keys come before it in shortlex order, and keys are handed out in this order.
Every alphabetic key is handed out exactly once. -/
theorem handOut_shortlex :
    (∀ count, first.handOut count = (List.range count).map keyAfter) ∧
      (∀ n, (keyAfter n).IsAlphabetic ∧
        {other : Key | other.IsAlphabetic ∧ other.Before (keyAfter n)}.encard = n) ∧
      (∀ m n, (keyAfter m).Before (keyAfter n) ↔ m < n) ∧
      ∀ other : Key, other.IsAlphabetic ↔ ∃! n, keyAfter n = other := by
  have hinj : Function.Injective keyAfter := current_skip_injective _
  have hkeys {other : Key} : other.IsAlphabetic ↔ ∃ n, keyAfter n = other :=
    isAlphabetic_iff_exists
  refine ⟨handOut_eq_map _, fun n ↦ ⟨hkeys.mpr ⟨n, rfl⟩, ?_⟩,
    fun m n ↦ keyAfter_before_iff, fun other ↦ ⟨fun hother ↦ ?_, ?_⟩⟩
  · have hearlier : {other : Key | other.IsAlphabetic ∧ other.Before (keyAfter n)} =
        keyAfter '' Finset.range n := by
      ext other
      constructor
      · rintro ⟨hother, hbefore⟩
        obtain ⟨m, rfl⟩ := hkeys.mp hother
        exact ⟨m, Finset.mem_coe.mpr (Finset.mem_range.mpr (keyAfter_before_iff.mp hbefore)),
          rfl⟩
      · rintro ⟨m, hm, rfl⟩
        exact ⟨hkeys.mpr ⟨m, rfl⟩,
          keyAfter_before_iff.mpr (Finset.mem_range.mp (Finset.mem_coe.mp hm))⟩
    rw [hearlier, hinj.encard_image, Set.encard_coe_eq_coe_finsetCard, Finset.card_range]
  · obtain ⟨n, rfl⟩ := hkeys.mp hother
    exact ⟨n, rfl, fun m hm ↦ hinj hm⟩
  · rintro ⟨n, hn, -⟩
    exact hkeys.mpr ⟨n, hn⟩

end KeyCounter

end Montage.Registry
