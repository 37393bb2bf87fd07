import Mathlib.Data.List.TakeWhile
import Montage.Proofs.Numeric.ShortestDecimal
import Montage.Proofs.Text.Letters

/-!
# Notation that reads back

The text of a decimal consists of digits, with a point between two of them if there is a fraction
(`Decimal.exists_toChars_eq`). What is left out are zeros, so the text stands for the same rank as
the decimal. Therefore every number is read back from its text (`Binary64.ofChars?_toChars`), and
different numbers have different texts (`Binary64.toText_injective`). No text holds a character that
separates numbers from each other (`Binary64.isNumeral_of_mem_toChars`).
-/

set_option autoImplicit false
set_option relaxedAutoImplicit false

namespace Montage.Numeric

/-! ### The text of a decimal -/

namespace Decimal

/-- Zeros at the end of a list may be split off. -/
theorem exists_eq_append_zeros (digits : List Char) :
    ∃ zeros,
      digits = (digits.reverse.dropWhile (· == '0')).reverse ++ List.replicate zeros '0' := by
  obtain ⟨zeros, hzeros⟩ : ∃ zeros,
      digits.reverse.takeWhile (· == '0') = List.replicate zeros '0' := by
    refine ⟨_, List.eq_replicate_iff.mpr ⟨rfl, fun c hc ↦ ?_⟩⟩
    have hzero := List.mem_takeWhile_imp hc
    exact eq_of_beq hzero
  refine ⟨zeros, ?_⟩
  have hsplit := congrArg List.reverse
    (List.takeWhile_append_dropWhile (p := (· == '0')) (l := digits.reverse))
  rw [hzeros, List.reverse_append, List.reverse_replicate, List.reverse_reverse] at hsplit
  exact hsplit.symm

theorem digitsValue_append_zeros (digits : List Char) (zeros : Nat) :
    digitsValue (digits ++ List.replicate zeros '0') = digitsValue digits * 10 ^ zeros := by
  rw [digitsValue_append, digitsValue_replicate_zero, List.length_replicate, Nat.add_zero]

theorem isDigit_of_mem_zeros {zeros : Nat} {c : Char} (h : c ∈ List.replicate zeros '0') :
    c.isDigit := by
  rw [List.eq_of_mem_replicate h]
  rfl

/-- A point splits the digits of a number, after zeros if they are too few. -/
theorem exists_withPoint_eq (digits places : Nat) :
    ∃ whole fraction, withPoint (digitsOf digits) places = (whole, fraction) ∧ whole ≠ [] ∧
      fraction.length = places ∧ (∀ c ∈ whole ++ fraction, c.isDigit) ∧
      digitsValue (whole ++ fraction) = digits := by
  obtain ⟨padded, hpadded⟩ : ∃ padded,
      List.replicate (places + 1 - (digitsOf digits).length) '0' ++ digitsOf digits = padded :=
    ⟨_, rfl⟩
  have hlength : places < padded.length := by
    rw [← hpadded, List.length_append, List.length_replicate]
    omega
  refine ⟨padded.take (padded.length - places), padded.drop (padded.length - places),
    ?_, ?_, ?_, ?_, ?_⟩
  · rw [withPoint, hpadded]
    exact List.splitAt_eq
  · refine List.ne_nil_of_length_pos ?_
    rw [List.length_take]
    omega
  · rw [List.length_drop]
    omega
  · rw [List.take_append_drop, ← hpadded, List.forall_mem_append]
    exact ⟨fun c hc ↦ isDigit_of_mem_zeros hc, fun c hc ↦ isDigit_of_mem_digitsOf hc⟩
  · rw [List.take_append_drop, ← hpadded, digitsValue_append, digitsValue_replicate_zero,
      Nat.zero_mul, Nat.zero_add, digitsValue_digitsOf]

/-- The text of a decimal is digits and a fraction, and stands for the same rank as the decimal. -/
theorem exists_toChars_eq (d : Decimal) :
    ∃ whole fraction, whole ≠ [] ∧ (∀ c ∈ whole ++ fraction, c.isDigit) ∧
      d.toChars = (if fraction = [] then whole else whole ++ '.' :: fraction) ∧
      nearestRank ⟨digitsValue (whole ++ fraction), -fraction.length⟩ = d.nearestRank := by
  obtain ⟨digits, exponent⟩ := d
  rw [toChars]
  dsimp only
  split_ifs with hexponent
  · refine ⟨digitsOf digits ++ List.replicate exponent.toNat '0', [], ?_, ?_, rfl, ?_⟩
    · exact List.append_ne_nil_of_left_ne_nil (digitsOf_ne_nil digits) _
    · rw [List.append_nil, List.forall_mem_append]
      exact ⟨fun c hc ↦ isDigit_of_mem_digitsOf hc, fun c hc ↦ isDigit_of_mem_zeros hc⟩
    · rw [List.append_nil, digitsValue_append_zeros, digitsValue_digitsOf, nearestRank_mul_pow]
      congr 2
      simp only [List.length_nil]
      omega
  · obtain ⟨whole, fraction, hpoint, hwhole, hlength, hdigits, hvalue⟩ :=
      exists_withPoint_eq digits (-exponent).toNat
    rw [hpoint]
    dsimp only
    obtain ⟨zeros, hzeros⟩ := exists_eq_append_zeros fraction
    -- The zeros at the end of the fraction are left out, which makes the exponent greater.
    generalize (fraction.reverse.dropWhile (· == '0')).reverse = kept at hzeros ⊢
    rw [hzeros, List.length_append, List.length_replicate] at hlength
    rw [hzeros, ← List.append_assoc] at hdigits hvalue
    refine ⟨whole, kept, hwhole, fun c hc ↦ hdigits c (List.mem_append_left _ hc), ?_, ?_⟩
    · cases kept with
      | nil => rfl
      | cons c kept => rfl
    · rw [← hvalue, digitsValue_append_zeros, nearestRank_mul_pow]
      congr 2
      omega

theorem exists_toChars_eq_cons (d : Decimal) :
    ∃ first rest, d.toChars = first :: rest ∧ first.isDigit := by
  obtain ⟨whole, fraction, hwhole, hdigits, htext, -⟩ := d.exists_toChars_eq
  obtain ⟨first, others, rfl⟩ := List.exists_cons_of_ne_nil hwhole
  have hfirst := hdigits first (List.mem_append_left _ List.mem_cons_self)
  rw [htext]
  split_ifs
  · exact ⟨first, others, rfl, hfirst⟩
  · exact ⟨first, others ++ '.' :: fraction, rfl, hfirst⟩

theorem isDigit_or_of_mem_toChars {d : Decimal} {c : Char} (h : c ∈ d.toChars) :
    c.isDigit ∨ c = '.' := by
  obtain ⟨whole, fraction, -, hdigits, htext, -⟩ := d.exists_toChars_eq
  rw [htext] at h
  split_ifs at h
  · exact Or.inl (hdigits c (List.mem_append_left _ h))
  · rcases List.mem_append.mp h with h | h
    · exact Or.inl (hdigits c (List.mem_append_left _ h))
    · rcases List.mem_cons.mp h with rfl | h
      · exact Or.inr rfl
      · exact Or.inl (hdigits c (List.mem_append_right _ h))

end Decimal

/-! ### Reading -/

theorem readDecimal?_whole {whole : List Char} (hwhole : whole ≠ [])
    (hdigits : ∀ c ∈ whole, c.isDigit) : readDecimal? whole = some ⟨digitsValue whole, 0⟩ := by
  have htake : whole.takeWhile Char.isDigit = whole := List.takeWhile_eq_self_iff.mpr hdigits
  have hdrop : whole.dropWhile Char.isDigit = [] := List.dropWhile_eq_nil_iff.mpr hdigits
  simp [readDecimal?, htake, hdrop, hwhole, readExponent?]

theorem readDecimal?_point {whole fraction : List Char} (hwhole : whole ≠ [])
    (hdigits : ∀ c ∈ whole ++ fraction, c.isDigit) :
    readDecimal? (whole ++ '.' :: fraction) =
      some ⟨digitsValue (whole ++ fraction), -fraction.length⟩ := by
  obtain ⟨hdigitsWhole, hdigitsFraction⟩ := List.forall_mem_append.mp hdigits
  have hpoint : ¬ ('.').isDigit := by decide
  have htake : (whole ++ '.' :: fraction).takeWhile Char.isDigit = whole := by
    rw [List.takeWhile_append_of_pos hdigitsWhole, List.takeWhile_cons_of_neg hpoint,
      List.append_nil]
  have hdrop : (whole ++ '.' :: fraction).dropWhile Char.isDigit = '.' :: fraction := by
    rw [List.dropWhile_append_of_pos hdigitsWhole, List.dropWhile_cons_of_neg hpoint]
  have htake' : fraction.takeWhile Char.isDigit = fraction :=
    List.takeWhile_eq_self_iff.mpr hdigitsFraction
  have hdrop' : fraction.dropWhile Char.isDigit = [] :=
    List.dropWhile_eq_nil_iff.mpr hdigitsFraction
  simp [readDecimal?, htake, hdrop, htake', hdrop', hwhole, readExponent?]

/-- A text that starts with a digit is read as a decimal. -/
theorem readUnsigned?_of_isDigit {first : Char} (hfirst : first.isDigit) (rest : List Char)
    (negative : Bool) :
    readUnsigned? negative (first :: rest) =
      (readDecimal? (first :: rest)).map fun d ↦ .ofRank negative d.nearestRank := by
  have hlower : first.toLower = first :=
    Text.toLower_eq_self (Text.not_isUpper_of_isDigit hfirst)
  have hletter (word : String) {letter : Char} {letters : List Char}
      (hword : word.toList = letter :: letters) (hletter : ¬ letter.isDigit) :
      String.ofList ((first :: rest).map Char.toLower) ≠ word := by
    intro h
    have hchars := congrArg String.toList h
    rw [String.toList_ofList, hword, List.map_cons, hlower] at hchars
    exact hletter ((List.cons.inj hchars).1 ▸ hfirst)
  unfold readUnsigned?
  dsimp only
  rw [if_neg, if_neg]
  · exact hletter "nan" rfl (by decide)
  · rintro (h | h)
    · exact hletter "inf" rfl (by decide) h
    · exact hletter "infinity" rfl (by decide) h

/-- The text of a decimal is read as the rank that the decimal stands for. -/
theorem readUnsigned?_toChars (d : Decimal) (negative : Bool) :
    readUnsigned? negative d.toChars = some (.ofRank negative d.nearestRank) := by
  obtain ⟨whole, fraction, hwhole, hdigits, htext, hrank⟩ := d.exists_toChars_eq
  obtain ⟨first, rest, hcons, hfirst⟩ := d.exists_toChars_eq_cons
  rw [hcons, readUnsigned?_of_isDigit hfirst, ← hcons, htext]
  split_ifs with hfraction
  · rw [hfraction, List.append_nil] at hdigits hrank
    rw [readDecimal?_whole hwhole hdigits, Option.map_some, ← hrank]
    rfl
  · rw [readDecimal?_point hwhole hdigits, Option.map_some, ← hrank]

namespace Binary64

/-- The text of the absolute value of a rank. -/
def absoluteChars (rank : Nat) : List Char :=
  if rank = infinityRank then ['i', 'n', 'f']
  else if rank = 0 then ['0'] else (Decimal.ofRank rank).toChars

theorem toChars_number (negative : Bool) (rank : Fin (infinityRank + 1)) :
    (number negative rank).toChars =
      (if negative then ['-'] else []) ++ absoluteChars rank := rfl

theorem ofRank_val (negative : Bool) (rank : Fin (infinityRank + 1)) :
    ofRank negative rank.val = number negative rank := by
  simp only [ofRank, Nat.min_eq_left (Nat.le_of_lt_succ rank.isLt)]

/-- An absolute value is read back from its text. -/
theorem readUnsigned?_absoluteChars {rank : Nat} (h : rank ≤ infinityRank) (negative : Bool) :
    readUnsigned? negative (absoluteChars rank) = some (.ofRank negative rank) := by
  unfold absoluteChars
  split_ifs with hinfinite hzero
  · rw [hinfinite]
    rfl
  · rw [hzero]
    rfl
  · rw [readUnsigned?_toChars, Decimal.nearestRank_ofRank (Nat.pos_of_ne_zero hzero)
      (Nat.lt_of_le_of_ne h hinfinite)]

/-- The text of an absolute value has no sign. -/
theorem ofChars?_absoluteChars (rank : Nat) :
    ofChars? (absoluteChars rank) = readUnsigned? false (absoluteChars rank) := by
  unfold absoluteChars
  split_ifs
  · rfl
  · rfl
  · obtain ⟨first, rest, hcons, hfirst⟩ := (Decimal.ofRank rank).exists_toChars_eq_cons
    rw [hcons]
    unfold ofChars?
    split
    · next heq =>
      rw [(List.cons.inj heq).1] at hfirst
      cases hfirst
    · next heq =>
      rw [(List.cons.inj heq).1] at hfirst
      cases hfirst
    · rfl

/-- Every number is read back from its text. -/
theorem ofChars?_toChars (x : Binary64) : ofChars? x.toChars = some x := by
  cases x with
  | nan => decide +kernel
  | number negative rank =>
    have hread := readUnsigned?_absoluteChars (Nat.le_of_lt_succ rank.isLt) negative
    rw [ofRank_val] at hread
    rw [toChars_number, ← hread]
    cases negative with
    | true => rfl
    | false => exact ofChars?_absoluteChars rank

theorem toChars_injective : Function.Injective toChars := by
  intro x y h
  have hread := congrArg ofChars? h
  rw [ofChars?_toChars, ofChars?_toChars] at hread
  exact Option.some.inj hread

/-- Different numbers have different texts. -/
theorem toText_injective : Function.Injective toText := by
  intro x y h
  exact toChars_injective (String.ofList_inj.mp h)

/-- The characters of numbers. -/
def isNumeral (c : Char) : Bool := c.isDigit || c ∈ ['.', '-', 'i', 'n', 'f', 'N', 'a']

theorem isNumeral_of_mem_toChars {x : Binary64} {c : Char} (h : c ∈ x.toChars) : isNumeral c := by
  have hletters {letters : List Char} (hletters : letters.all isNumeral) (hc : c ∈ letters) :
      isNumeral c := List.all_eq_true.mp hletters c hc
  cases x with
  | nan => exact hletters (by decide) h
  | number negative rank =>
    rw [toChars_number] at h
    rcases List.mem_append.mp h with h | h
    · split_ifs at h
      · exact hletters (by decide) h
      · cases h
    · unfold absoluteChars at h
      split_ifs at h
      · exact hletters (by decide) h
      · exact hletters (by decide) h
      · rcases Decimal.isDigit_or_of_mem_toChars h with hdigit | rfl
        · rw [isNumeral, hdigit, Bool.true_or]
        · rfl

end Binary64

end Montage.Numeric
