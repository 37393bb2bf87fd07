import Mathlib.Data.List.Basic
import Mathlib.Data.List.TakeWhile
import Montage.Text.Pieces

/-!
# Taking texts to pieces

A text that is cut at separators has the pieces of its parts (`cut_append_cons`). Characters that
are no separators, at one of the ends of a text, belong to its first or its last piece
(`cut_append_left`, `cut_append_right`). The lines of a text follow, since they are cut at line
feeds (`lines_append_cons`), and so do its words, which are cut at blanks (`words_append_cons`).

Blanks at the ends of a text do not count: trimming takes them off (`trim_blanks_append`,
`trim_append_blanks`), and trimming changes no words (`words_trim`). What is left begins with the
first character that is not blank (`head?_trim`).
-/

set_option autoImplicit false
set_option relaxedAutoImplicit false

namespace Montage.Text

variable {isSeparator : Char → Bool} {text rest line word blanks : List Char} {c : Char}

/-! ### Cutting at a separator -/

theorem cut_ne_nil (isSeparator : Char → Bool) (text : List Char) :
    cut isSeparator text ≠ [] := by
  cases text with
  | nil => exact List.cons_ne_nil _ _
  | cons c rest =>
    rw [cut]
    split
    · exact List.cons_ne_nil _ _
    · split <;> exact List.cons_ne_nil _ _

/-- What stands before a separator is cut by itself, and so is what stands behind it. -/
theorem cut_append_cons (before behind : List Char) (h : isSeparator c) :
    cut isSeparator (before ++ c :: behind) =
      cut isSeparator before ++ cut isSeparator behind := by
  induction before with
  | nil => simp [cut, h]
  | cons d before ih =>
    rw [List.cons_append, cut, ih, cut]
    cases hpieces : cut isSeparator before with
    | nil => exact absurd hpieces (cut_ne_nil _ before)
    | cons piece pieces => split <;> rfl

/-- A text without separators is one piece. -/
theorem cut_eq_singleton (h : ∀ c ∈ text, isSeparator c = false) :
    cut isSeparator text = [text] := by
  induction text with
  | nil => rfl
  | cons c text ih =>
    obtain ⟨hc, htext⟩ := List.forall_mem_cons.mp h
    rw [cut, ih htext, hc]
    rfl

/-- No piece holds a separator. -/
theorem isSeparator_of_mem_cut {piece : List Char} (hpiece : piece ∈ cut isSeparator text)
    (hc : c ∈ piece) : isSeparator c = false := by
  induction text generalizing piece with
  | nil =>
    rw [List.mem_singleton.mp hpiece] at hc
    cases hc
  | cons d text ih =>
    rw [cut] at hpiece
    split at hpiece
    next hd =>
      rcases List.mem_cons.mp hpiece with rfl | hpiece
      · cases hc
      · exact ih hpiece hc
    next hd =>
      cases hpieces : cut isSeparator text with
      | nil => exact absurd hpieces (cut_ne_nil _ text)
      | cons first pieces =>
        rw [hpieces] at hpiece ih
        rcases List.mem_cons.mp hpiece with rfl | hpiece
        · rcases List.mem_cons.mp hc with rfl | hc
          · exact Bool.eq_false_iff.mpr hd
          · exact ih List.mem_cons_self hc
        · exact ih (List.mem_cons_of_mem _ hpiece) hc

/-- The pieces with a separator in front of each are the text with a separator in front. -/
theorem flatMap_cut (separator : Char) (text : List Char) :
    (cut (· == separator) text).flatMap (separator :: ·) = separator :: text := by
  induction text with
  | nil => rfl
  | cons c text ih =>
    rw [cut]
    split_ifs with hc
    · rw [List.flatMap_cons, ih, eq_of_beq hc]
      rfl
    · cases hpieces : cut (· == separator) text with
      | nil => exact absurd hpieces (cut_ne_nil _ text)
      | cons piece pieces =>
        rw [hpieces, List.flatMap_cons, List.cons_append, List.cons.injEq] at ih
        rw [List.flatMap_cons, ← ih.2]
        rfl

/-- What stands in front of a text without a separator belongs to the first piece. -/
theorem cut_append_left (h : ∀ c ∈ text, isSeparator c = false) (rest : List Char) :
    ∃ first pieces, cut isSeparator rest = first :: pieces ∧
      cut isSeparator (text ++ rest) = (text ++ first) :: pieces := by
  obtain ⟨first, pieces, hrest⟩ := List.exists_cons_of_ne_nil (cut_ne_nil isSeparator rest)
  refine ⟨first, pieces, hrest, ?_⟩
  induction text with
  | nil => exact hrest
  | cons c text ih =>
    obtain ⟨hc, htext⟩ := List.forall_mem_cons.mp h
    rw [List.cons_append, cut, ih htext, hc]
    rfl

/-- What stands behind a text without a separator belongs to the last piece. -/
theorem cut_append_right (h : ∀ c ∈ text, isSeparator c = false) (rest : List Char) :
    ∃ pieces last, cut isSeparator rest = pieces ++ [last] ∧
      cut isSeparator (rest ++ text) = pieces ++ [last ++ text] := by
  induction rest with
  | nil => exact ⟨[], [], rfl, cut_eq_singleton h⟩
  | cons c rest ih =>
    obtain ⟨pieces, last, hrest, happend⟩ := ih
    by_cases hc : isSeparator c
    · refine ⟨[] :: pieces, last, ?_, ?_⟩
      · rw [cut, if_pos hc, hrest, List.cons_append]
      · rw [List.cons_append, cut, if_pos hc, happend, List.cons_append]
    · rw [List.cons_append, cut, cut, if_neg hc, if_neg hc, hrest, happend]
      cases pieces with
      | nil => exact ⟨[], c :: last, rfl, rfl⟩
      | cons piece pieces => exact ⟨(c :: piece) :: pieces, last, rfl, rfl⟩

theorem beq_eq_false_of_notMem {separator : Char} (h : separator ∉ text) :
    ∀ c ∈ text, (c == separator) = false := by
  intro c hc
  rw [beq_eq_false_iff_ne]
  rintro rfl
  exact h hc

/-- A text that does not have the separator is one piece. -/
theorem cut_of_notMem {separator : Char} (h : separator ∉ text) :
    cut (· == separator) text = [text] :=
  cut_eq_singleton (beq_eq_false_of_notMem h)

/-- The first piece ends at the first separator. -/
theorem cut_first {separator : Char} {before : List Char} (h : separator ∉ before)
    (behind : List Char) :
    cut (· == separator) (before ++ separator :: behind) =
      before :: cut (· == separator) behind := by
  have hcut : cut (· == separator) (before ++ separator :: behind) =
      cut (· == separator) before ++ cut (· == separator) behind :=
    cut_append_cons before behind (beq_self_eq_true separator)
  rw [hcut, cut_of_notMem h, List.singleton_append]

/-- A text is cut once at the first separator. -/
theorem cutOnce?_append_cons {separator : Char} {before : List Char} (h : separator ∉ before)
    (behind : List Char) :
    cutOnce? separator (before ++ separator :: behind) = some (before, behind) := by
  have hbefore : ∀ c ∈ before, (c != separator) = true := by
    intro c hc
    rw [bne, beq_eq_false_of_notMem h c hc]
    rfl
  have hdrop : (separator :: behind).dropWhile (· != separator) = separator :: behind :=
    List.dropWhile_cons_of_neg (by simp)
  have htake : (separator :: behind).takeWhile (· != separator) = [] :=
    List.takeWhile_cons_of_neg (by simp)
  rw [cutOnce?, List.dropWhile_append_of_pos hbefore, hdrop,
    List.takeWhile_append_of_pos hbefore, htake, List.append_nil]

/-! ### Lines -/

/-- A line ends at the first line feed. -/
theorem lines_append_cons (h : '\n' ∉ line) (rest : List Char) :
    lines (line ++ '\n' :: rest) = dropReturn line :: lines rest := by
  obtain ⟨pieces, last, hrest⟩ :=
    (List.eq_nil_or_concat' _).resolve_left (cut_ne_nil (· == '\n') rest)
  have hwhole : line :: (pieces ++ [last]) = (line :: pieces) ++ [last] := rfl
  rw [lines, lines, cut_first h, hrest, hwhole, List.dropLast_concat, List.dropLast_concat,
    List.getLast?_concat, List.getLast?_concat, List.map_cons]
  cases last <;> rfl

/-- A text without a line feed is a line, unless it is empty. -/
theorem lines_of_notMem (h : '\n' ∉ line) : lines line = if line = [] then [] else [line] := by
  rw [lines, cut_of_notMem h]
  cases line <;> rfl

/-! ### Blanks -/

/-- A character between two blanks of the table is not blank. -/
theorem isBlank_eq_false (hlow : 0x20 < c.toNat) (hhigh : c.toNat < 0x85) : isBlank c = false := by
  rw [isBlank, List.any_eq_false]
  intro range hrange
  have hdistinct : range.2 ≤ 0x20 ∨ 0x85 ≤ range.1 := by
    revert range
    decide
  rw [Bool.and_eq_true, decide_eq_true_eq, decide_eq_true_eq]
  omega

theorem not_isBlank_of_isDigit (h : c.isDigit) : isBlank c = false := by
  obtain ⟨hlow, hhigh⟩ := Char.isDigit_iff_toNat.mp h
  have hzero : '0'.toNat = 48 := rfl
  have hnine : '9'.toNat = 57 := rfl
  exact isBlank_eq_false (by omega) (by omega)

/-! ### Blanks at the ends -/

theorem trimStart_blanks_append (h : ∀ c ∈ blanks, isBlank c) (text : List Char) :
    trimStart (blanks ++ text) = trimStart text :=
  List.dropWhile_append_of_pos h

theorem trimEnd_append_blanks (h : ∀ c ∈ blanks, isBlank c) (text : List Char) :
    trimEnd (text ++ blanks) = trimEnd text := by
  have hreverse : ∀ c ∈ blanks.reverse, isBlank c := fun c hc ↦ h c (List.mem_reverse.mp hc)
  rw [trimEnd, List.reverse_append, List.dropWhile_append_of_pos hreverse, trimEnd]

theorem trim_blanks_append (h : ∀ c ∈ blanks, isBlank c) (text : List Char) :
    trim (blanks ++ text) = trim text := by
  rw [trim, trimStart_blanks_append h, trim]

theorem trim_append_blanks (h : ∀ c ∈ blanks, isBlank c) (text : List Char) :
    trim (text ++ blanks) = trim text := by
  rw [trim, trimStart, List.dropWhile_append, trim, trimStart]
  split_ifs with hempty
  · rw [List.isEmpty_iff.mp hempty, List.dropWhile_eq_nil_iff.mpr h]
  · exact trimEnd_append_blanks h _

/-- A carriage return at the end of a text is trimmed. -/
theorem trim_dropReturn (text : List Char) : trim (dropReturn text) = trim text := by
  unfold dropReturn
  split_ifs with h
  · have hreturn : ∀ c ∈ ['\r'], isBlank c := List.forall_mem_singleton.mpr rfl
    rw [← trim_append_blanks hreturn, List.dropLast_append_getLast? _ h]
  · rfl

/-- Trimming takes blanks off both ends. -/
theorem exists_eq_append_trim (text : List Char) :
    ∃ front back, (∀ c ∈ front, isBlank c) ∧ (∀ c ∈ back, isBlank c) ∧
      text = front ++ (trim text ++ back) := by
  refine ⟨text.takeWhile isBlank, ((trimStart text).reverse.takeWhile isBlank).reverse,
    fun c hc ↦ List.mem_takeWhile_imp hc,
    fun c hc ↦ List.mem_takeWhile_imp (List.mem_reverse.mp hc), ?_⟩
  rw [trim, trimEnd, ← List.reverse_append, List.takeWhile_append_dropWhile, List.reverse_reverse,
    trimStart, List.takeWhile_append_dropWhile]

/-- Trimming does not change what blanks at the ends do not change. -/
theorem apply_trim {α : Type} {f : List Char → α}
    (hfront : ∀ blanks, (∀ c ∈ blanks, isBlank c) → ∀ text, f (blanks ++ text) = f text)
    (hback : ∀ blanks, (∀ c ∈ blanks, isBlank c) → ∀ text, f (text ++ blanks) = f text)
    (text : List Char) : f (trim text) = f text := by
  obtain ⟨front, back, hblank, hblank', htext⟩ := exists_eq_append_trim text
  calc
    f (trim text) = f (trim text ++ back) := (hback back hblank' _).symm
    _ = f (front ++ (trim text ++ back)) := (hfront front hblank _).symm
    _ = f text := by rw [← htext]

/-- A text without blanks is not trimmed. -/
theorem trim_eq_self (h : ∀ c ∈ text, isBlank c = false) : trim text = text := by
  have hstart {other : List Char} (hother : ∀ c ∈ other, isBlank c = false) :
      other.dropWhile isBlank = other := by
    rw [List.dropWhile_eq_self_iff]
    intro hpositive
    rw [hother _ (List.getElem_mem hpositive)]
    exact Bool.false_ne_true
  have hend : ∀ c ∈ text.reverse, isBlank c = false := by
    intro c hc
    exact h c (List.mem_reverse.mp hc)
  rw [trim, trimStart, trimEnd, hstart h, hstart hend, List.reverse_reverse]

theorem trimEnd_cons (hc : isBlank c = false) (text : List Char) :
    trimEnd (c :: text) = c :: trimEnd text := by
  have hkept : [c].dropWhile isBlank = [c] := List.dropWhile_cons_of_neg (by simp [hc])
  rw [trimEnd, List.reverse_cons, List.dropWhile_append, trimEnd, hkept]
  split_ifs with hempty
  · rw [List.isEmpty_iff.mp hempty]
    rfl
  · rw [List.reverse_append]
    rfl

/-- A trimmed text begins with the first character that is not blank. -/
theorem head?_trim (text : List Char) : (trim text).head? = text.find? (!isBlank ·) := by
  rw [List.find?_not_eq_head?_dropWhile, trim, trimStart]
  cases hstart : text.dropWhile isBlank with
  | nil => rfl
  | cons c rest =>
    have hc : isBlank c = false := by
      have hfirst := List.head?_dropWhile_not isBlank text
      rw [hstart] at hfirst
      simpa using hfirst
    rw [trimEnd_cons hc]
    rfl

/-! ### Words -/

/-- What stands before a blank has its own words, and so has what stands behind it. -/
theorem words_append_cons (before behind : List Char) (h : isBlank c) :
    words (before ++ c :: behind) = words before ++ words behind := by
  rw [words, cut_append_cons _ _ h, List.filter_append, words, words]

theorem words_blanks_append (h : ∀ c ∈ blanks, isBlank c) (text : List Char) :
    words (blanks ++ text) = words text := by
  induction blanks with
  | nil => rfl
  | cons c blanks ih =>
    obtain ⟨hc, hblanks⟩ := List.forall_mem_cons.mp h
    exact (words_append_cons [] (blanks ++ text) hc).trans (ih hblanks)

theorem words_append_blanks (h : ∀ c ∈ blanks, isBlank c) (text : List Char) :
    words (text ++ blanks) = words text := by
  cases blanks with
  | nil => rw [List.append_nil]
  | cons c blanks =>
    obtain ⟨hc, hblanks⟩ := List.forall_mem_cons.mp h
    have hnone := words_blanks_append hblanks []
    rw [List.append_nil] at hnone
    rw [words_append_cons _ _ hc, hnone]
    exact List.append_nil _

/-- A word is its only word. -/
theorem words_eq_singleton (hne : word ≠ []) (h : ∀ c ∈ word, isBlank c = false) :
    words word = [word] := by
  rw [words, cut_eq_singleton h]
  exact List.filter_cons_of_pos (decide_eq_true hne)

/-- Trimming changes no words. -/
theorem words_trim (text : List Char) : words (trim text) = words text :=
  apply_trim (fun _ ↦ words_blanks_append) (fun _ ↦ words_append_blanks) text

end Montage.Text
