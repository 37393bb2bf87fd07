import Montage.Proofs.Manifest.ReadBack

/-!
# Lines of a manifest

The lines of a manifest that count are what is left of its pieces between line feeds
(`keptLines_eq`). So a line may be taken out of a text: what stands before it and behind it has the
same lines as in the whole (`keptLines_enclosed`). Whether a line counts depends on its first
character that is not blank (`counts_trim_congr`), so it counts or not whatever is put behind this
character, and a line that counts has words (`words_ne_nil_of_counts`).
-/

set_option autoImplicit false
set_option relaxedAutoImplicit false

namespace Montage.Manifest

variable {front line back text other : List Char} {c : Char}

/-- The lines of a text that count, without blanks at their ends. -/
def keptLines (text : List Char) : List (List Char) :=
  ((Text.lines text).map Text.trim).filter counts

theorem significantLines_eq (text : String) : significantLines text = keptLines text.toList := rfl

/-- The text in the middle is a whole line. The one before it is empty or ends with a line feed, and
the one behind it is empty or begins with a line feed. -/
structure Encloses (front line back : List Char) : Prop where
  front : front = [] ∨ front.getLast? = some '\n'
  line : '\n' ∉ line
  back : back = [] ∨ back.head? = some '\n'

instance (front line back : List Char) : Decidable (Encloses front line back) :=
  decidable_of_iff ((front = [] ∨ front.getLast? = some '\n') ∧ '\n' ∉ line ∧
      (back = [] ∨ back.head? = some '\n'))
    ⟨fun ⟨hfront, hline, hback⟩ ↦ ⟨hfront, hline, hback⟩, fun h ↦ ⟨h.front, h.line, h.back⟩⟩

theorem Encloses.of_notMem (h : Encloses front line back) {line' : List Char}
    (hline' : '\n' ∉ line') : Encloses front line' back :=
  ⟨h.front, hline', h.back⟩

/-! ### Lines that count -/

/-- The piece behind the last line feed need not be taken for a line if it is empty. -/
theorem keptLines_eq (text : List Char) :
    keptLines text = ((Text.cut (· == '\n') text).map Text.trim).filter counts := by
  obtain ⟨pieces, last, hpieces⟩ :=
    (List.eq_nil_or_concat' _).resolve_left (Text.cut_ne_nil (· == '\n') text)
  have hlines : Text.lines text =
      pieces.map Text.dropReturn ++ if last = [] then [] else [last] := by
    rw [Text.lines, hpieces, List.dropLast_concat, List.getLast?_concat]
    cases last with
    | nil => exact (List.append_nil _).symm
    | cons c last => rfl
  have hended : (pieces.map Text.dropReturn).map Text.trim = pieces.map Text.trim := by
    rw [List.map_map]
    exact List.map_congr_left fun piece _ ↦ Text.trim_dropReturn piece
  rw [keptLines, hlines, hpieces, List.map_append, List.map_append, hended, List.filter_append,
    List.filter_append]
  split_ifs with hlast
  · rw [hlast]
    rfl
  · rfl

theorem keptLines_append_cons (front rest : List Char) :
    keptLines (front ++ '\n' :: rest) = keptLines front ++ keptLines rest := by
  have hcut : Text.cut (· == '\n') (front ++ '\n' :: rest) =
      Text.cut (· == '\n') front ++ Text.cut (· == '\n') rest :=
    Text.cut_append_cons front rest (beq_self_eq_true '\n')
  rw [keptLines_eq, hcut, List.map_append, List.filter_append, ← keptLines_eq, ← keptLines_eq]

theorem keptLines_nil : keptLines [] = [] := rfl

/-- Nothing that counts is in the lines before a text that begins a line. -/
theorem keptLines_append_of_front (hfront : front = [] ∨ front.getLast? = some '\n')
    (rest : List Char) : keptLines (front ++ rest) = keptLines front ++ keptLines rest := by
  rcases hfront with rfl | hlast
  · rfl
  · have hfeed := List.dropLast_append_getLast? _ hlast
    rw [← hfeed, List.append_assoc, List.singleton_append, keptLines_append_cons,
      keptLines_append_cons, keptLines_nil, List.append_nil]

theorem keptLines_append_of_back (hback : back = [] ∨ back.head? = some '\n')
    (text : List Char) : keptLines (text ++ back) = keptLines text ++ keptLines back := by
  rcases hback with rfl | hhead
  · rw [List.append_nil, keptLines_nil, List.append_nil]
  · obtain ⟨rest, rfl⟩ := List.head?_eq_some_iff.mp hhead
    have hnone : keptLines ('\n' :: rest) = keptLines rest := keptLines_append_cons [] rest
    rw [keptLines_append_cons, hnone]

/-- A line that counts stands between the lines before it and the lines behind it. -/
theorem keptLines_enclosed (h : Encloses front line back) (hcounts : counts (Text.trim line)) :
    keptLines (front ++ (line ++ back)) =
      keptLines front ++ Text.trim line :: keptLines back := by
  rw [keptLines_append_of_front h.front, keptLines_append_of_back h.back, keptLines_eq line,
    Text.cut_of_notMem h.line, List.map_singleton, List.filter_cons_of_pos hcounts]
  rfl

theorem counts_of_mem_keptLines (h : line ∈ keptLines text) : counts line :=
  (List.mem_filter.mp h).2

theorem exists_trim_of_mem_keptLines (h : line ∈ keptLines text) :
    ∃ raw, Text.trim raw = line :=
  (List.mem_map.mp (List.mem_filter.mp h).1).imp fun _ ⟨_, hraw⟩ ↦ hraw

/-! ### The first character -/

/-- Whether a line counts depends on its first character that is not blank. -/
theorem counts_trim_congr (h : text.find? (!Text.isBlank ·) = other.find? (!Text.isBlank ·)) :
    counts (Text.trim text) = counts (Text.trim other) := by
  have hhead : (Text.trim text).head? = (Text.trim other).head? := by
    rw [Text.head?_trim, Text.head?_trim, h]
  have hnil : Text.trim text = [] ↔ Text.trim other = [] := by
    rw [← List.head?_eq_none_iff, hhead, List.head?_eq_none_iff]
  simp only [counts, ne_eq, hnil, hhead]

theorem isSome_find?_of_exists (h : ∃ c ∈ text, Text.isBlank c = false) :
    (text.find? (!Text.isBlank ·)).isSome := by
  obtain ⟨c, hc, hblank⟩ := h
  rw [List.find?_isSome]
  exact ⟨c, hc, by simp [hblank]⟩

theorem find?_append_of_exists (h : ∃ c ∈ text, Text.isBlank c = false) (rest : List Char) :
    (text ++ rest).find? (!Text.isBlank ·) = text.find? (!Text.isBlank ·) := by
  rw [List.find?_append, Option.or_of_isSome (isSome_find?_of_exists h)]

theorem find?_gap_append {gap : List Char} (h : IsGap gap) (rest : List Char) :
    (gap ++ rest).find? (!Text.isBlank ·) = rest.find? (!Text.isBlank ·) := by
  have hnone : gap.find? (!Text.isBlank ·) = none := by
    rw [List.find?_eq_none]
    intro c hc
    simp [h c hc]
  rw [List.find?_append, hnone, Option.none_or]

theorem exists_isBlank_of_not_isGap {gap : List Char} (h : ¬ IsGap gap) :
    ∃ c ∈ gap, Text.isBlank c = false := by
  by_contra hnone
  refine h fun c hc ↦ ?_
  by_contra hblank
  exact hnone ⟨c, hc, Bool.eq_false_iff.mpr hblank⟩

/-- A text that is not blank has words. -/
theorem words_ne_nil (h : ∃ c ∈ text, Text.isBlank c = false) : Text.words text ≠ [] := by
  obtain ⟨first, hfirst⟩ := Option.isSome_iff_exists.mp (isSome_find?_of_exists h)
  obtain ⟨hletter, gap, rest, rfl, hgap⟩ := List.find?_eq_some_iff_append.mp hfirst
  have hfalse : Text.isBlank first = false := by simpa using hletter
  have hblanks : IsGap gap := fun d hd ↦ by simpa using hgap d hd
  rw [Text.words_blanks_append hblanks, Text.words]
  have hcut : ∃ piece pieces,
      Text.cut Text.isBlank (first :: rest) = (first :: piece) :: pieces := by
    rw [Text.cut, if_neg (by simp [hfalse])]
    cases Text.cut Text.isBlank rest with
    | nil => exact ⟨[], [], rfl⟩
    | cons piece pieces => exact ⟨piece, pieces, rfl⟩
  obtain ⟨piece, pieces, hpieces⟩ := hcut
  rw [hpieces, List.filter_cons_of_pos (by simp)]
  exact List.cons_ne_nil _ _

theorem words_ne_nil_of_counts (h : line ∈ keptLines text) : Text.words line ≠ [] := by
  obtain ⟨raw, hraw⟩ := exists_trim_of_mem_keptLines h
  have hne : line ≠ [] := (of_decide_eq_true (counts_of_mem_keptLines h)).1
  rw [← hraw, Text.words_trim]
  refine words_ne_nil (exists_isBlank_of_not_isGap fun hgap ↦ hne ?_)
  rw [← hraw, trim_of_isGap hgap]

end Montage.Manifest
