import Montage.Proofs.Manifest.Written

/-!
# Manifests that read back

All manifests for a list of outputs say the same: what is read from one is the outputs for which it
was written, and nothing is left out (`Manifest.reads_back`). So no text is a manifest for two lists
of outputs (`Manifest.eq_of_written`).

The freedom that writing has is lost step by step. Lines are trimmed, so carriage returns and blanks
at their ends do not matter, and lines that do not count are passed over (`filter_counts_lines`).
What is left are pairs of lines, one for every output (`ofLines_counts`). A trimmed line has the
same words and the same items as the line itself (`Text.words_trim`, `items_trim`), and each of them
is the text of a filter or of a code, which reads back.
-/

set_option autoImplicit false
set_option relaxedAutoImplicit false

namespace Montage.Manifest

open Timing

variable {spec : OutputSpec} {specs : List OutputSpec} {line header codes gap : List Char}
  {texts : List String}

/-! ### Lines that count -/

/-- The line, without blanks at its ends, counts. -/
def counts (line : List Char) : Bool := line ≠ [] ∧ line.head? ≠ some '#'

theorem trim_of_isGap (h : IsGap gap) : Text.trim gap = [] := by
  rw [← List.append_nil gap, Text.trim_blanks_append h]
  rfl

theorem head?_trim_of_isGap (h : IsGap gap) {c : Char} (hc : Text.isBlank c = false)
    (rest : List Char) : (Text.trim (gap ++ c :: rest)).head? = some c := by
  rw [Text.trim_blanks_append h, Text.head?_trim]
  simp [hc]

theorem counts_of_isRemark (h : IsRemark line) : counts (Text.trim line) = false := by
  cases h with
  | blank _ hgap =>
    rw [trim_of_isGap hgap]
    rfl
  | comment gap hgap comment =>
    have hmark : Text.isBlank '#' = false := by decide
    rw [counts, head?_trim_of_isGap hgap hmark]
    simp

/-- A line that begins with a word counts, unless the word looks like a comment. -/
theorem counts_of_isWord (hgap : IsGap gap) {word : String} (hword : Text.IsWord word)
    (hhead : word.toList.head? ≠ some '#') (rest : List Char) :
    counts (Text.trim (gap ++ (word.toList ++ rest))) := by
  obtain ⟨c, others, hcons⟩ := List.exists_cons_of_ne_nil hword.ne_nil
  have hc := hword.isBlank c (hcons ▸ List.mem_cons_self)
  have hfirst := head?_trim_of_isGap hgap hc (others ++ rest)
  rw [hcons, List.head?_cons] at hhead
  rw [hcons, List.cons_append, counts, hfirst, decide_eq_true_eq]
  refine ⟨?_, hhead⟩
  intro hnil
  rw [hnil] at hfirst
  cases hfirst

/-- It does not matter how the lines end. -/
theorem filter_counts_lines {lines : List (List Char)} {text : List Char}
    (h : IsTextOf lines text) :
    ((Text.lines text).map Text.trim).filter counts = (lines.map Text.trim).filter counts := by
  induction h with
  | nil => rfl
  | @unended line hline =>
    rw [Text.lines_of_notMem hline]
    split_ifs with hempty
    · rw [hempty]
      rfl
    · rfl
  | feed hline _ ih =>
    rw [Text.lines_append_cons hline, List.map_cons, List.map_cons, Text.trim_dropReturn,
      List.filter_cons, List.filter_cons, ih]
  | @returnFeed line rest lines hline _ ih =>
    -- The carriage return belongs to the line that is cut off, and is blank.
    have hreturn : ∀ c ∈ ['\r'], Text.isBlank c := List.forall_mem_singleton.mpr rfl
    have hreturned : '\n' ∉ line ++ ['\r'] := by simpa using hline
    have htext : line ++ '\r' :: '\n' :: rest = (line ++ ['\r']) ++ '\n' :: rest := by simp
    rw [htext, Text.lines_append_cons hreturned, List.map_cons, List.map_cons,
      Text.trim_dropReturn, Text.trim_append_blanks hreturn, List.filter_cons, List.filter_cons,
      ih]

/-! ### Words and items -/

/-- The words of a line are those that were spaced on it. -/
theorem words_of_spaced {tail : List Char} (htail : Spaced texts tail)
    (htexts : ∀ text ∈ texts, Text.IsWord text) {first : String} (hfirst : Text.IsWord first) :
    (Text.words (first.toList ++ tail)).map String.ofList = first :: texts := by
  -- The first word varies: behind it, the next one takes its place.
  induction htail generalizing first with
  | nil gap hgap =>
    rw [Text.words_append_blanks hgap, Text.words_eq_singleton hfirst.ne_nil hfirst.isBlank,
      List.map_singleton, String.ofList_toList]
  | cons c gap hgap word _ ih =>
    obtain ⟨hword, hwords⟩ := List.forall_mem_cons.mp htexts
    obtain ⟨hc, hblanks⟩ := List.forall_mem_cons.mp hgap
    rw [List.cons_append, Text.words_append_cons _ _ hc, Text.words_blanks_append hblanks,
      Text.words_eq_singleton hfirst.ne_nil hfirst.isBlank, List.map_append, ih hwords hword,
      List.map_singleton, String.ofList_toList, List.singleton_append]

theorem words_of_isHeader (h : spec.Writable) (hheader : IsHeader spec header) :
    (Text.words (Text.trim header)).map String.ofList =
      spec.name :: spec.filters.map VisualFilter.toText := by
  cases hheader with
  | intro gap hgap htail =>
    rw [Text.words_trim, Text.words_blanks_append hgap]
    exact words_of_spaced htail
      (List.forall_mem_map.mpr fun filter _ ↦ filter.isWord_toText) h.isWord_name

theorem isBlank_comma {c : Char} (hc : Text.isBlank c) : (c == ',') = false := by
  rw [beq_eq_false_iff_ne]
  rintro rfl
  exact absurd hc (by decide)

theorem items_blanks_append (h : IsGap gap) (text : List Char) :
    items (gap ++ text) = items text := by
  obtain ⟨first, pieces, htext, happend⟩ :=
    Text.cut_append_left (fun c hc ↦ isBlank_comma (h c hc)) text
  rw [items, happend, List.map_cons, Text.trim_blanks_append h, ← List.map_cons, ← htext, items]

theorem items_append_blanks (h : IsGap gap) (text : List Char) :
    items (text ++ gap) = items text := by
  obtain ⟨pieces, last, htext, happend⟩ :=
    Text.cut_append_right (fun c hc ↦ isBlank_comma (h c hc)) text
  have htrim : (pieces ++ [last ++ gap]).map Text.trim = (pieces ++ [last]).map Text.trim := by
    simp only [List.map_append, List.map_singleton, Text.trim_append_blanks h]
  rw [items, happend, htrim, ← htext, items]

/-- Trimming changes no items. -/
theorem items_trim (text : List Char) : items (Text.trim text) = items text :=
  Text.apply_trim (fun _ ↦ items_blanks_append) (fun _ ↦ items_append_blanks) text

/-- What stands before a comma has its own items, and so has what stands behind it. -/
theorem items_append_cons (before behind : List Char) :
    items (before ++ ',' :: behind) = items before ++ items behind := by
  have hcut : Text.cut (· == ',') (before ++ ',' :: behind) =
      Text.cut (· == ',') before ++ Text.cut (· == ',') behind :=
    Text.cut_append_cons before behind (beq_self_eq_true ',')
  rw [items, hcut, List.map_append, List.filter_append, List.map_append, items, items]

/-- An item may have blanks around it. -/
theorem items_of_isWord {front back : List Char} (hfront : IsGap front) (hback : IsGap back)
    {item : String} (hitem : Text.IsWord item) (hcomma : ',' ∉ item.toList) :
    items (front ++ (item.toList ++ back)) = [item] := by
  rw [items_blanks_append hfront, items_append_blanks hback, items,
    Text.cut_of_notMem hcomma, List.map_singleton, Text.trim_eq_self hitem.isBlank,
    List.filter_singleton, decide_eq_true hitem.ne_nil, cond_true, List.map_singleton,
    String.ofList_toList]

/-- The items of a line are those that were listed on it. -/
theorem items_of_listed (h : Listed texts line) (hwords : ∀ text ∈ texts, Text.IsWord text)
    (hcommas : ∀ text ∈ texts, ',' ∉ text.toList) : items line = texts := by
  induction h with
  | last front back hfront hback item =>
    exact items_of_isWord hfront hback (hwords item List.mem_cons_self)
      (hcommas item List.mem_cons_self)
  | @more front back hfront hback item others rest _ ih =>
    obtain ⟨hword, hothers⟩ := List.forall_mem_cons.mp hwords
    obtain ⟨hcomma, hcommaless⟩ := List.forall_mem_cons.mp hcommas
    have hitem := items_of_isWord hfront hback hword hcomma
    have hsplit := items_append_cons (front ++ (item.toList ++ back)) rest
    rw [ih hothers hcommaless, hitem, List.append_assoc, List.append_assoc] at hsplit
    exact hsplit

/-! ### Reading back -/

/-- Values whose texts read back are read, and nothing is reported. -/
theorem readEach_map {α : Type} {read : String → Option α} {textOf : α → String}
    (complaint : String → String) {values : List α}
    (h : ∀ value ∈ values, read (textOf value) = some value) :
    readEach read complaint (values.map textOf) = (values, []) := by
  have hvalues : (values.map textOf).filterMap read = values := by
    rw [List.filterMap_map]
    exact (List.filterMap_congr h).trans List.filterMap_some
  have hnone : (values.map textOf).filter (fun word ↦ (read word).isNone) = [] := by
    rw [List.filter_eq_nil_iff, List.forall_mem_map]
    intro value hvalue
    rw [h value hvalue]
    exact Bool.false_ne_true
  rw [readEach, hvalues, hnone, List.map_nil]

/-- The two lines of an output say what it is. -/
theorem readPair_trim (h : spec.Writable) (hheader : IsHeader spec header)
    (hcodes : Listed (spec.runs.map RunCode.toText) codes) :
    readPair (Text.trim header) (Text.trim codes) = { outputs := [spec], log := [] } := by
  have hitems : items (Text.trim codes) = spec.runs.map RunCode.toText := by
    rw [items_trim]
    refine items_of_listed hcodes
      (List.forall_mem_map.mpr fun code hcode ↦ (h.runs code hcode).isWord)
      (List.forall_mem_map.mpr fun code hcode hcomma ↦ ?_)
    exact absurd ((h.runs code hcode).isAlphanum hcomma) (by decide)
  rw [readPair, words_of_isHeader h hheader, hitems]
  dsimp only
  rw [readEach_map _ fun filter hfilter ↦ VisualFilter.ofText?_toText (h.filters filter hfilter),
    readEach_map _ fun code hcode ↦ (h.runs code hcode).ofText?_toText]
  rfl

/-- Nothing but blanks stands before the first item. -/
theorem Listed.exists_eq {first : String} (h : Listed (first :: texts) line) :
    ∃ front rest, IsGap front ∧ line = front ++ (first.toList ++ rest) := by
  cases h with
  | last front back hfront => exact ⟨front, back, hfront, rfl⟩
  | @more front back hfront _ _ _ rest => exact ⟨front, back ++ ',' :: rest, hfront, rfl⟩

/-- The line of codes begins with a letter. -/
theorem counts_of_listed (h : spec.Writable)
    (hcodes : Listed (spec.runs.map RunCode.toText) codes) : counts (Text.trim codes) := by
  obtain ⟨first, others, hruns⟩ := List.exists_cons_of_ne_nil h.runs_ne_nil
  have hfirst := h.runs first (hruns ▸ List.mem_cons_self)
  have hhead : first.toText.toList.head? ≠ some '#' := by
    intro hhash
    exact absurd (hfirst.isAlphanum (List.mem_of_mem_head? hhash)) (by decide)
  rw [hruns, List.map_cons] at hcodes
  obtain ⟨front, rest, hfront, rfl⟩ := hcodes.exists_eq
  exact counts_of_isWord hfront hfirst.isWord hhead rest

/-- The lines that count, two for each output, say what the outputs are. -/
theorem ofLines_counts {lines : List (List Char)} (hspecs : ∀ spec ∈ specs, spec.Writable)
    (h : Lays specs lines) :
    ofLines ((lines.map Text.trim).filter counts) = { outputs := specs, log := [] } := by
  induction h with
  | nil => rfl
  | remark hline _ ih =>
    rw [List.map_cons, List.filter_cons_of_neg (by simp [counts_of_isRemark hline]), ih hspecs]
  | @output spec header codes specs lines hheader remarks hremarks hcodes _ ih =>
    obtain ⟨hspec, hothers⟩ := List.forall_mem_cons.mp hspecs
    have hnone : (remarks.map Text.trim).filter counts = [] := by
      rw [List.filter_eq_nil_iff, List.forall_mem_map]
      intro line hline
      simp [counts_of_isRemark (hremarks line hline)]
    have hfirst : counts (Text.trim header) := by
      cases hheader with
      | intro gap hgap htail => exact counts_of_isWord hgap hspec.isWord_name hspec.head?_name _
    have hsecond := counts_of_listed hspec hcodes
    rw [List.map_cons, List.map_append, List.map_cons, List.filter_cons_of_pos hfirst,
      List.filter_append, hnone, List.nil_append, List.filter_cons_of_pos hsecond, ofLines,
      readPair_trim hspec hheader hcodes, ih hothers]
    rfl

/-- A manifest reads back as the outputs for which it was written. -/
theorem ofText_of_written {text : String} (hspecs : ∀ spec ∈ specs, spec.Writable)
    (h : Written specs text) : ofText text = { outputs := specs, log := [] } := by
  obtain ⟨lines, hlines, htext⟩ := h
  have hkept : significantLines text = (lines.map Text.trim).filter counts :=
    filter_counts_lines htext
  rw [ofText, hkept, ofLines_counts hspecs hlines]

/-! ### Manifests and outputs -/

/-- No text is a manifest for two lists of outputs. -/
theorem eq_of_written {others : List OutputSpec} {text : String}
    (hspecs : ∀ spec ∈ specs, spec.Writable) (hothers : ∀ spec ∈ others, spec.Writable)
    (h : Written specs text) (h' : Written others text) : specs = others := by
  have hread := ofText_of_written hspecs h
  rw [ofText_of_written hothers h'] at hread
  exact (congrArg Manifest.outputs hread).symm

/-- Outputs can be written as a manifest, and every manifest for them reads back as them: nothing
is left out and nothing is reported. -/
theorem reads_back (specs : List OutputSpec) (hspecs : ∀ spec ∈ specs, spec.Writable) :
    Written specs (write specs) ∧
      ∀ text, Written specs text → ofText text = { outputs := specs, log := [] } :=
  ⟨written_write hspecs, fun _ ↦ ofText_of_written hspecs⟩

/-- An output with two filters and two runs. -/
def sampleOutput : OutputSpec :=
  ⟨"final", [.rotate (-(.ofNat 25 / .ofNat 2)), .transpose 3], [⟨"ab", 1⟩, ⟨"ab", 20⟩]⟩

/-- A manifest for the output, with a comment, a blank line and more blanks than it needs. -/
def sampleText : String := "# cuts\r\n\tfinal  rotate=-12.5 transpose=3 \r\n\nab1 ,\tab20"

theorem written_sampleText : Written [sampleOutput] sampleText := by
  have hnone : IsGap [] := List.forall_mem_nil _
  have hspace : IsGap [' '] := List.forall_mem_singleton.mpr rfl
  have hspaces : IsGap [' ', ' '] := List.forall_mem_cons.mpr ⟨rfl, hspace⟩
  have htab : IsGap ['\t'] := List.forall_mem_singleton.mpr rfl
  have hfilters : sampleOutput.filters.map VisualFilter.toText =
      ["rotate=-12.5", "transpose=3"] := by
    decide +kernel
  have hcodes : sampleOutput.runs.map RunCode.toText = ["ab1", "ab20"] := by decide +kernel
  have htail : Spaced ["rotate=-12.5", "transpose=3"] _ :=
    .cons ' ' [' '] hspaces _ (.cons ' ' [] hspace _ (.nil [' '] hspace))
  have hlisted : Listed ["ab1", "ab20"] _ :=
    .more [] [' '] hnone hspace _ (.last ['\t'] [] htab hnone _)
  rw [← hfilters] at htail
  rw [← hcodes] at hlisted
  have hblank : ∀ line ∈ [[]], IsRemark line := List.forall_mem_singleton.mpr (.blank [] hnone)
  refine ⟨_, .remark (.comment [] hnone " cuts".toList)
    (.output (.intro ['\t'] htab htail) [[]] hblank hlisted .nil), ?_⟩
  have htext : sampleText.toList =
      "# cuts".toList ++ '\r' :: '\n' ::
        ("\tfinal  rotate=-12.5 transpose=3 ".toList ++ '\r' :: '\n' ::
          ([] ++ '\n' :: "ab1 ,\tab20".toList)) := by
    decide +kernel
  rw [htext]
  exact .returnFeed (by decide)
    (.returnFeed (by decide) (.feed (by decide) (.unended (by decide))))

theorem reads_back_sample : (∀ spec ∈ [sampleOutput], spec.Writable) ∧
    Written [sampleOutput] sampleText ∧
      ofText sampleText = { outputs := [sampleOutput], log := [] } := by
  have hspecs : ∀ spec ∈ [sampleOutput], spec.Writable := by decide +kernel
  exact ⟨hspecs, written_sampleText, (reads_back [sampleOutput] hspecs).2 _ written_sampleText⟩

end Montage.Manifest
