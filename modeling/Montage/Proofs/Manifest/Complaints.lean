import Montage.Proofs.Manifest.KeptLines

/-!
# Complaints about manifests

What cannot be read in a manifest is left out and reported, and nothing else changes. The lines that
count come in pairs (`ofLines_eq`): every pair gives one output, without the words that are no
filters and the items that are no codes, and one warning for each of them, and a last line without a
partner gives one warning. So the warnings can be counted, and they are the same if another word or
item that cannot be read is put on a line, up to one more (`AddsWarning`).

A word is put on a line with a name behind the name or any word after it (`AddsWord`), and an item
on a line with codes behind any item (`AddsItem`). Either way the line counts as before, since its
first character stays, and so all other lines keep their places.
-/

set_option autoImplicit false
set_option relaxedAutoImplicit false

namespace Montage.Manifest

open Timing

variable {before : List (List Char)} {header header' codes codes' : List Char} {warning : LogEntry}

/-! ### Pairs of lines -/

/-- The output that a pair of lines asks for, without what cannot be read. -/
def outputOf (pair : List Char × List Char) : OutputSpec :=
  let words := (Text.words pair.1).map String.ofList
  { name := words.headD ""
    filters := words.tail.filterMap VisualFilter.ofText?
    runs := (items pair.2).filterMap RunCode.ofText? }

/-- The number of words and items of a pair of lines that cannot be read. -/
def rejected (pair : List Char × List Char) : Nat :=
  ((Text.words pair.1).tail.countP fun word ↦ (VisualFilter.ofText? (String.ofList word)).isNone) +
    (items pair.2).countP fun item ↦ (RunCode.ofText? item).isNone

theorem length_readEach_log {α : Type} (read : String → Option α) (complaint : String → String)
    (words : List String) :
    (readEach read complaint words).2.length = words.countP fun word ↦ (read word).isNone := by
  rw [readEach, List.length_map, List.countP_eq_length_filter]

theorem severity_of_mem_readEach_log {α : Type} {read : String → Option α}
    {complaint : String → String} {words : List String} {entry : LogEntry}
    (h : entry ∈ (readEach read complaint words).2) : entry.severity = .warn := by
  obtain ⟨word, -, rfl⟩ := List.mem_map.mp h
  rfl

/-- A pair of lines gives one output, and one warning for everything that cannot be read. -/
theorem readPair_spec (h : Text.words header ≠ []) (codes : List Char) :
    (readPair header codes).outputs = [outputOf (header, codes)] ∧
      (readPair header codes).log.length = rejected (header, codes) ∧
      ∀ entry ∈ (readPair header codes).log, entry.severity = .warn := by
  obtain ⟨name, words, hwords⟩ := List.exists_cons_of_ne_nil h
  rw [readPair, outputOf, rejected, hwords]
  refine ⟨rfl, ?_, ?_⟩
  · rw [List.map_cons, List.length_append, length_readEach_log, length_readEach_log,
      List.countP_map]
    rfl
  · intro entry hentry
    rcases List.mem_append.mp hentry with hfilter | hcode
    · exact severity_of_mem_readEach_log hfilter
    · exact severity_of_mem_readEach_log hcode

/-- An even number of lines is read apart from the lines behind it. -/
theorem ofLines_append (h : Even before.length) (rest : List (List Char)) :
    ofLines (before ++ rest) =
      { outputs := (ofLines before).outputs ++ (ofLines rest).outputs
        log := (ofLines before).log ++ (ofLines rest).log } := by
  induction before using ofLines.induct with
  | case1 => rfl
  | case2 header => exact absurd h (by simp)
  | case3 header codes before ih =>
    have heven : Even before.length := by
      rw [List.length_cons, List.length_cons, Nat.add_assoc] at h
      exact (Nat.even_add.mp h).mpr even_two
    rw [List.cons_append, List.cons_append, ofLines, ih heven, ofLines, List.append_assoc,
      List.append_assoc]

/-- Every two lines give one output and as many warnings as there is to leave out, and a last line
without a partner gives one warning. -/
theorem ofLines_eq (lines : List (List Char)) (h : ∀ line ∈ lines, Text.words line ≠ []) :
    ∃ (pairs : List (List Char × List Char)) (last : List (List Char)),
      lines = (pairs.flatMap fun (header, codes) ↦ [header, codes]) ++ last ∧
      last.length = lines.length % 2 ∧ (ofLines lines).outputs = pairs.map outputOf ∧
      (ofLines lines).log.length = (pairs.map rejected).sum + last.length ∧
      ∀ entry ∈ (ofLines lines).log, entry.severity = .warn := by
  induction lines using ofLines.induct with
  | case1 => exact ⟨[], [], rfl, rfl, rfl, rfl, List.forall_mem_nil _⟩
  | case2 header =>
    exact ⟨[], [header], rfl, rfl, rfl, rfl, List.forall_mem_singleton.mpr rfl⟩
  | case3 header codes lines ih =>
    obtain ⟨hheader, -, hlines⟩ := by simpa only [List.forall_mem_cons] using h
    obtain ⟨houtputs, hcount, hwarn⟩ := readPair_spec hheader codes
    obtain ⟨pairs, last, heq, hlength, houtputs', hcount', hwarn'⟩ := ih hlines
    refine ⟨(header, codes) :: pairs, last, ?_, ?_, ?_, ?_, ?_⟩
    · rw [List.flatMap_cons, heq]
      rfl
    · rw [hlength, List.length_cons, List.length_cons, Nat.add_assoc, Nat.add_mod_right]
    · rw [ofLines, houtputs, houtputs', List.map_cons, List.singleton_append]
    · rw [ofLines, List.length_append, hcount, hcount', List.map_cons, List.sum_cons,
        Nat.add_assoc]
    · rw [ofLines]
      exact List.forall_mem_append.mpr ⟨hwarn, hwarn'⟩

/-! ### One more warning -/

/-- The second manifest has the outputs of the first, and its report has one more entry. -/
def AddsWarning (warning : LogEntry) (manifest manifest' : Manifest) : Prop :=
  manifest'.outputs = manifest.outputs ∧ ∃ earlier later, manifest.log = earlier ++ later ∧
    manifest'.log = earlier ++ warning :: later

/-- One more warning on a pair of lines is one more on all lines. -/
theorem AddsWarning.ofLines (h : AddsWarning warning (readPair header codes)
      (readPair header' codes'))
    (hbefore : Even before.length) (rest : List (List Char)) :
    AddsWarning warning (ofLines (before ++ header :: codes :: rest))
      (ofLines (before ++ header' :: codes' :: rest)) := by
  obtain ⟨houtputs, earlier, later, hlog, hlog'⟩ := h
  rw [ofLines_append hbefore, ofLines_append hbefore, Manifest.ofLines, Manifest.ofLines]
  refine ⟨by rw [houtputs], (Manifest.ofLines before).log ++ earlier,
    later ++ (Manifest.ofLines rest).log, ?_, ?_⟩
  · rw [hlog]
    simp
  · rw [hlog']
    simp

/-- A word that is not read is left out and reported, between the complaints about the others. -/
theorem readEach_insert {α : Type} {read : String → Option α} {word : String}
    (complaint : String → String) (hread : read word = none) (front back : List String) :
    (readEach read complaint (front ++ word :: back)).1 =
        (readEach read complaint (front ++ back)).1 ∧
      ∃ earlier later, (readEach read complaint (front ++ back)).2 = earlier ++ later ∧
        (readEach read complaint (front ++ word :: back)).2 =
          earlier ++ .warn (complaint word) :: later := by
  constructor
  · simp [readEach, List.filterMap_append, hread]
  · refine ⟨(readEach read complaint front).2, (readEach read complaint back).2, ?_, ?_⟩
    · simp [readEach, List.filter_append]
    · simp [readEach, List.filter_append, hread]

/-- The complaint about a word that is no filter. -/
def filterComplaint (name word : String) : String :=
  "Unknown filter " ++ Text.quoted word ++ " for output " ++ name

/-- The complaint about an item that is no code. -/
def codeComplaint (name item : String) : String :=
  "Invalid run code " ++ Text.quoted item ++ " for output " ++ name

theorem readPair_of_words {name : String} {words : List String}
    (h : (Text.words header).map String.ofList = name :: words) :
    readPair header codes =
      { outputs := [{
          name
          filters := (readEach VisualFilter.ofText? (filterComplaint name) words).1
          runs := (readEach RunCode.ofText? (codeComplaint name) (items codes)).1 }]
        log := (readEach VisualFilter.ofText? (filterComplaint name) words).2 ++
          (readEach RunCode.ofText? (codeComplaint name) (items codes)).2 } := by
  rw [readPair, h]
  rfl

theorem AddsWarning.readPair_header {name word : String} {front back : List String}
    (h : (Text.words header).map String.ofList = name :: (front ++ back))
    (h' : (Text.words header').map String.ofList = name :: (front ++ word :: back))
    (hread : VisualFilter.ofText? word = none) :
    AddsWarning (.warn (filterComplaint name word)) (readPair header codes)
      (readPair header' codes) := by
  obtain ⟨hvalues, earlier, later, hlog, hlog'⟩ :=
    readEach_insert (filterComplaint name) hread front back
  rw [readPair_of_words h, readPair_of_words h']
  refine ⟨by rw [hvalues], earlier,
    later ++ (readEach RunCode.ofText? (codeComplaint name) (items codes)).2, ?_, ?_⟩
  · rw [hlog, List.append_assoc]
  · rw [hlog', List.append_assoc, List.cons_append]

theorem AddsWarning.readPair_codes {name item : String} {words front back : List String}
    (hheader : (Text.words header).map String.ofList = name :: words)
    (h : items codes = front ++ back) (h' : items codes' = front ++ item :: back)
    (hread : RunCode.ofText? item = none) :
    AddsWarning (.warn (codeComplaint name item)) (readPair header codes)
      (readPair header codes') := by
  obtain ⟨hvalues, earlier, later, hlog, hlog'⟩ :=
    readEach_insert (codeComplaint name) hread front back
  rw [readPair_of_words hheader, readPair_of_words hheader, h, h']
  refine ⟨by rw [hvalues],
    (readEach VisualFilter.ofText? (filterComplaint name) words).2 ++ earlier, later, ?_, ?_⟩
  · rw [hlog, List.append_assoc]
  · rw [hlog', List.append_assoc]

/-- A line that counts is replaced by another one in the text as among the lines that count. -/
theorem AddsWarning.of_enclosed {front line line' back : List Char}
    (hline : Encloses front line back) (hline' : Encloses front line' back)
    (hcounts : counts (Text.trim line)) (hcounts' : counts (Text.trim line'))
    (h : AddsWarning warning
      (Manifest.ofLines (keptLines front ++ Text.trim line :: keptLines back))
      (Manifest.ofLines (keptLines front ++ Text.trim line' :: keptLines back))) :
    AddsWarning warning (ofText (String.ofList (front ++ (line ++ back))))
      (ofText (String.ofList (front ++ (line' ++ back)))) := by
  rw [ofText, ofText, significantLines_eq, significantLines_eq, String.toList_ofList,
    String.toList_ofList, keptLines_enclosed hline hcounts, keptLines_enclosed hline' hcounts']
  exact h

/-! ### Another word on a line with a name -/

/-- The second text is the first one with another word on the line with a name of a pair: behind the
name, or behind a word after it. The line is the first of its pair because an even number of lines
that count stand before it, and it has a partner because such a line stands behind it. -/
inductive AddsWord (name : String) (word : List Char) : List Char → List Char → Prop
  | intro {front start tail back : List Char} (gap : List Char)
      (hline : Encloses front (start ++ tail) back) (hcounts : counts (Text.trim (start ++ tail)))
      (hfront : Even (keptLines front).length) (hback : keptLines back ≠ [])
      (hname : (Text.words start).head? = some name.toList)
      (htail : tail.head?.all Text.isBlank)
      (hgap : gap ≠ [] ∧ IsGap gap ∧ '\n' ∉ gap) :
      AddsWord name word (front ++ (start ++ tail ++ back))
        (front ++ (start ++ (gap ++ (word ++ tail)) ++ back))

/-- What stands behind a blank, or at the end of a text, has its own words. -/
theorem words_append_of_tail {tail : List Char} (h : tail.head?.all Text.isBlank)
    (start : List Char) : Text.words (start ++ tail) = Text.words start ++ Text.words tail := by
  cases tail with
  | nil =>
    have hnone : Text.words [] = [] := rfl
    rw [hnone, List.append_nil, List.append_nil]
  | cons c tail =>
    have hc : Text.isBlank c := h
    have hnone : Text.words (c :: tail) = Text.words tail := Text.words_append_cons [] tail hc
    rw [Text.words_append_cons _ _ hc, hnone]

theorem words_of_isGap {gap : List Char} (h : IsGap gap) : Text.words gap = [] :=
  Text.words_append_blanks h []

theorem words_gap_append_word {gap word tail : List Char} (hgap : IsGap gap) (hne : word ≠ [])
    (hword : ∀ c ∈ word, Text.isBlank c = false) (htail : tail.head?.all Text.isBlank) :
    Text.words (gap ++ (word ++ tail)) = word :: Text.words tail := by
  rw [Text.words_blanks_append hgap, words_append_of_tail htail,
    Text.words_eq_singleton hne hword, List.singleton_append]

/-- The line counts with the new word as it did without it, since it begins as before. -/
theorem counts_of_word_added {start tail : List Char} {name : String}
    (hname : (Text.words start).head? = some name.toList)
    (hcounts : counts (Text.trim (start ++ tail))) (added : List Char) :
    counts (Text.trim (start ++ added)) := by
  have hstart : ∃ c ∈ start, Text.isBlank c = false := by
    refine exists_isBlank_of_not_isGap fun hblank ↦ ?_
    rw [words_of_isGap hblank] at hname
    cases hname
  rwa [counts_trim_congr (find?_append_of_exists hstart _),
    ← counts_trim_congr (find?_append_of_exists hstart tail)]

/-- Another word that is not read, on the first line of a pair. -/
theorem addsWarning_readPair_word {name : String} {start tail gap word : List Char}
    (hname : (Text.words start).head? = some name.toList) (htail : tail.head?.all Text.isBlank)
    (hgapne : gap ≠ []) (hgap : IsGap gap) (hne : word ≠ [])
    (hword : ∀ c ∈ word, Text.isBlank c = false)
    (hread : VisualFilter.ofText? (String.ofList word) = none) (codes : List Char) :
    AddsWarning (.warn (filterComplaint name (String.ofList word)))
      (readPair (Text.trim (start ++ tail)) codes)
      (readPair (Text.trim (start ++ (gap ++ (word ++ tail)))) codes) := by
  obtain ⟨words, hwords⟩ := List.head?_eq_some_iff.mp hname
  have hgaphead : (gap ++ (word ++ tail)).head?.all Text.isBlank := by
    obtain ⟨c, gap, rfl⟩ := List.exists_cons_of_ne_nil hgapne
    exact hgap c List.mem_cons_self
  have hold : (Text.words (Text.trim (start ++ tail))).map String.ofList =
      name :: (words.map String.ofList ++ (Text.words tail).map String.ofList) := by
    rw [Text.words_trim, words_append_of_tail htail, hwords]
    simp
  have hnew : (Text.words (Text.trim (start ++ (gap ++ (word ++ tail))))).map String.ofList =
      name :: (words.map String.ofList ++
        String.ofList word :: (Text.words tail).map String.ofList) := by
    rw [Text.words_trim, words_append_of_tail hgaphead, hwords,
      words_gap_append_word hgap hne hword htail]
    simp
  exact .readPair_header hold hnew hread

theorem AddsWord.addsWarning {name : String} {word text text' : List Char}
    (h : AddsWord name word text text') (hne : word ≠ [])
    (hword : ∀ c ∈ word, Text.isBlank c = false)
    (hread : VisualFilter.ofText? (String.ofList word) = none) :
    AddsWarning (.warn (filterComplaint name (String.ofList word))) (ofText (String.ofList text))
      (ofText (String.ofList text')) := by
  obtain @⟨front, start, tail, back, gap, hline, hcounts, hfront, hback, hname, htail, hgapne,
    hgap, hfeed⟩ := h
  have hwordFeed : '\n' ∉ word := fun hmem ↦ absurd (hword _ hmem) (by decide)
  have hline' : Encloses front (start ++ (gap ++ (word ++ tail))) back := by
    have hnone := hline.line
    refine hline.of_notMem ?_
    simp only [List.mem_append, not_or] at hnone ⊢
    exact ⟨hnone.1, hfeed, hwordFeed, hnone.2⟩
  refine .of_enclosed hline hline' hcounts (counts_of_word_added hname hcounts _) ?_
  obtain ⟨codes, rest, hcodes⟩ := List.exists_cons_of_ne_nil hback
  rw [hcodes]
  have hpair := addsWarning_readPair_word hname htail hgapne hgap hne hword hread codes
  exact hpair.ofLines hfront rest

/-! ### Another item on a line with codes -/

/-- The second text is the first one with another item on the line with codes of a pair, behind one
of its items: before the comma behind it, or at the end of the line. The line is the second of its
pair because an odd number of lines that count stand before it. -/
inductive AddsItem (item : List Char) : List Char → List Char → Prop
  | intro {front start tail back : List Char} (gap : List Char)
      (hline : Encloses front (start ++ (gap ++ tail)) back)
      (hcounts : counts (Text.trim (start ++ (gap ++ tail))))
      (hfront : Odd (keptLines front).length) (hgap : IsGap gap)
      (htail : tail = [] ∨ tail.head? = some ',') :
      AddsItem item (front ++ (start ++ (gap ++ tail) ++ back))
        (front ++ (start ++ ',' :: (item ++ (gap ++ tail)) ++ back))

/-- What stands behind an item has its own items. -/
theorem items_append_of_tail {gap tail : List Char} (hgap : IsGap gap)
    (h : tail = [] ∨ tail.head? = some ',') :
    ∃ more, ∀ start, items (start ++ (gap ++ tail)) = items start ++ more := by
  rcases h with rfl | hhead
  · refine ⟨[], fun start ↦ ?_⟩
    rw [List.append_nil, items_append_blanks hgap, List.append_nil]
  · obtain ⟨rest, rfl⟩ := List.head?_eq_some_iff.mp hhead
    refine ⟨items rest, fun start ↦ ?_⟩
    rw [← List.append_assoc, items_append_cons, items_append_blanks hgap]

/-- A text without commas that is not blank is one item. -/
theorem items_eq_singleton {item : List Char} (hcomma : ',' ∉ item) (hne : ¬ IsGap item) :
    items item = [String.ofList (Text.trim item)] := by
  have htrim : Text.trim item ≠ [] := by
    obtain ⟨front, back, hfront, hback, hitem⟩ := Text.exists_eq_append_trim item
    intro hnil
    rw [hnil, List.nil_append] at hitem
    rw [hitem] at hne
    exact hne (List.forall_mem_append.mpr ⟨hfront, hback⟩)
  rw [items, Text.cut_of_notMem hcomma, List.map_singleton, List.filter_singleton,
    decide_eq_true htrim, cond_true, List.map_singleton]

/-- Trimming does not change whether a code is read. -/
theorem ofText?_trim (text : List Char) :
    RunCode.ofText? (String.ofList (Text.trim text)) = RunCode.ofText? (String.ofList text) := by
  have htrim : Text.trim (Text.trim text) = Text.trim text :=
    Text.apply_trim (fun _ ↦ Text.trim_blanks_append) (fun _ ↦ Text.trim_append_blanks) text
  rw [RunCode.ofText?, RunCode.ofText?, String.toList_ofList, String.toList_ofList, htrim]

/-- The line counts with the new item as it did without it: a line that began with a comma begins
with the comma in front of the item. -/
theorem counts_of_item_added {start gap tail : List Char} (hgap : IsGap gap)
    (htail : tail = [] ∨ tail.head? = some ',')
    (hcounts : counts (Text.trim (start ++ (gap ++ tail)))) (item : List Char) :
    counts (Text.trim (start ++ ',' :: (item ++ (gap ++ tail)))) := by
  by_cases hstart : IsGap start
  · rcases htail with rfl | hhead
    · have hblank : IsGap (start ++ (gap ++ [])) := by
        rw [List.append_nil]
        exact List.forall_mem_append.mpr ⟨hstart, hgap⟩
      rw [trim_of_isGap hblank] at hcounts
      exact absurd hcounts (by decide)
    · obtain ⟨rest, rfl⟩ := List.head?_eq_some_iff.mp hhead
      have hcomma : Text.isBlank ',' = false := by decide
      have hold : (start ++ (gap ++ ',' :: rest)).find? (!Text.isBlank ·) = some ',' := by
        rw [find?_gap_append hstart, find?_gap_append hgap,
          List.find?_cons_of_pos (by simp [hcomma])]
      have hnew : (start ++ ',' :: (item ++ (gap ++ ',' :: rest))).find? (!Text.isBlank ·) =
          some ',' := by
        rw [find?_gap_append hstart, List.find?_cons_of_pos (by simp [hcomma])]
      rwa [counts_trim_congr (hnew.trans hold.symm)]
  · have hletter := exists_isBlank_of_not_isGap hstart
    rwa [counts_trim_congr (find?_append_of_exists hletter _),
      ← counts_trim_congr (find?_append_of_exists hletter (gap ++ tail))]

/-- Another item that is not read, on the second line of a pair. -/
theorem addsWarning_readPair_item {name : String} {words : List String}
    {start gap tail item : List Char}
    (hheader : (Text.words header).map String.ofList = name :: words) (hgap : IsGap gap)
    (htail : tail = [] ∨ tail.head? = some ',') (hcomma : ',' ∉ item) (hne : ¬ IsGap item)
    (hread : RunCode.ofText? (String.ofList item) = none) :
    AddsWarning (.warn (codeComplaint name (String.ofList (Text.trim item))))
      (readPair header (Text.trim (start ++ (gap ++ tail))))
      (readPair header (Text.trim (start ++ ',' :: (item ++ (gap ++ tail))))) := by
  obtain ⟨more, hmore⟩ := items_append_of_tail hgap htail
  have hold : items (Text.trim (start ++ (gap ++ tail))) = items start ++ more := by
    rw [items_trim, hmore]
  have hnew : items (Text.trim (start ++ ',' :: (item ++ (gap ++ tail)))) =
      items start ++ String.ofList (Text.trim item) :: more := by
    rw [items_trim, items_append_cons, hmore, items_eq_singleton hcomma hne,
      List.singleton_append]
  exact .readPair_codes hheader hold hnew ((ofText?_trim item).trans hread)

theorem AddsItem.addsWarning {item text text' : List Char} (h : AddsItem item text text')
    (hcomma : ',' ∉ item) (hfeed : '\n' ∉ item) (hne : ¬ IsGap item)
    (hread : RunCode.ofText? (String.ofList item) = none) :
    ∃ name, AddsWarning (.warn (codeComplaint name (String.ofList (Text.trim item))))
      (ofText (String.ofList text)) (ofText (String.ofList text')) := by
  obtain @⟨front, start, tail, back, gap, hline, hcounts, hfront, hgap, htail⟩ := h
  have hline' : Encloses front (start ++ ',' :: (item ++ (gap ++ tail))) back := by
    have hnone := hline.line
    refine hline.of_notMem ?_
    simp only [List.mem_append, List.mem_cons, not_or] at hnone ⊢
    exact ⟨hnone.1, by decide, hfeed, hnone.2.1, hnone.2.2⟩
  -- The line before is the other one of the pair.
  obtain ⟨before, header, hbefore⟩ :=
    (List.eq_nil_or_concat' (keptLines front)).resolve_left fun hnil ↦ by simp [hnil] at hfront
  have heven : Even before.length := by
    rw [hbefore, List.length_append, List.length_singleton] at hfront
    exact Nat.not_odd_iff_even.mp (Nat.odd_add_one.mp hfront)
  have hheader : header ∈ keptLines front := hbefore ▸ List.mem_append_right _ List.mem_cons_self
  obtain ⟨name, words, hwords⟩ := List.exists_cons_of_ne_nil (words_ne_nil_of_counts hheader)
  have hname : (Text.words header).map String.ofList =
      String.ofList name :: words.map String.ofList := by
    rw [hwords, List.map_cons]
  have hlines (line : List Char) : keptLines front ++ line :: keptLines back =
      before ++ header :: line :: keptLines back := by
    rw [hbefore, List.append_assoc, List.singleton_append]
  refine ⟨String.ofList name,
    .of_enclosed hline hline' hcounts (counts_of_item_added hgap htail hcounts item) ?_⟩
  rw [hlines, hlines]
  exact (addsWarning_readPair_item hname hgap htail hcomma hne hread).ofLines heven _

/-! ### Everything that is left out -/

/-- Another word that is no filter on the line with a name of a pair, or another item that is no
code on its line with codes, leaves the outputs as they are and is reported once. In all, every two
lines that count give one output, and there is one warning for each word that is no filter and each
item that is no code, and one for the last line if it has no partner; nothing else is left out. -/
theorem leaves_out_and_reports (text : String) :
    (∀ (name : String) (word text' : List Char), AddsWord name word text.toList text' →
        word ≠ [] → (∀ c ∈ word, Text.isBlank c = false) →
        VisualFilter.ofText? (String.ofList word) = none →
        AddsWarning (.warn (filterComplaint name (String.ofList word))) (ofText text)
          (ofText (String.ofList text'))) ∧
      (∀ item text' : List Char, AddsItem item text.toList text' →
        ',' ∉ item → '\n' ∉ item → ¬ IsGap item →
        RunCode.ofText? (String.ofList item) = none →
        ∃ name, AddsWarning (.warn (codeComplaint name (String.ofList (Text.trim item))))
          (ofText text) (ofText (String.ofList text'))) ∧
      ∃ (pairs : List (List Char × List Char)) (last : List (List Char)),
        significantLines text = (pairs.flatMap fun (header, codes) ↦ [header, codes]) ++ last ∧
          last.length = (significantLines text).length % 2 ∧
          (ofText text).outputs = pairs.map outputOf ∧
          (ofText text).log.length = (pairs.map rejected).sum + last.length ∧
          ∀ entry ∈ (ofText text).log, entry.severity = .warn := by
  refine ⟨?_, ?_, ofLines_eq _ fun line hline ↦ words_ne_nil_of_counts hline⟩
  · intro name word text' h hne hword hread
    have hadds := h.addsWarning hne hword hread
    rwa [String.ofList_toList] at hadds
  · intro item text' h hcomma hfeed hne hread
    have hadds := h.addsWarning hcomma hfeed hne hread
    rwa [String.ofList_toList] at hadds

/-- A manifest with one pair of lines, and a line without a partner. -/
def halfText : String := "final rotate=90\n,ab1 \nlast"

theorem addsWord_halfText :
    AddsWord "final" "blur=3".toList halfText.toList
      "final\tblur=3 rotate=90\n,ab1 \nlast".toList := by
  have hadds : AddsWord "final" "blur=3".toList
      ([] ++ ("final".toList ++ " rotate=90".toList ++ "\n,ab1 \nlast".toList)) _ :=
    .intro ['\t'] (by decide +kernel) (by decide +kernel) (by decide +kernel) (by decide +kernel)
      (by decide +kernel) (by decide +kernel)
      ⟨List.cons_ne_nil _ _, List.forall_mem_singleton.mpr rfl, by decide⟩
  exact hadds

theorem addsItem_halfText :
    AddsItem "a-b1".toList halfText.toList "final rotate=90\n,a-b1,ab1 \nlast".toList := by
  have hadds : AddsItem "a-b1".toList
      ("final rotate=90\n".toList ++ ([] ++ ([] ++ ",ab1 ".toList) ++ "\nlast".toList)) _ :=
    .intro [] (by decide +kernel) (by decide +kernel) (by decide +kernel) (List.forall_mem_nil _)
      (by decide +kernel)
  exact hadds

/-- A word and an item are put on the lines of the pair, the item behind an empty one. -/
theorem leaves_out_and_reports_sample :
    AddsWord "final" "blur=3".toList halfText.toList
        "final\tblur=3 rotate=90\n,ab1 \nlast".toList ∧
      AddsWarning (.warn (filterComplaint "final" "blur=3")) (ofText halfText)
        (ofText "final\tblur=3 rotate=90\n,ab1 \nlast") ∧
      AddsItem "a-b1".toList halfText.toList "final rotate=90\n,a-b1,ab1 \nlast".toList ∧
      ∃ name, AddsWarning (.warn (codeComplaint name "a-b1")) (ofText halfText)
        (ofText "final rotate=90\n,a-b1,ab1 \nlast") := by
  obtain ⟨hword, hitem, -⟩ := leaves_out_and_reports halfText
  have hblank : "blur=3".toList.all (!Text.isBlank ·) := by decide
  have hgap : ¬ IsGap "a-b1".toList := fun hgap ↦ absurd (hgap 'a' (by decide)) (by decide)
  have hadds := hword _ _ _ addsWord_halfText (by decide)
    (fun c hc ↦ by simpa using List.all_eq_true.mp hblank c hc) (by decide +kernel)
  obtain ⟨name, hadds'⟩ := hitem _ _ addsItem_halfText (by decide) (by decide) hgap
    (by decide +kernel)
  have htrim : String.ofList (Text.trim "a-b1".toList) = "a-b1" := by decide +kernel
  rw [String.ofList_toList, String.ofList_toList] at hadds
  rw [String.ofList_toList, htrim] at hadds'
  exact ⟨addsWord_halfText, hadds, addsItem_halfText, name, hadds'⟩

end Montage.Manifest
