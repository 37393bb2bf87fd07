import Montage.Manifest
import Montage.Proofs.Manifest.FilterTexts
import Montage.Proofs.Text.Separators
import Montage.Proofs.Timing.RunNames

/-!
# Written manifests

A manifest leaves freedom to whoever writes it. Words stand between blanks (`Manifest.Spaced`) and
items between commas with blanks around them (`Manifest.Listed`), lines that do not count may stand
anywhere (`Manifest.Lays`), and lines end in one of two ways, the last one perhaps not at all
(`Manifest.IsTextOf`). A text that makes any use of this freedom is a manifest for the outputs
(`Manifest.Written`). The most sparing of these texts is `Manifest.write`, so there is one for all
outputs whose names, filters and codes can be written (`OutputSpec.Writable`).
-/

set_option autoImplicit false
set_option relaxedAutoImplicit false

namespace Montage

open Timing Numeric

/-- The text is a word: it is not empty and has no blanks. -/
structure Text.IsWord (word : String) : Prop where
  ne_nil : word.toList ≠ []
  isBlank : ∀ c ∈ word.toList, Text.isBlank c = false

-- The instance searches the text, because the one that is found for `isBlank` searches all
-- characters.
instance : DecidablePred Text.IsWord := fun word ↦
  decidable_of_iff (word.toList ≠ [] ∧ word.toList.all (!Text.isBlank ·))
    ⟨fun ⟨hne, hblank⟩ ↦ ⟨hne, by simpa using hblank⟩,
      fun ⟨hne, hblank⟩ ↦ ⟨hne, by simpa using hblank⟩⟩

/-! ### Outputs that can be written -/

namespace Timing.RunCode

/-- The code can be written: its team is letters of the alphabet in lower case, and its counter is
not too great. -/
structure Writable (code : RunCode) : Prop where
  team_ne_nil : code.team.toList ≠ []
  isLower : ∀ c ∈ code.team.toList, c.isLower
  counter_le : code.counter ≤ maxCounter

instance : DecidablePred Writable := fun code ↦
  decidable_of_iff (code.team.toList ≠ [] ∧ code.team.toList.all Char.isLower ∧
      code.counter ≤ maxCounter)
    ⟨fun ⟨hteam, hlower, hcounter⟩ ↦ ⟨hteam, List.all_eq_true.mp hlower, hcounter⟩,
      fun ⟨hteam, hlower, hcounter⟩ ↦ ⟨hteam, List.all_eq_true.mpr hlower, hcounter⟩⟩

variable {code : RunCode}

theorem Writable.isAlpha (h : code.Writable) {c : Char} (hc : c ∈ code.team.toList) :
    c.isAlpha :=
  Text.isAlpha_iff.mpr (Or.inr (h.isLower c hc))

theorem Writable.recordable (h : code.Writable) : code.Recordable where
  team_ne_nil := h.team_ne_nil
  isTeamLetter _ hc := isTeamLetter_iff.mpr (Or.inl (h.isAlpha hc))
  toLower_eq c hc := Text.toLower_eq_self (Text.not_isUpper_of_isLower (h.isLower c hc))
  counter_le := h.counter_le

theorem Writable.ofText?_toText (h : code.Writable) : ofText? code.toText = some code := by
  rw [h.recordable.ofText?_toText, if_pos (List.all_eq_true.mpr fun c hc ↦ h.isAlpha hc)]

/-- The text of a code is letters and digits. -/
theorem Writable.isAlphanum (h : code.Writable) {c : Char} (hc : c ∈ code.toText.toList) :
    c.isAlphanum := by
  rw [toList_toText] at hc
  rcases List.mem_append.mp hc with hletter | hdigit
  · rw [Char.isAlphanum, h.isAlpha hletter, Bool.true_or]
  · rw [Char.isAlphanum, isDigit_of_mem_digitsOf hdigit, Bool.or_true]

theorem Writable.isWord (h : code.Writable) : Text.IsWord code.toText where
  ne_nil := by
    rw [toList_toText]
    exact List.append_ne_nil_of_left_ne_nil h.team_ne_nil _
  isBlank c hc := by
    rcases Bool.or_eq_true_iff.mp (h.isAlphanum hc) with hletter | hdigit
    · exact not_isBlank_of_isTeamLetter (isTeamLetter_iff.mpr (Or.inl hletter))
    · exact Text.not_isBlank_of_isDigit hdigit

end Timing.RunCode

theorem VisualFilter.isWord_toText (filter : VisualFilter) : Text.IsWord filter.toText where
  ne_nil := by
    rw [toList_toText]
    exact List.append_ne_nil_of_right_ne_nil _ (List.cons_ne_nil _ _)
  isBlank _ hc := isBlank_of_mem_toText hc

/-- The output can be written: its name is a word that does not look like a comment, it has runs,
and its filters and codes can be written. -/
structure OutputSpec.Writable (spec : OutputSpec) : Prop where
  isWord_name : Text.IsWord spec.name
  head?_name : spec.name.toList.head? ≠ some '#'
  filters : ∀ filter ∈ spec.filters, filter.Writable
  runs_ne_nil : spec.runs ≠ []
  runs : ∀ code ∈ spec.runs, code.Writable

instance : DecidablePred OutputSpec.Writable := fun spec ↦
  decidable_of_iff (Text.IsWord spec.name ∧ spec.name.toList.head? ≠ some '#' ∧
      (∀ filter ∈ spec.filters, filter.Writable) ∧ spec.runs ≠ [] ∧
      ∀ code ∈ spec.runs, code.Writable)
    ⟨fun ⟨hname, hhead, hfilters, hne, hruns⟩ ↦ ⟨hname, hhead, hfilters, hne, hruns⟩,
      fun ⟨hname, hhead, hfilters, hne, hruns⟩ ↦ ⟨hname, hhead, hfilters, hne, hruns⟩⟩

namespace Manifest

/-! ### Texts of a manifest -/

/-- The text is blank. -/
def IsGap (text : List Char) : Prop := ∀ c ∈ text, Text.isBlank c

/-- Each of the words stands behind blanks, and blanks may follow the last one. -/
inductive Spaced : List String → List Char → Prop
  | nil (gap : List Char) (hgap : IsGap gap) : Spaced [] gap
  | cons (c : Char) (gap : List Char) (hgap : IsGap (c :: gap)) (word : String)
      {words : List String} {rest : List Char} (hrest : Spaced words rest) :
      Spaced (word :: words) (c :: gap ++ (word.toList ++ rest))

/-- Commas stand between the items, and blanks may stand around each of them. -/
inductive Listed : List String → List Char → Prop
  | last (front back : List Char) (hfront : IsGap front) (hback : IsGap back) (item : String) :
      Listed [item] (front ++ (item.toList ++ back))
  | more (front back : List Char) (hfront : IsGap front) (hback : IsGap back) (item : String)
      {items : List String} {rest : List Char} (hrest : Listed items rest) :
      Listed (item :: items) (front ++ (item.toList ++ (back ++ ',' :: rest)))

/-- The line does not count: it is blank or a comment. -/
inductive IsRemark : List Char → Prop
  | blank (gap : List Char) (hgap : IsGap gap) : IsRemark gap
  | comment (gap : List Char) (hgap : IsGap gap) (comment : List Char) :
      IsRemark (gap ++ '#' :: comment)

/-- The line names the output and its filters. -/
inductive IsHeader (spec : OutputSpec) : List Char → Prop
  | intro (gap : List Char) (hgap : IsGap gap) {tail : List Char}
      (htail : Spaced (spec.filters.map VisualFilter.toText) tail) :
      IsHeader spec (gap ++ (spec.name.toList ++ tail))

/-- The lines ask for the outputs, two lines for each. Lines that do not count may stand anywhere. -/
inductive Lays : List OutputSpec → List (List Char) → Prop
  | nil : Lays [] []
  | remark {specs : List OutputSpec} {line : List Char} {lines : List (List Char)}
      (hline : IsRemark line) (hlines : Lays specs lines) : Lays specs (line :: lines)
  | output {spec : OutputSpec} {header codes : List Char} {specs : List OutputSpec}
      {lines : List (List Char)} (hheader : IsHeader spec header) (remarks : List (List Char))
      (hremarks : ∀ line ∈ remarks, IsRemark line)
      (hcodes : Listed (spec.runs.map RunCode.toText) codes) (hlines : Lays specs lines) :
      Lays (spec :: specs) (header :: (remarks ++ codes :: lines))

/-- The lines make up the text. Each ends with a line feed or with a carriage return and a line
feed, and the last one may lack its end. -/
inductive IsTextOf : List (List Char) → List Char → Prop
  | nil : IsTextOf [] []
  | unended {line : List Char} (hline : '\n' ∉ line) : IsTextOf [line] line
  | feed {line rest : List Char} {lines : List (List Char)} (hline : '\n' ∉ line)
      (hrest : IsTextOf lines rest) : IsTextOf (line :: lines) (line ++ '\n' :: rest)
  | returnFeed {line rest : List Char} {lines : List (List Char)} (hline : '\n' ∉ line)
      (hrest : IsTextOf lines rest) : IsTextOf (line :: lines) (line ++ '\r' :: '\n' :: rest)

/-- The text is a manifest that asks for the outputs. -/
def Written (specs : List OutputSpec) (text : String) : Prop :=
  ∃ lines, Lays specs lines ∧ IsTextOf lines text.toList

variable {spec : OutputSpec} {specs : List OutputSpec} {texts : List String}

/-! ### Writing -/

/-- The two lines of an output, with no more blanks than they need. -/
def linesOf (spec : OutputSpec) : List String :=
  [" ".intercalate (spec.name :: spec.filters.map VisualFilter.toText),
    ",".intercalate (spec.runs.map RunCode.toText)]

/-- A manifest that asks for the outputs. -/
def write (specs : List OutputSpec) : String :=
  String.join ((specs.flatMap linesOf).map (· ++ "\n"))

theorem spaced_intercalate (first : String) (texts : List String) :
    ∃ tail, Spaced texts tail ∧
      (" ".intercalate (first :: texts)).toList = first.toList ++ tail := by
  induction texts generalizing first with
  | nil => exact ⟨[], .nil [] (List.forall_mem_nil _), by simp⟩
  | cons next texts ih =>
    obtain ⟨tail, htail, hnext⟩ := ih next
    have hblank : IsGap [' '] := List.forall_mem_singleton.mpr rfl
    refine ⟨_, .cons ' ' [] hblank next htail, ?_⟩
    rw [String.intercalate_cons_cons, String.toList_append, String.toList_append, hnext]
    simp

theorem listed_intercalate (first : String) (texts : List String) :
    Listed (first :: texts) (",".intercalate (first :: texts)).toList := by
  have hgap : IsGap [] := List.forall_mem_nil _
  induction texts generalizing first with
  | nil => simpa using Listed.last [] [] hgap hgap first
  | cons next texts ih =>
    rw [String.intercalate_cons_cons, String.toList_append, String.toList_append]
    simpa using Listed.more [] [] hgap hgap first (ih next)

/-- Words that are joined without line feeds are one line. -/
theorem notMem_intercalate {separator : String} (hseparator : '\n' ∉ separator.toList)
    (hwords : ∀ text ∈ texts, Text.IsWord text) :
    '\n' ∉ (separator.intercalate texts).toList := by
  have hfeed {text : String} (h : '\n' ∉ text.toList) : Text.Avoids ['\n'] text := by
    intro c hc hmem
    exact h (List.mem_singleton.mp hmem ▸ hc)
  refine Text.Avoids.notMem (.intercalate (hfeed hseparator) fun text htext ↦ hfeed ?_)
    List.mem_cons_self
  intro hmem
  exact absurd ((hwords text htext).isBlank _ hmem) (by decide)

theorem notMem_of_mem_linesOf (h : spec.Writable) {text : String} (htext : text ∈ linesOf spec) :
    '\n' ∉ text.toList := by
  rcases List.mem_pair.mp htext with rfl | rfl
  · refine notMem_intercalate (by decide) (List.forall_mem_cons.mpr ⟨h.isWord_name, ?_⟩)
    exact List.forall_mem_map.mpr fun filter _ ↦ filter.isWord_toText
  · exact notMem_intercalate (by decide)
      (List.forall_mem_map.mpr fun code hcode ↦ (h.runs code hcode).isWord)

/-- Every line ends with a line feed. -/
theorem isTextOf_join (h : ∀ text ∈ texts, '\n' ∉ text.toList) :
    IsTextOf (texts.map String.toList) (String.join (texts.map (· ++ "\n"))).toList := by
  induction texts with
  | nil => simpa using IsTextOf.nil
  | cons text texts ih =>
    obtain ⟨htext, htexts⟩ := List.forall_mem_cons.mp h
    rw [List.map_cons, List.map_cons, String.join_cons]
    simpa using IsTextOf.feed htext (ih htexts)

theorem lays_linesOf (hspecs : ∀ spec ∈ specs, spec.Writable) :
    Lays specs ((specs.flatMap linesOf).map String.toList) := by
  induction specs with
  | nil => exact .nil
  | cons spec specs ih =>
    obtain ⟨hspec, hothers⟩ := List.forall_mem_cons.mp hspecs
    obtain ⟨tail, htail, hheader⟩ :=
      spaced_intercalate spec.name (spec.filters.map VisualFilter.toText)
    obtain ⟨code, codes, hruns⟩ := List.exists_cons_of_ne_nil hspec.runs_ne_nil
    have hcodes := listed_intercalate code.toText (codes.map RunCode.toText)
    rw [← List.map_cons, ← hruns] at hcodes
    rw [List.flatMap_cons, linesOf, List.map_append, List.map_cons, List.map_singleton, hheader]
    exact .output (.intro [] (List.forall_mem_nil _) htail) [] (List.forall_mem_nil _) hcodes
      (ih hothers)

theorem written_write (hspecs : ∀ spec ∈ specs, spec.Writable) : Written specs (write specs) := by
  refine ⟨_, lays_linesOf hspecs, isTextOf_join fun text htext ↦ ?_⟩
  obtain ⟨spec, hspec, hmem⟩ := List.mem_flatMap.mp htext
  exact notMem_of_mem_linesOf (hspecs spec hspec) hmem

end Manifest

end Montage
