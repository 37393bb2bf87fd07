import Mathlib.Data.Bool.AllAny
import Montage.Proofs.Text.Letters
import Montage.Proofs.Toml.Tables
import Montage.Proofs.Toml.TextForms

/-!
# Forms of keys and values

A list may have spaces, line ends and comments anywhere between its items and a comma after the last
one, a key has points between its parts and may have spaces around them, and the keys of a table
between braces are set on one line. For each of these `Gap`, `ItemsForm`, `KeyForm`, `ValueForm` and
`BracedForm` say what may stand for it, and reading gives back what it stands for. The values are
texts, truth values, lists of texts and tables of these.

A value without quotes ends where a character stands that cannot belong to it, so every form of a
value is read if it is followed by such a character (`Ends`).
-/

set_option autoImplicit false
set_option relaxedAutoImplicit false

namespace Montage.Toml

/-! ### Forms -/

/-- A comment up to the end of its line. -/
def Comment (written : List Char) : Prop :=
  ∃ characters, written = '#' :: characters ∧ ∀ c ∈ characters, isVisible c

/-- Spaces, line ends and comments. -/
inductive Gap : List Char → Prop
  | nil : Gap []
  | space {c : Char} {more : List Char} : isSpace c → Gap more → Gap (c :: more)
  | lineEnd {ending more : List Char} : LineEnd ending → Gap more → Gap (ending ++ more)
  | comment {comment ending more : List Char} : Comment comment → LineEnd ending → Gap more →
      Gap (comment ++ (ending ++ more))

/-- What stands for the texts of a list after the opening bracket, with the closing one. -/
inductive ItemsForm : List (List Char) → List Char → Prop
  /-- There are no more items. -/
  | close {gap : List Char} : Gap gap → ItemsForm [] (gap ++ [']'])
  /-- The last item has no comma. -/
  | last {item gap written gap' : List Char} : Gap gap → TextForm item written → Gap gap' →
      ItemsForm [item] (gap ++ (written ++ (gap' ++ [']'])))
  /-- A comma follows. -/
  | next {item gap written gap' more : List Char} {items : List (List Char)} : Gap gap →
      TextForm item written → Gap gap' → ItemsForm items more →
      ItemsForm (item :: items) (gap ++ (written ++ (gap' ++ ',' :: more)))

/-- What stands for a value that is no table. -/
inductive ValueForm : Value → List Char → Prop
  | text {text written : List Char} : TextForm text written →
      ValueForm (.text (String.ofList text)) written
  | yes : ValueForm (.boolean true) ['t', 'r', 'u', 'e']
  | no : ValueForm (.boolean false) ['f', 'a', 'l', 's', 'e']
  | list {items : List (List Char)} {written : List Char} : ItemsForm items written →
      ValueForm (.array (items.map fun item ↦ .text (String.ofList item))) ('[' :: written)

/-- What stands for a part of a key. -/
inductive PartForm : String → List Char → Prop
  | bare {written : List Char} : written ≠ [] → (∀ c ∈ written, isKeyChar c) →
      PartForm (String.ofList written) written
  | quoted {text written : List Char} : LineForm text written →
      PartForm (String.ofList text) written

/-- What stands for a key: its parts with points between them and spaces around them. -/
inductive KeyForm : List String → List Char → Prop
  | last {part : String} {spaces written spaces' : List Char} : Spaces spaces →
      PartForm part written → Spaces spaces' → KeyForm [part] (spaces ++ (written ++ spaces'))
  | next {part : String} {key : List String} {spaces written spaces' more : List Char} :
      Spaces spaces → PartForm part written → Spaces spaces' → KeyForm key more →
      KeyForm (part :: key) (spaces ++ (written ++ (spaces' ++ '.' :: more)))

/-- What stands for the assignments of a table after the opening brace, with the closing one. -/
inductive PairsForm : Entries → List Char → Prop
  | last {key : String} {value : Value} {name spaces written spaces' : List Char} :
      KeyForm [key] name → Spaces spaces → ValueForm value written → Spaces spaces' →
      PairsForm [(key, value)] (name ++ '=' :: (spaces ++ (written ++ (spaces' ++ ['\x7d']))))
  | next {key : String} {value : Value} {name spaces written spaces' more : List Char}
      {entries : Entries} :
      KeyForm [key] name → Spaces spaces → ValueForm value written → Spaces spaces' →
      PairsForm entries more → PairsForm ((key, value) :: entries)
        (name ++ '=' :: (spaces ++ (written ++ (spaces' ++ ',' :: more))))

/-- What stands for a table on one line. No two of its keys are the same. -/
inductive BracedForm : Entries → List Char → Prop
  | empty {spaces : List Char} : Spaces spaces → BracedForm [] ('\x7b' :: (spaces ++ ['\x7d']))
  | pairs {entries : Entries} {written : List Char} : PairsForm entries written →
      (entries.map Prod.fst).Nodup → BracedForm entries ('\x7b' :: written)

variable {c : Char} {part : String} {key : List String} {value : Value} {entries : Entries}
  {items : List (List Char)} {text written spaces gap rest : List Char} {fuel depth parts : Nat}

/-! ### What follows a value -/

/-- The text is over or goes on with a character that ends a value. -/
def Ends (rest : List Char) : Prop := ∀ c ∈ rest.head?, endsWord c

theorem ends_cons (h : endsWord c) (rest : List Char) : Ends (c :: rest) := by
  rintro _ ⟨⟩
  exact h

theorem endsWord_of_isSpace (h : isSpace c) : endsWord c := by
  simp only [isSpace, Bool.or_eq_true, beq_iff_eq] at h
  rcases h with rfl | rfl <;> decide

theorem Ends.spaces_append (h : Ends rest) (hspaces : Spaces spaces) : Ends (spaces ++ rest) := by
  cases spaces with
  | nil => exact h
  | cons c spaces => exact ends_cons (endsWord_of_isSpace (hspaces c List.mem_cons_self)) _

theorem Ends.gap_append (h : Ends rest) (hgap : Gap gap) : Ends (gap ++ rest) := by
  cases hgap with
  | nil => exact h
  | space hspace _ => exact ends_cons (endsWord_of_isSpace hspace) _
  | lineEnd hending _ => cases hending <;> exact ends_cons (by decide) _
  | comment hcomment _ _ =>
    obtain ⟨characters, rfl, -⟩ := hcomment
    exact ends_cons (by decide) _

theorem Ends.head?_ne_mark (h : Ends rest) (quotes : Quotes) : rest.head? ≠ some quotes.mark := by
  intro hmark
  have hends := h _ hmark
  cases quotes <;> exact absurd hends (by decide)

theorem TextForm.begins (h : TextForm text written) :
    ∃ (quotes : Quotes) (more : List Char), written = quotes.mark :: more := by
  have hdelimiter (quotes : Quotes) (more : List Char) :
      ∃ after, quotes.delimiter ++ more = quotes.mark :: after := by
    cases quotes <;> exact ⟨_, rfl⟩
  cases h with
  | line hline =>
    cases hline with
    | @intro quotes _ _ _ _ => exact ⟨quotes, hdelimiter quotes _⟩
  | @lines quotes _ _ _ _ _ _ => exact ⟨quotes, hdelimiter quotes _⟩

/-! ### Spaces and gaps -/

theorem skipSpaces_append (hspaces : Spaces spaces) (hrest : ∀ c ∈ rest.head?, ¬ isSpace c) :
    skipSpaces (spaces ++ rest) = rest :=
  (takeWhile_dropWhile_append hspaces hrest).2

theorem skipGap_comment {comment : List Char} (h : Comment comment) (rest : List Char) :
    skipGap false (comment ++ rest) = skipGap true rest := by
  obtain ⟨characters, rfl, hvisible⟩ := h
  have hskip : skipGap true (characters ++ rest) = skipGap true rest := by
    induction characters with
    | nil => rfl
    | cons c characters ih =>
      obtain ⟨hc, hcharacters⟩ := List.forall_mem_cons.mp hvisible
      obtain ⟨hfeed, hreturn⟩ := ne_of_isVisible hc
      rw [List.cons_append, ← ih hcharacters, skipGap, if_pos hc]
      · exact hfeed
      · exact fun _ h _ ↦ hreturn h
  exact hskip

theorem skipGap_lineEnd {ending : List Char} (h : LineEnd ending) (inComment : Bool)
    (rest : List Char) : skipGap inComment (ending ++ rest) = skipGap false rest := by
  cases h <;> cases inComment <;> rfl

/-- A gap ends before anything that cannot be in one. -/
theorem skipGap_append (h : Gap gap)
    (hrest : ∀ c ∈ rest.head?, ¬ isSpace c ∧ c ≠ '\n' ∧ c ≠ '\r' ∧ c ≠ '#') :
    skipGap false (gap ++ rest) = some rest := by
  induction h with
  | nil =>
    cases rest with
    | nil => rfl
    | cons c rest =>
      obtain ⟨hspace, hfeed, hreturn, hcomment⟩ := hrest c rfl
      rw [List.nil_append, skipGap, if_neg hspace]
      · exact hfeed
      · exact fun _ h _ ↦ hreturn h
      · exact hcomment
  | @space c more hspace _ ih =>
    rw [List.cons_append, ← ih]
    simp only [isSpace, Bool.or_eq_true, beq_iff_eq] at hspace
    rcases hspace with rfl | rfl <;> rfl
  | lineEnd hending _ ih => rw [List.append_assoc, skipGap_lineEnd hending, ih]
  | comment hcomment hending _ ih =>
    rw [List.append_assoc, List.append_assoc, skipGap_comment hcomment, skipGap_lineEnd hending, ih]

/-! ### Values -/

theorem mark_cases (quotes : Quotes) : quotes.mark = '"' ∨ quotes.mark = '\'' := by
  cases quotes
  · exact Or.inl rfl
  · exact Or.inr rfl
  · exact Or.inl rfl
  · exact Or.inr rfl

/-- What begins with a character of a kind that quotes are not of is not quoted. -/
theorem startsQuoted_eq_false {isPlain : Char → Bool} (hc : isPlain c) (hdouble : ¬ isPlain '"')
    (hsingle : ¬ isPlain '\'') (rest : List Char) : startsQuoted (c :: rest) = false := by
  have hne : c ≠ '"' := by
    rintro rfl
    exact hdouble hc
  have hne' : c ≠ '\'' := by
    rintro rfl
    exact hsingle hc
  simp [startsQuoted, hne, hne']

theorem readScalar_text (h : TextForm text written) (hrest : Ends rest) :
    readScalar (written ++ rest) = some (.text (String.ofList text), rest) := by
  have hquoted : startsQuoted (written ++ rest) := by
    obtain ⟨quotes, more, rfl⟩ := h.begins
    rcases mark_cases quotes with hmark | hmark <;> simp [startsQuoted, hmark]
  rw [readScalar, if_pos hquoted, readText_of_form h hrest.head?_ne_mark]
  rfl

theorem readValue_eq_readScalar (h : ∀ c ∈ text.head?, c ≠ '[' ∧ c ≠ '\x7b') (depth : Nat) :
    readValue depth text = readScalar text := by
  cases depth with
  | zero => rfl
  | succ depth =>
    unfold readValue
    split
    · exact absurd rfl (h _ rfl).1
    · exact absurd rfl (h _ rfl).2
    · rfl

theorem readValue_text (h : TextForm text written) (hrest : Ends rest) (depth : Nat) :
    readValue depth (written ++ rest) = some (.text (String.ofList text), rest) := by
  rw [readValue_eq_readScalar, readScalar_text h hrest]
  obtain ⟨quotes, more, rfl⟩ := h.begins
  rintro _ ⟨⟩
  cases quotes <;> decide

/-- A word is read up to the character that ends it, unless it may be the date of a moment. -/
theorem readScalar_word (hquoted : startsQuoted (text ++ rest) = false)
    (hword : ∀ c ∈ text, !endsWord c) (hdate : readDate text = none) (hrest : Ends rest) :
    readScalar (text ++ rest) = (valueOfWord? text).map fun value ↦ (value, rest) := by
  obtain ⟨htake, hdrop⟩ := takeWhile_dropWhile_append hword fun c hc ↦ by simpa using hrest c hc
  have hread : readWord (text ++ rest) = (text, rest) := by
    rw [readWord]
    simp only [htake, hdrop, hdate]
  simp only [readScalar, hquoted, hread]
  rfl

/-- A word of letters is read as the value that it stands for: nothing in it ends a word or stands
in a date. -/
theorem readScalar_letters (hne : text ≠ []) (hletters : ∀ c ∈ text, c.isAlpha)
    (hvalue : valueOfWord? text = some value) (hrest : Ends rest) :
    readScalar (text ++ rest) = some (value, rest) := by
  have hword : ∀ c ∈ text, !endsWord c := by
    intro c hc
    rw [Bool.not_eq_true', endsWord, decide_eq_false_iff_not]
    intro hends
    have hnone : ∀ c ∈ [' ', '\t', '\r', '\n', '#', ',', ']', '\x7d'], ¬ c.isAlpha :=
      List.all_iff_forall_prop.mp (by decide)
    exact hnone c hends (hletters c hc)
  obtain ⟨first, more, rfl⟩ := List.exists_cons_of_ne_nil hne
  have hfirst : first.isAlpha := hletters first List.mem_cons_self
  have hquoted : startsQuoted (first :: more ++ rest) = false :=
    startsQuoted_eq_false hfirst (by decide) (by decide) _
  have hdate : readDate (first :: more) = none := by
    have hpair : readPair 0 99 (first :: more) = none := by
      cases more with
      | nil => rfl
      | cons second more => simp [readPair, Text.not_isDigit_of_isAlpha hfirst]
    rw [readDate, hpair]
    rfl
  rw [readScalar_word hquoted hword hdate hrest, hvalue]
  rfl

theorem ItemsForm.length_lt (h : ItemsForm items written) : items.length < written.length := by
  induction h with
  | close => simp
  | last _ htext _ =>
    obtain ⟨quotes, more, rfl⟩ := htext.begins
    simp
    omega
  | next _ _ _ _ ih =>
    simp
    omega

/-- What can stand in a gap is neither a quote nor a bracket nor a comma. -/
theorem skipGap_append_of_head? (h : Gap gap)
    (hrest : ∀ c ∈ rest.head?, c ∈ ['"', '\'', ']', ',']) :
    skipGap false (gap ++ rest) = some rest := by
  refine skipGap_append h fun c hc ↦ ?_
  have hall : ∀ c ∈ ['"', '\'', ']', ','], ¬ isSpace c ∧ c ≠ '\n' ∧ c ≠ '\r' ∧ c ≠ '#' :=
    List.all_iff_forall_prop.mp (by decide)
  exact hall c (hrest c hc)

/-- An item is read with the comma or the bracket after it. -/
theorem readItems_item (hgap : Gap gap) (h : TextForm text written) {gap' : List Char}
    (hgap' : Gap gap') (hc : c = ']' ∨ c = ',') (depth fuel : Nat) (rest : List Char) :
    readItems (readValue depth) (fuel + 1) (gap ++ (written ++ (gap' ++ c :: rest))) =
      if c = ']' then some ([.text (String.ofList text)], rest)
      else (readItems (readValue depth) fuel rest).map fun (items, rest) ↦
        (.text (String.ofList text) :: items, rest) := by
  have hends : Ends (gap' ++ c :: rest) :=
    Ends.gap_append (ends_cons (by rcases hc with rfl | rfl <;> decide) rest) hgap'
  have hread := readValue_text h hends depth
  have hskip' : skipGap false (gap' ++ c :: rest) = some (c :: rest) := by
    refine skipGap_append_of_head? hgap' ?_
    rcases hc with rfl | rfl <;> simp
  obtain ⟨quotes, more, rfl⟩ := h.begins
  have hskip : skipGap false (gap ++ (quotes.mark :: more ++ (gap' ++ c :: rest))) =
      some (quotes.mark :: more ++ (gap' ++ c :: rest)) := by
    refine skipGap_append_of_head? hgap ?_
    rcases mark_cases quotes with hmark | hmark <;> simp [hmark]
  have hbracket : quotes.mark ≠ ']' := by cases quotes <;> decide
  rw [readItems, hskip, Option.bind_some]
  split
  next heq => exact absurd (List.cons.inj heq).1 hbracket
  next =>
    rw [hread, Option.bind_some]
    dsimp only
    rw [hskip', Option.bind_some]
    rcases hc with rfl | rfl
    · rfl
    · rfl

theorem readItems_of_form (h : ItemsForm items written) (hfuel : items.length < fuel)
    (depth : Nat) (rest : List Char) :
    readItems (readValue depth) fuel (written ++ rest) =
      some (items.map fun item ↦ .text (String.ofList item), rest) := by
  obtain ⟨fuel, rfl⟩ := Nat.exists_eq_add_one_of_ne_zero (Nat.ne_zero_of_lt hfuel)
  induction h generalizing fuel with
  | close hgap =>
    rw [List.append_assoc, readItems, skipGap_append_of_head? hgap (by simp)]
    rfl
  | last hgap htext hgap' =>
    simp only [List.append_assoc, List.cons_append, List.nil_append]
    rw [readItems_item hgap htext hgap' (Or.inl rfl)]
    rfl
  | next hgap htext hgap' _ ih =>
    simp only [List.append_assoc, List.cons_append]
    rw [readItems_item hgap htext hgap' (Or.inr rfl)]
    have hmore := Nat.lt_of_succ_lt_succ hfuel
    obtain ⟨fuel, rfl⟩ := Nat.exists_eq_add_one_of_ne_zero (Nat.ne_zero_of_lt hmore)
    rw [ih fuel hmore]
    rfl

/-- Every form of a value that is no table is read. -/
theorem readValue_of_form (h : ValueForm value written) (hrest : Ends rest) (depth : Nat) :
    readValue (depth + 1) (written ++ rest) = some (value, rest) := by
  cases h with
  | text htext => exact readValue_text htext hrest (depth + 1)
  | yes =>
    exact readScalar_letters (List.cons_ne_nil _ _) (List.all_iff_forall_prop.mp (by decide)) rfl
      hrest
  | no =>
    exact readScalar_letters (List.cons_ne_nil _ _) (List.all_iff_forall_prop.mp (by decide)) rfl
      hrest
  | @list items written hitems =>
    have hfuel : items.length < (written ++ rest).length + 1 := by
      have hlength := hitems.length_lt
      rw [List.length_append]
      omega
    have hread := readItems_of_form hitems hfuel depth rest
    rw [List.cons_append, readValue]
    simp only [hread]
    rfl

/-! ### Keys -/

/-- What follows a part of a key: a point, the sign of an assignment or the bracket of a header. -/
def EndsPart (rest : List Char) : Prop := ∀ c ∈ rest.head?, c ∈ ['.', '=', ']']

/-- The text begins with a quote or with a character of a key that needs none. -/
def BeginsKey (written : List Char) : Prop :=
  ∃ c more, written = c :: more ∧ (isKeyChar c ∨ c = '"' ∨ c = '\'')

theorem PartForm.begins (h : PartForm part written) : BeginsKey written := by
  cases h with
  | bare hne hchars =>
    obtain ⟨c, more, rfl⟩ := List.exists_cons_of_ne_nil hne
    exact ⟨c, more, rfl, Or.inl (hchars c List.mem_cons_self)⟩
  | quoted hline =>
    obtain ⟨quotes, more, rfl⟩ := (TextForm.line hline).begins
    exact ⟨_, more, rfl, Or.inr (mark_cases quotes)⟩

theorem not_isKeyChar_of_isSpace (h : isSpace c) : ¬ isKeyChar c := by
  simp only [isSpace, Bool.or_eq_true, beq_iff_eq] at h
  rcases h with rfl | rfl <;> decide

/-- What begins like a key begins with nothing else. -/
theorem BeginsKey.ne (h : BeginsKey written) (hc : ¬ isKeyChar c ∧ c ≠ '"' ∧ c ≠ '\'')
    (rest : List Char) : (written ++ rest).head? ≠ some c := by
  obtain ⟨first, more, rfl, hfirst⟩ := h
  rintro ⟨⟩
  exact hfirst.elim hc.1 fun hquote ↦ hquote.elim hc.2.1 hc.2.2

theorem BeginsKey.not_isSpace (h : BeginsKey written) (rest : List Char) :
    ∀ c ∈ (written ++ rest).head?, ¬ isSpace c := by
  rintro c hc hspace
  refine h.ne ⟨not_isKeyChar_of_isSpace hspace, ?_, ?_⟩ rest hc
  · rintro rfl
    exact absurd hspace (by decide)
  · rintro rfl
    exact absurd hspace (by decide)

theorem BeginsKey.append (h : BeginsKey written) (rest : List Char) :
    BeginsKey (written ++ rest) := by
  obtain ⟨c, more, rfl, hc⟩ := h
  exact ⟨c, more ++ rest, rfl, hc⟩

theorem readKeyPart_of_form (h : PartForm part written)
    (hrest : ∀ c ∈ rest.head?, ¬ isKeyChar c) :
    readKeyPart (written ++ rest) = some (part, rest) := by
  cases h with
  | @bare written hne hchars =>
    obtain ⟨htake, hdrop⟩ := takeWhile_dropWhile_append hchars hrest
    have hquoted : startsQuoted (written ++ rest) = false := by
      obtain ⟨c, more, rfl⟩ := List.exists_cons_of_ne_nil hne
      exact startsQuoted_eq_false (hchars c List.mem_cons_self) (by decide) (by decide) _
    simp [readKeyPart, hquoted, htake, hdrop, hne]
  | @quoted text written hline =>
    have hquoted : startsQuoted (written ++ rest) := by
      obtain ⟨quotes, more, rfl⟩ := (TextForm.line hline).begins
      rcases mark_cases quotes with hmark | hmark <;> simp [startsQuoted, hmark]
    rw [readKeyPart, if_pos hquoted, readLineText_of_form hline]
    rfl

/-- A part is read with the spaces before it, and the spaces after it are skipped. -/
theorem readKeyPart_spaces {spaces' : List Char} (hspaces : Spaces spaces)
    (h : PartForm part written) (hspaces' : Spaces spaces') (hrest : EndsPart rest) :
    readKeyPart (skipSpaces (spaces ++ (written ++ (spaces' ++ rest)))) =
        some (part, spaces' ++ rest) ∧
      skipSpaces (spaces' ++ rest) = rest := by
  have hends : ∀ c ∈ rest.head?, ¬ isSpace c ∧ ¬ isKeyChar c := fun c hc ↦ by
    have hall : ∀ c ∈ ['.', '=', ']'], ¬ isSpace c ∧ ¬ isKeyChar c :=
      List.all_iff_forall_prop.mp (by decide)
    exact hall c (hrest c hc)
  have hafter : ∀ c ∈ (spaces' ++ rest).head?, ¬ isKeyChar c := by
    cases spaces' with
    | nil => exact fun c hc ↦ (hends c hc).2
    | cons c spaces' =>
      rintro _ ⟨⟩
      exact not_isKeyChar_of_isSpace (hspaces' c List.mem_cons_self)
  rw [skipSpaces_append hspaces (h.begins.not_isSpace _), readKeyPart_of_form h hafter,
    skipSpaces_append hspaces' fun c hc ↦ (hends c hc).1]
  exact ⟨rfl, rfl⟩

theorem spaces_nil : Spaces [] := List.forall_mem_nil _

/-- The spaces in front of a key make no difference. -/
theorem KeyForm.exists_spaces (h : KeyForm key written) :
    ∃ spaces bare, written = spaces ++ bare ∧ Spaces spaces ∧ KeyForm key bare ∧
      BeginsKey bare := by
  cases h with
  | last hspaces hpart hspaces' =>
    exact ⟨_, _, rfl, hspaces, .last spaces_nil hpart hspaces', hpart.begins.append _⟩
  | next hspaces hpart hspaces' hkey =>
    exact ⟨_, _, rfl, hspaces, .next spaces_nil hpart hspaces' hkey, hpart.begins.append _⟩

/-- Every form of a key that does not have too many parts is read. -/
theorem readKey_of_form (h : KeyForm key written) (hparts : key.length ≤ parts)
    (hrest : ∀ c ∈ rest.head?, c ∈ ['=', ']']) :
    readKey parts (written ++ rest) = some (key, rest) := by
  induction h generalizing parts with
  | last hspaces hpart hspaces' =>
    obtain ⟨parts, rfl⟩ := Nat.exists_eq_add_of_le' hparts
    have hends : EndsPart rest := fun c hc ↦ List.mem_cons_of_mem _ (hrest c hc)
    obtain ⟨hread, hskip⟩ := readKeyPart_spaces hspaces hpart hspaces' hends
    simp only [List.append_assoc]
    rw [List.length_singleton, readKey, hread, Option.bind_some]
    dsimp only
    rw [hskip]
    split
    · exact absurd (hrest _ rfl) (by decide)
    · rfl
  | @next part key _ _ _ more hspaces hpart hspaces' hkey ih =>
    obtain ⟨parts, rfl⟩ : ∃ fewer, parts = fewer + 1 :=
      Nat.exists_eq_add_of_le' (Nat.le_trans (Nat.le_add_left 1 _) hparts)
    have hends : EndsPart ('.' :: (more ++ rest)) := by
      rintro _ ⟨⟩
      decide
    obtain ⟨hread, hskip⟩ := readKeyPart_spaces hspaces hpart hspaces' hends
    simp only [List.append_assoc, List.cons_append]
    rw [readKey, hread, Option.bind_some]
    dsimp only
    rw [hskip]
    change Option.map _ (readKey parts (more ++ rest)) = _
    rw [ih (Nat.le_of_succ_le_succ hparts)]
    rfl

/-! ### Assignments and tables -/

/-- An assignment is read up to the end of its value. -/
theorem readAssignment_of_form {name : List Char} {readValue : Reader Value}
    (hkey : KeyForm key name) (hparts : key.length ≤ maxDepth) (hspaces : Spaces spaces)
    (hstart : ∀ c ∈ text.head?, ¬ isSpace c) (hvalue : readValue text = some (value, rest)) :
    readAssignment readValue (name ++ '=' :: (spaces ++ text)) = some ((key, value), rest) := by
  rw [readAssignment, readKey_of_form hkey hparts (by rintro _ ⟨⟩; decide)]
  simp only [Option.bind_some, skipSpaces_append hspaces hstart, hvalue]
  rfl

theorem ValueForm.not_isSpace (h : ValueForm value written) (rest : List Char) :
    ∀ c ∈ (written ++ rest).head?, ¬ isSpace c := by
  cases h with
  | text htext =>
    obtain ⟨quotes, more, rfl⟩ := htext.begins
    rintro _ ⟨⟩
    cases quotes <;> decide
  | yes => rintro _ ⟨⟩; decide
  | no => rintro _ ⟨⟩; decide
  | list _ => rintro _ ⟨⟩; decide

theorem PairsForm.length_le (h : PairsForm entries written) : entries.length ≤ written.length := by
  induction h with
  | last =>
    simp
    omega
  | next _ _ _ _ _ ih =>
    simp
    omega

theorem PairsForm.exists_spaces (h : PairsForm entries written) :
    ∃ spaces bare, written = spaces ++ bare ∧ Spaces spaces ∧ PairsForm entries bare ∧
      BeginsKey bare := by
  cases h with
  | last hkey hspaces hvalue hspaces' =>
    obtain ⟨before, bare, rfl, hbefore, hkey, hbegins⟩ := hkey.exists_spaces
    exact ⟨before, _, List.append_assoc _ _ _, hbefore, .last hkey hspaces hvalue hspaces',
      hbegins.append _⟩
  | next hkey hspaces hvalue hspaces' hpairs =>
    obtain ⟨before, bare, rfl, hbefore, hkey, hbegins⟩ := hkey.exists_spaces
    exact ⟨before, _, List.append_assoc _ _ _, hbefore, .next hkey hspaces hvalue hspaces' hpairs,
      hbegins.append _⟩

/-- A pair is read, and the spaces after it are skipped. -/
theorem readAssignment_pair {name spaces' : List Char} {part : String} (hkey : KeyForm [part] name)
    (hspaces : Spaces spaces) (hvalue : ValueForm value written) (hspaces' : Spaces spaces')
    (hc : c = '\x7d' ∨ c = ',') (depth : Nat) (rest : List Char) :
    readAssignment (readValue (depth + 1))
        (name ++ '=' :: (spaces ++ (written ++ (spaces' ++ c :: rest)))) =
        some (([part], value), spaces' ++ c :: rest) ∧
      skipSpaces (spaces' ++ c :: rest) = c :: rest := by
  have hends : Ends (spaces' ++ c :: rest) :=
    Ends.spaces_append (ends_cons (by rcases hc with rfl | rfl <;> decide) rest) hspaces'
  refine ⟨readAssignment_of_form hkey (Nat.le_add_left 1 78) hspaces (hvalue.not_isSpace _)
    (readValue_of_form hvalue hends depth), skipSpaces_append hspaces' ?_⟩
  rintro _ ⟨⟩
  rcases hc with rfl | rfl <;> decide

theorem readPairs_of_form (h : PairsForm entries written) (hfuel : entries.length ≤ fuel)
    (depth : Nat) (rest : List Char) :
    readPairs (readValue (depth + 1)) fuel (written ++ rest) =
      some (entries.map fun entry ↦ ([entry.1], entry.2), rest) := by
  induction h generalizing fuel with
  | last hkey hspaces hvalue hspaces' =>
    obtain ⟨fuel, rfl⟩ := Nat.exists_eq_add_of_le' hfuel
    obtain ⟨hread, hskip⟩ :=
      readAssignment_pair hkey hspaces hvalue hspaces' (Or.inl rfl) depth rest
    simp only [List.append_assoc, List.cons_append, List.nil_append]
    rw [List.length_singleton, readPairs, hread, Option.bind_some]
    dsimp only
    rw [hskip]
    rfl
  | @next part value _ _ _ _ more entries hkey hspaces hvalue hspaces' _ ih =>
    obtain ⟨fuel, rfl⟩ : ∃ less, fuel = less + 1 :=
      Nat.exists_eq_add_of_le' (Nat.le_trans (Nat.le_add_left 1 _) hfuel)
    obtain ⟨hread, hskip⟩ :=
      readAssignment_pair hkey hspaces hvalue hspaces' (Or.inr rfl) depth (more ++ rest)
    simp only [List.append_assoc, List.cons_append]
    rw [readPairs, hread, Option.bind_some]
    dsimp only
    rw [hskip]
    change Option.map _ (readPairs _ fuel (more ++ rest)) = _
    rw [ih (Nat.le_of_succ_le_succ hfuel)]
    rfl

/-- Every form of a table with different keys is read. -/
theorem readValue_of_bracedForm (h : BracedForm entries written) (depth : Nat) (rest : List Char) :
    readValue (depth + 2) (written ++ rest) = some (.table .braced entries, rest) := by
  cases h with
  | @empty spaces hspaces =>
    have hskip : skipSpaces (spaces ++ '\x7d' :: rest) = '\x7d' :: rest :=
      skipSpaces_append hspaces (by rintro _ ⟨⟩; decide)
    simp only [List.append_assoc, List.cons_append, List.nil_append]
    rw [readValue]
    dsimp only
    rw [hskip]
    rfl
  | pairs hpairs hnodup =>
    obtain ⟨spaces, bare, rfl, hspaces, hpairs, hbegins⟩ := hpairs.exists_spaces
    have hskip : skipSpaces (spaces ++ (bare ++ rest)) = bare ++ rest :=
      skipSpaces_append hspaces (hbegins.not_isSpace _)
    have hfuel : entries.length ≤ (bare ++ rest).length := by
      have hlength := hpairs.length_le
      rw [List.length_append]
      omega
    have hread := readPairs_of_form hpairs hfuel depth rest
    have hassign : assignAll (entries.map fun entry ↦ ([entry.1], entry.2)) [] =
        some ([] ++ entries) :=
      assignAll_of_nodup (by simpa using hnodup)
    rw [List.cons_append, List.append_assoc, readValue]
    dsimp only
    rw [hskip]
    split
    next heq =>
      refine absurd ?_ (hbegins.ne (c := '\x7d') (by decide) rest)
      rw [heq, List.head?_cons]
    next =>
      rw [hread, Option.bind_some]
      dsimp only
      rw [hassign]
      rfl

end Montage.Toml
