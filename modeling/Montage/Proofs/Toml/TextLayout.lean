import Mathlib.Data.List.SplitBy
import Montage.Proofs.Toml.TextForms

/-!
# The form that a text is written in

Whatever quotes are chosen for a text, what is written between them is a body of this text. Between
double quotes everything that cannot stand for itself is escaped (`body_escapeLines`). Single quotes
escape nothing, so they are only right for the texts that they are chosen for: three of them for
texts in which no three stand in a row, which is what the lengths of the runs say
(`body_of_longestRun`). So a text is written in one of its forms (`textForm_textChars`).
-/

set_option autoImplicit false
set_option relaxedAutoImplicit false

namespace Montage.Toml

variable {quotes : Quotes} {c : Char} {count n : Nat}
  {text written rest digits : List Char} {runs : List (List Char)}

/-! ### Escapes -/

theorem isCode_replicate_zero (count : Nat) : IsCode (List.replicate count '0') 0 := by
  induction count with
  | zero => exact .nil
  | succ count ih =>
    rw [List.replicate_succ']
    exact ih.concat (show hexDigit? '0' = some 0 from rfl)

theorem IsCode.zeros_append (h : IsCode digits n) (count : Nat) :
    IsCode (List.replicate count '0' ++ digits) n := by
  induction h with
  | nil =>
    rw [List.append_nil]
    exact isCode_replicate_zero count
  | concat _ hdigit ih =>
    rw [← List.append_assoc]
    exact ih.concat hdigit

theorem hexDigit?_digitChar :
    ∀ value < 16, hexDigit? (Nat.digitChar value).toUpper = some value := by
  decide

theorem isCode_toDigits (n : Nat) : IsCode ((Nat.toDigits 16 n).map Char.toUpper) n := by
  induction n using Nat.strongRecOn with
  | ind n ih =>
    by_cases hsmall : n < 16
    · have hcode := IsCode.nil.concat (hexDigit?_digitChar n hsmall)
      simpa [Nat.toDigits_of_lt_base hsmall] using hcode
    · have hdigits := Nat.toDigits_append_toDigits (b := 16) (n := n / 16) (d := n % 16)
        (by decide) (by omega) (by omega)
      rw [Nat.toDigits_of_lt_base (Nat.mod_lt n (by decide)), Nat.div_add_mod] at hdigits
      have hcode := (ih (n / 16) (by omega)).concat (hexDigit?_digitChar (n % 16) (by omega))
      rw [Nat.div_add_mod] at hcode
      simpa [← hdigits] using hcode

theorem toNat_lt_of_needsCode (h : needsCode c) : c.toNat < 0x80 := by
  unfold needsCode at h
  simp only [Bool.or_eq_true, Bool.and_eq_true, decide_eq_true_eq, beq_iff_eq] at h
  rcases h with ⟨⟨h, -⟩, -⟩ | rfl
  · omega
  · decide

theorem exists_escape_codeEscape (h : needsCode c) :
    ∃ code, codeEscape c = '\\' :: code ∧ Escape c code := by
  refine ⟨_, rfl, .short ?_ ((isCode_toDigits c.toNat).zeros_append _)⟩
  have hlength : (Nat.toDigits 16 c.toNat).length ≤ 4 :=
    (Nat.length_toDigits_le_iff (by decide) (by decide)).mpr
      (Nat.lt_trans (toNat_lt_of_needsCode h) (by decide))
  simp only [List.append_eq, List.length_append, List.length_replicate, List.length_map]
  omega

/-- What needs no escape is the line feed or can stand for itself. -/
theorem isVisible_of_not_needsCode (h : ¬ needsCode c) (hfeed : c ≠ '\n') : isVisible c := by
  have hdelete : c = '\x7f' ↔ c.toNat = 0x7F :=
    ⟨fun hc ↦ by rw [hc]; rfl, fun hc ↦ by rw [← Char.ofNat_toNat c, hc]⟩
  simp only [needsCode, Bool.or_eq_true, Bool.and_eq_true, decide_eq_true_eq, bne_iff_ne,
    beq_iff_eq, not_or, not_and] at h
  simp only [isVisible, Bool.or_eq_true, Bool.and_eq_true, decide_eq_true_eq, beq_iff_eq]
  rw [hdelete] at h
  by_cases htab : c = '\t'
  · exact Or.inl htab
  · refine Or.inr ⟨?_, h.2⟩
    by_contra hsmall
    exact h.1 ⟨by omega, htab⟩ hfeed

/-- A character between double quotes is escaped or stands for itself. -/
theorem escapeChar_cases (c : Char) :
    (∃ code, escapeChar c = '\\' :: code ∧ Escape c code) ∨
      escapeChar c = [c] ∧ Plain .double c := by
  unfold escapeChar
  split
  · exact Or.inl ⟨_, rfl, .letter (by decide)⟩
  · exact Or.inl ⟨_, rfl, .letter (by decide)⟩
  · exact Or.inl ⟨_, rfl, .letter (by decide)⟩
  · exact Or.inl ⟨_, rfl, .letter (by decide)⟩
  · exact Or.inl ⟨_, rfl, .letter (by decide)⟩
  · exact Or.inl ⟨_, rfl, .letter (by decide)⟩
  · exact Or.inl ⟨_, rfl, .letter (by decide)⟩
  · split_ifs with hcode
    · exact Or.inl (exists_escape_codeEscape hcode)
    · refine Or.inr ⟨rfl, isVisible_of_not_needsCode hcode ?_, ?_, fun _ ↦ ?_⟩
      all_goals assumption

theorem Body.escapeChar (h : Body quotes 0 text written) (hescapes : quotes.escapes) :
    Body quotes count (c :: text) (escapeChar c ++ written) := by
  rcases escapeChar_cases c with ⟨code, hchars, hescape⟩ | ⟨hchars, hplain⟩
  · rw [hchars]
    exact .escape hescapes hescape h
  · rw [hchars]
    have hmark : quotes.mark = '"' := by rcases eq_of_escapes hescapes with rfl | rfl <;> rfl
    exact .plain ⟨hplain.visible, hmark ▸ hplain.ne_mark, fun _ ↦ hplain.ne_backslash rfl⟩ h

theorem body_flatMap_escapeChar (text : List Char) :
    Body .double 0 text (text.flatMap escapeChar) := by
  induction text with
  | nil => exact .nil
  | cons c text ih => exact ih.escapeChar rfl

theorem body_escapeLines (hcount : count ≤ 2) :
    Body .tripleDouble count text (escapeLines count text) := by
  fun_induction escapeLines count text with
  | case1 => exact .nil
  | case2 rest ih =>
    have hquote : Escape '"' ['"'] := .letter (by decide)
    exact .escape rfl hquote (ih (by decide))
  | case3 count rest hne ih => exact @Body.mark .tripleDouble _ _ _ rfl (by omega) (ih (by omega))
  | case4 _ rest ih => exact .feed rfl .feed (ih (by decide))
  | case5 _ c rest _ _ ih => exact (ih (by decide)).escapeChar rfl

/-! ### Single quotes -/

theorem body_of_forall_plain (h : ∀ c ∈ text, Plain quotes c) : Body quotes count text text := by
  induction text generalizing count with
  | nil => exact .nil
  | cons c text ih =>
    obtain ⟨hc, htext⟩ := List.forall_mem_cons.mp h
    exact .plain hc (ih htext)

/-- The character is no control but a tab or a line feed. -/
def Uncoded (c : Char) : Prop := c = '\n' ∨ isVisible c

/-- The number of quotes before a body does not matter if it does not begin with a quote. -/
theorem Body.recount (h : Body quotes 0 text written) (hne : written.head? ≠ some quotes.mark) :
    Body quotes count text written := by
  cases h with
  | nil => exact .nil
  | plain hplain hbody => exact .plain hplain hbody
  | mark _ _ _ => exact absurd rfl hne
  | escape hescapes hescape hbody => exact .escape hescapes hescape hbody
  | feed hspans hending hbody => exact .feed hspans hending hbody
  | join hspans hescapes hspaces hending hblanks hnext hbody =>
    exact .join hspans hescapes hspaces hending hblanks hnext hbody

/-- Any number of other characters in a row may stand before a body between single quotes. -/
theorem body_replicate_append (hc : Uncoded c) (hne : c ≠ '\'')
    (h : Body .tripleSingle 0 rest rest) (n : Nat) :
    Body .tripleSingle 0 (List.replicate n c ++ rest) (List.replicate n c ++ rest) := by
  induction n with
  | zero => exact h
  | succ n ih =>
    rw [List.replicate_succ, List.cons_append]
    rcases hc with rfl | hvisible
    · exact .feed rfl .feed ih
    · exact .plain ⟨hvisible, hne, fun hescapes ↦ by cases hescapes⟩ ih

/-- One or two quotes may stand before a body that does not begin with one. -/
theorem body_marks_append (hne : rest.head? ≠ some '\'') (h : Body .tripleSingle 0 rest rest)
    (hn : n ≤ 2) :
    Body .tripleSingle 0 (List.replicate n '\'' ++ rest) (List.replicate n '\'' ++ rest) := by
  match n, hn with
  | 0, _ => exact h
  | 1, _ => exact @Body.mark .tripleSingle _ _ _ rfl (by decide) (h.recount hne)
  | 2, _ =>
    have hone := @Body.mark .tripleSingle 1 _ _ rfl (by decide) (h.recount hne)
    exact @Body.mark .tripleSingle 0 _ _ rfl (by decide) hone

/-- The runs of a text are a body if none of them is three quotes long. -/
theorem body_flatten (hruns : ∀ run ∈ runs, ∃ c n, run = List.replicate n c ∧ Uncoded c ∧
      (c = '\'' → n ≤ 2))
    (hdiffer : runs.IsChain fun run next ↦
      ∃ hrun hnext, (run.getLast hrun == next.head hnext) = false) :
    Body .tripleSingle 0 runs.flatten runs.flatten := by
  induction runs with
  | nil => exact .nil
  | cons run runs ih =>
    obtain ⟨⟨c, n, rfl, hc, hlength⟩, hrest⟩ := List.forall_mem_cons.mp hruns
    have hbody := ih hrest hdiffer.tail
    rw [List.flatten_cons]
    by_cases hmark : c = '\''
    · subst hmark
      refine body_marks_append (fun hhead ↦ ?_) hbody (hlength rfl)
      cases runs with
      | nil => cases hhead
      | cons next runs =>
        obtain ⟨hrun, hnext, hne⟩ := (List.isChain_cons_cons.mp hdiffer).1
        rw [List.flatten_cons, List.head?_append_of_ne_nil _ hnext,
          List.head?_eq_some_head hnext] at hhead
        simp [Option.some.inj hhead] at hne
    · exact body_replicate_append hc hmark hbody n

theorem length_le_longestRun {run : List Char} (hrun : run ∈ text.splitBy (· == ·))
    (hhead : run.head? = some c) : run.length ≤ longestRun c text := by
  rw [longestRun, List.foldl_max]
  refine (List.le_max?_getD_of_mem (List.mem_map.mpr ⟨run, hrun, ?_⟩)).trans (Nat.le_max_right _ _)
  rw [if_pos hhead]

/-- A text without three single quotes in a row may stand between three of them. -/
theorem body_of_longestRun (h : ∀ c ∈ text, Uncoded c) (hrun : longestRun '\'' text ≤ 2) :
    Body .tripleSingle 0 text text := by
  have hflatten := List.flatten_splitBy (· == ·) text
  have hbody : Body .tripleSingle 0 (text.splitBy (· == ·)).flatten
      (text.splitBy (· == ·)).flatten := by
    refine body_flatten (fun run hmem ↦ ?_) (List.isChain_getLast_head_splitBy _ text)
    obtain ⟨c, more, rfl⟩ := List.exists_cons_of_ne_nil (List.ne_nil_of_mem_splitBy hmem)
    have hchain : (c :: more).IsChain (· = ·) :=
      (List.isChain_of_mem_splitBy hmem).imp fun _ _ hsame ↦ eq_of_beq hsame
    refine ⟨c, (c :: more).length, List.isChain_eq_iff_eq_replicate.mp hchain c rfl, ?_, ?_⟩
    · refine h c ?_
      rw [← hflatten]
      exact List.mem_flatten.mpr ⟨_, hmem, List.mem_cons_self⟩
    · rintro rfl
      exact (length_le_longestRun hmem rfl).trans hrun
  rwa [hflatten] at hbody

/-! ### Texts -/

theorem uncoded_of_any_eq_false (h : text.any needsCode = false) : ∀ c ∈ text, Uncoded c := by
  intro c hc
  by_cases hfeed : c = '\n'
  · exact Or.inl hfeed
  · exact Or.inr (isVisible_of_not_needsCode (List.any_eq_false.mp h c hc) hfeed)

/-- Single quotes are only chosen for what can stand between them. -/
theorem forall_plain_of_eq_single (h : Quotes.of text = .single) : ∀ c ∈ text, Plain .single c := by
  unfold Quotes.of at h
  dsimp only at h
  split_ifs at h with hdouble hsingle
  simp only [Bool.and_eq_true, Bool.not_eq_true', List.contains_eq_mem, decide_eq_false_iff_not]
    at hsingle
  obtain ⟨⟨hcoded, hlines⟩, hquote⟩ := hsingle
  intro c hc
  have hfeed : c ≠ '\n' := fun hfeed ↦ hlines (hfeed ▸ hc)
  have hmark : c ≠ '\'' := fun hmark ↦ hquote (hmark ▸ hc)
  exact ⟨(uncoded_of_any_eq_false hcoded c hc).resolve_left hfeed, hmark,
    fun hescapes ↦ by cases hescapes⟩

/-- Three single quotes are only chosen for a text in which no three stand in a row. -/
theorem uncoded_of_eq_tripleSingle (h : Quotes.of text = .tripleSingle) :
    (∀ c ∈ text, Uncoded c) ∧ longestRun '\'' text ≤ 2 := by
  unfold Quotes.of at h
  dsimp only at h
  split_ifs at h with hdouble hsingle htripleDouble htripleSingle
  simp only [Bool.and_eq_true, Bool.not_eq_true', decide_eq_true_eq] at htripleSingle
  exact ⟨uncoded_of_any_eq_false htripleSingle.1, htripleSingle.2⟩

/-- Without a line feed in the text, no line end begins what is written for it. -/
theorem forall_head?_escapeLines (h : '\n' ∉ text) :
    ∀ c ∈ (escapeLines 0 text).head?, c ≠ '\n' ∧ c ≠ '\r' := by
  unfold escapeLines
  split
  next => simp
  next => simp
  next => exact absurd List.mem_cons_self h
  next c rest _ _ =>
    rcases escapeChar_cases c with ⟨code, hchars, -⟩ | ⟨hchars, hplain⟩
    · rw [hchars]
      simp
    · rw [hchars]
      simpa using ne_of_isVisible hplain.visible

/-- A text is written in one of its forms. -/
theorem textForm_textChars (text : List Char) : TextForm text (textChars text) := by
  have hopening (quotes : Quotes) {written : List Char} (hspans : quotes.spansLines)
      (hbody : Body quotes 0 text written)
      (hstart : '\n' ∉ text → ∀ c ∈ written.head?, c ≠ '\n' ∧ c ≠ '\r') :
      TextForm text (quotes.delimiter ++ ((if text.contains '\n' then ['\n'] else []) ++
        (written ++ quotes.delimiter))) := by
    refine .lines hspans ?_ hbody
    split_ifs with hfeed
    · exact Or.inl .feed
    · exact Or.inr ⟨rfl, hstart (by simpa using hfeed)⟩
  unfold textChars
  dsimp only
  cases hquotes : Quotes.of text with
  | double => exact .line (@LineForm.intro .double _ _ rfl (body_flatMap_escapeChar text))
  | single =>
    exact .line (@LineForm.intro .single _ _ rfl
      (body_of_forall_plain (forall_plain_of_eq_single hquotes)))
  | tripleDouble =>
    simp only [List.append_assoc]
    exact hopening .tripleDouble rfl (body_escapeLines (by decide))
      forall_head?_escapeLines
  | tripleSingle =>
    obtain ⟨huncoded, hrun⟩ := uncoded_of_eq_tripleSingle hquotes
    simp only [List.append_assoc]
    refine hopening .tripleSingle rfl (body_of_longestRun huncoded hrun) ?_
    intro hfeed c hc
    have hmem := List.mem_of_mem_head? hc
    exact ne_of_isVisible ((huncoded c hmem).resolve_left fun heq ↦ hfeed (heq ▸ hmem))

end Montage.Toml
