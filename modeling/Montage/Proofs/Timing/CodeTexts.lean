import Montage.Proofs.Timing.RunNames

/-!
# Texts of run codes

A code is written as letters of the alphabet and digits (`CodeText.WellFormed`), with blanks around
it. These texts are read and no others (`ofText_eq_ok_iff`): the first digit ends the team, so the
letters and the digits of a text are known from it, and the digits must give a counter. The letters
are taken in lower case, so a code made from any letters of the alphabet is read from its own text
(`ofText_toText_ofTeam`).

Two texts give one code exactly if they differ in the case of their letters and in zeros in front of
their numbers only (`Alike`), because numerals of one value differ in nothing else
(`Numeric.eq_zeros_append`). All of this together is `ofText_accepts_exactly`.
-/

set_option autoImplicit false
set_option relaxedAutoImplicit false

namespace Montage.Timing

open Numeric

/-- A written code, part by part. -/
structure CodeText where
  /-- The letters of the team. -/
  team : List Char
  /-- The digits of the counter. -/
  digits : List Char

namespace CodeText

/-- The characters of the code. -/
def text (parts : CodeText) : List Char := parts.team ++ parts.digits

/-- The code that is written. -/
def code (parts : CodeText) : RunCode :=
  ⟨String.ofList (parts.team.map Char.toLower), digitsValue parts.digits⟩

/-- There are letters of the alphabet and digits from zero to nine, and the digits give a
counter. -/
structure WellFormed (parts : CodeText) : Prop where
  team_ne_nil : parts.team ≠ []
  isAlpha : ∀ c ∈ parts.team, c.isAlpha
  digits_ne_nil : parts.digits ≠ []
  isDigit : ∀ c ∈ parts.digits, c.isDigit
  counter_le : digitsValue parts.digits ≤ maxCounter

instance : DecidablePred WellFormed := fun parts ↦
  decidable_of_iff ((parts.team ≠ [] ∧ parts.team.all Char.isAlpha) ∧ parts.digits ≠ [] ∧
      parts.digits.all Char.isDigit ∧ digitsValue parts.digits ≤ maxCounter)
    ⟨fun ⟨⟨hteam, halpha⟩, hdigits, hdigit, hle⟩ ↦
        ⟨hteam, List.all_eq_true.mp halpha, hdigits, List.all_eq_true.mp hdigit, hle⟩,
      fun h ↦ ⟨⟨h.team_ne_nil, List.all_eq_true.mpr h.isAlpha⟩, h.digits_ne_nil,
        List.all_eq_true.mpr h.isDigit, h.counter_le⟩⟩

variable {parts more : CodeText}

theorem ofTeam_eq_code (parts : CodeText) :
    RunCode.ofTeam (String.ofList parts.team) (digitsValue parts.digits) = parts.code := by
  apply congrArg₂ RunCode.mk
  · apply String.toList_injective
    rw [String.toList_map, String.toList_ofList, String.toList_ofList]
  · rfl

/-- The first digit of letters and digits is where the digits begin. -/
theorem spans_append {team digits : List Char} (hteam : ∀ c ∈ team, c.isAlpha)
    (hdigits : ∀ c ∈ digits, c.isDigit) :
    (team ++ digits).takeWhile (!·.isDigit) = team ∧
      (team ++ digits).dropWhile (!·.isDigit) = digits := by
  have hletters : ∀ c ∈ team, (!c.isDigit) = true := by
    intro c hc
    rw [Text.not_isDigit_of_isAlpha (hteam c hc)]
    rfl
  have hnone : digits.takeWhile (!·.isDigit) = [] ∧ digits.dropWhile (!·.isDigit) = digits := by
    rw [List.takeWhile_eq_nil_iff, List.dropWhile_eq_self_iff]
    have hfirst (hpositive : 0 < digits.length) : ¬ (!digits[0].isDigit) = true := by
      simp [hdigits _ (List.getElem_mem hpositive)]
    exact ⟨hfirst, hfirst⟩
  rw [List.takeWhile_append_of_pos hletters, List.dropWhile_append_of_pos hletters, hnone.1,
    hnone.2, List.append_nil]
  exact ⟨rfl, rfl⟩

theorem WellFormed.spans (h : parts.WellFormed) :
    parts.text.takeWhile (!·.isDigit) = parts.team ∧
      parts.text.dropWhile (!·.isDigit) = parts.digits :=
  spans_append h.isAlpha h.isDigit

/-- Letters and digits are the parts of a code in one way only. -/
theorem WellFormed.eq_of_text_eq (h : parts.WellFormed) {team digits : List Char}
    (hteam : ∀ c ∈ team, c.isAlpha) (hdigits : ∀ c ∈ digits, c.isDigit)
    (htext : parts.text = team ++ digits) : parts.team = team ∧ parts.digits = digits := by
  obtain ⟨htaken, hleft⟩ := h.spans
  obtain ⟨htaken', hleft'⟩ := spans_append hteam hdigits
  rw [htext] at htaken hleft
  exact ⟨htaken.symm.trans htaken', hleft.symm.trans hleft'⟩

end CodeText

/-- The texts differ in the case of their letters and in zeros in front of their numbers only. -/
def Alike (text other : List Char) : Prop :=
  ∃ team team' digits : List Char, ∃ zeros zeros' : Nat,
    (∀ c ∈ team ++ team', c.isAlpha) ∧ (∀ c ∈ digits, c.isDigit) ∧
      team.map Char.toLower = team'.map Char.toLower ∧
      text = team ++ (List.replicate zeros '0' ++ digits) ∧
      other = team' ++ (List.replicate zeros' '0' ++ digits)

theorem Alike.symm {text other : List Char} (h : Alike text other) : Alike other text := by
  obtain ⟨team, team', digits, zeros, zeros', halpha, hdigits, hlower, htext, hother⟩ := h
  refine ⟨team', team, digits, zeros', zeros, fun c hc ↦ ?_, hdigits, hlower.symm, hother, htext⟩
  exact halpha c (List.mem_append.mpr (List.mem_append.mp hc).symm)

namespace RunCode

variable {text other : String} {code : RunCode} {parts more : CodeText}

/-! ### Codes that are read -/

theorem ofText?_eq_some_iff :
    ofText? text = some code ↔
      ∃ parts : CodeText, parts.WellFormed ∧ Text.trim text.toList = parts.text ∧
        parts.code = code := by
  constructor
  · intro h
    unfold ofText? at h
    dsimp only at h
    split_ifs at h with hteam
    obtain ⟨counter, hcounter, hcode⟩ := Option.map_eq_some_iff.mp h
    obtain ⟨⟨hne, hdigit, hle⟩, rfl⟩ := counter?_eq_some_iff.mp hcounter
    refine ⟨⟨_, _⟩, ⟨hteam.1, List.all_eq_true.mp hteam.2, hne, hdigit, hle⟩,
      List.takeWhile_append_dropWhile.symm, ?_⟩
    rw [← hcode, ← CodeText.ofTeam_eq_code]
  · rintro ⟨parts, hparts, htext, rfl⟩
    obtain ⟨hteam, hdigits⟩ := hparts.spans
    have hletters : parts.team ≠ [] ∧ parts.team.all Char.isAlpha :=
      ⟨hparts.team_ne_nil, List.all_eq_true.mpr hparts.isAlpha⟩
    have hcounter : counter? parts.digits = some (digitsValue parts.digits) :=
      counter?_eq_some_iff.mpr ⟨⟨hparts.digits_ne_nil, hparts.isDigit, hparts.counter_le⟩, rfl⟩
    rw [ofText?, htext, hteam, hdigits, if_pos hletters, hcounter, Option.map_some,
      CodeText.ofTeam_eq_code]

theorem ofText_eq_ok_iff :
    ofText text = .ok code ↔
      ∃ parts : CodeText, parts.WellFormed ∧ Text.trim text.toList = parts.text ∧
        parts.code = code := by
  rw [← ofText?_eq_some_iff, ofText]
  cases ofText? text with
  | none => simp
  | some found => simp

/-- What is not read is malformed. -/
theorem ofText_eq_error (h : ∀ code, ofText text ≠ .ok code) :
    ofText text = .error (.malformedRunCode (String.ofList (Text.trim text.toList))) := by
  unfold ofText at h ⊢
  cases hread : ofText? text with
  | none => rfl
  | some code =>
    rw [hread] at h
    exact absurd rfl (h code)

/-- A code made from letters of the alphabet is read from its text. -/
theorem ofText_toText_ofTeam {team : String} {counter : Nat} (hne : team.toList ≠ [])
    (halpha : ∀ c ∈ team.toList, c.isAlpha) (hcounter : counter ≤ maxCounter) :
    ofText (ofTeam team counter).toText = .ok (ofTeam team counter) := by
  let lower : CodeText := ⟨team.toList.map Char.toLower, Decimal.digitsOf counter⟩
  have hlower : lower.WellFormed := by
    refine ⟨fun hnil ↦ hne (List.map_eq_nil_iff.mp hnil), ?_, digitsOf_ne_nil counter,
      fun c ↦ isDigit_of_mem_digitsOf, ?_⟩
    · refine List.forall_mem_map.mpr fun c hc ↦ ?_
      rw [Text.isAlpha_toLower]
      exact halpha c hc
    · rwa [digitsValue_digitsOf]
  have htext : (ofTeam team counter).toText.toList = lower.text := by
    rw [toList_toText, ofTeam, String.toList_map]
    rfl
  refine ofText_eq_ok_iff.mpr ⟨lower, hlower, ?_, ?_⟩
  · rw [htext]
    refine Text.trim_eq_self fun c hc ↦ ?_
    rcases List.mem_append.mp hc with hletter | hdigit
    · exact not_isBlank_of_isTeamLetter (isTeamLetter_iff.mpr (Or.inl (hlower.isAlpha c hletter)))
    · exact Text.not_isBlank_of_isDigit (hlower.isDigit c hdigit)
  · -- The letters are in lower case already, so reading changes none of them.
    apply congrArg₂ RunCode.mk
    · apply String.toList_injective
      rw [String.toList_ofList, String.toList_map, List.map_map]
      exact List.map_congr_left fun c _ ↦ Text.toLower_toLower c
    · exact digitsValue_digitsOf counter

/-! ### Texts of one code -/

/-- Codes are the same if their texts are alike. -/
theorem code_eq_of_alike (hparts : parts.WellFormed) (hmore : more.WellFormed)
    (h : Alike parts.text more.text) : parts.code = more.code := by
  obtain ⟨team, team', digits, zeros, zeros', halpha, hdigits, hlower, htext, hother⟩ := h
  obtain ⟨hteam, hteam'⟩ := List.forall_mem_append.mp halpha
  have hnumeral (count : Nat) : ∀ c ∈ List.replicate count '0' ++ digits, c.isDigit := by
    refine List.forall_mem_append.mpr ⟨fun c hc ↦ ?_, hdigits⟩
    rw [List.eq_of_mem_replicate hc]
    rfl
  have hvalue (count : Nat) :
      digitsValue (List.replicate count '0' ++ digits) = digitsValue digits := by
    rw [digitsValue_append, digitsValue_replicate_zero, Nat.zero_mul, Nat.zero_add]
  obtain ⟨hletters, hnumber⟩ := hparts.eq_of_text_eq hteam (hnumeral zeros) htext
  obtain ⟨hletters', hnumber'⟩ := hmore.eq_of_text_eq hteam' (hnumeral zeros') hother
  rw [CodeText.code, CodeText.code, hletters, hletters', hlower, hnumber, hnumber', hvalue, hvalue]

/-- Texts of one code are alike, here if the number of the first is not longer. -/
theorem alike_of_code_eq_of_le (hparts : parts.WellFormed) (hmore : more.WellFormed)
    (h : parts.code = more.code) (hle : parts.digits.length ≤ more.digits.length) :
    Alike parts.text more.text := by
  obtain ⟨hteam, hvalue⟩ := RunCode.mk.inj h
  refine ⟨parts.team, more.team, parts.digits, 0, more.digits.length - parts.digits.length,
    List.forall_mem_append.mpr ⟨hparts.isAlpha, hmore.isAlpha⟩, hparts.isDigit,
    String.ofList_inj.mp hteam, rfl, ?_⟩
  rw [CodeText.text, ← eq_zeros_append hparts.isDigit hmore.isDigit hle hvalue]

theorem code_eq_iff_alike (hparts : parts.WellFormed) (hmore : more.WellFormed) :
    parts.code = more.code ↔ Alike parts.text more.text := by
  refine ⟨fun h ↦ ?_, code_eq_of_alike hparts hmore⟩
  rcases Nat.le_total parts.digits.length more.digits.length with hle | hle
  · exact alike_of_code_eq_of_le hparts hmore h hle
  · exact (alike_of_code_eq_of_le hmore hparts h.symm hle).symm

/-! ### The grammar -/

/-- A text is read as a code exactly if it is letters and digits that give a counter, with blanks
around them; the letters are taken in lower case, and every other text is malformed. A code that is
made from letters of the alphabet is read from its own text. Two texts that are read give one code
exactly if they are alike without their blanks. -/
theorem ofText_accepts_exactly :
    (∀ text code, ofText text = .ok code ↔
        ∃ parts : CodeText, parts.WellFormed ∧ Text.trim text.toList = parts.text ∧
          parts.code = code) ∧
      (∀ text, (∀ code, ofText text ≠ .ok code) →
        ofText text = .error (.malformedRunCode (String.ofList (Text.trim text.toList)))) ∧
      (∀ (team : String) (counter : Nat), team.toList ≠ [] → (∀ c ∈ team.toList, c.isAlpha) →
        counter ≤ maxCounter → ofText (ofTeam team counter).toText = .ok (ofTeam team counter)) ∧
      ∀ text other code code', ofText text = .ok code → ofText other = .ok code' →
        (code = code' ↔ Alike (Text.trim text.toList) (Text.trim other.toList)) := by
  refine ⟨fun _ _ ↦ ofText_eq_ok_iff, fun _ ↦ ofText_eq_error,
    fun _ _ ↦ ofText_toText_ofTeam, ?_⟩
  intro text other code code' htext hother
  obtain ⟨parts, hparts, hchars, rfl⟩ := ofText_eq_ok_iff.mp htext
  obtain ⟨more, hmore, hchars', rfl⟩ := ofText_eq_ok_iff.mp hother
  rw [hchars, hchars']
  exact code_eq_iff_alike hparts hmore

/-- The greatest counter is read, also behind zeros and in a text with blanks, and the next number
is not. -/
theorem ofText_accepts_exactly_sample :
    ofText " Ab0004294967295\u2003" = .ok (ofTeam "aB" 4294967295) ∧
      ofText (ofTeam "aB" 4294967295).toText = .ok (ofTeam "aB" 4294967295) ∧
      ofText "ab4294967296" = .error (.malformedRunCode "ab4294967296") ∧
      Alike (Text.trim " Ab0004294967295\u2003".toList)
        (Text.trim (ofTeam "aB" 4294967295).toText.toList) := by
  obtain ⟨hread, hmalformed, hown, halike⟩ := ofText_accepts_exactly
  have htext : ofText " Ab0004294967295\u2003" = .ok (ofTeam "aB" 4294967295) :=
    (hread _ _).mpr ⟨⟨"Ab".toList, "0004294967295".toList⟩, by decide +kernel, by decide +kernel,
      by decide +kernel⟩
  have hletters : "aB".toList.all Char.isAlpha := by decide
  have htoText := hown "aB" 4294967295 (by decide) (List.all_eq_true.mp hletters) (by decide)
  refine ⟨htext, htoText, hmalformed "ab4294967296" fun code hcode ↦ ?_,
    (halike _ _ _ _ htext htoText).mp rfl⟩
  have hnone : (ofText "ab4294967296").toOption = none := by decide +kernel
  rw [hcode] at hnone
  cases hnone

end RunCode

end Montage.Timing
