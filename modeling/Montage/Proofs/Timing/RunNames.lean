import Montage.Proofs.Numeric.Numerals
import Montage.Proofs.Text.Pieces
import Montage.Proofs.Timing.BoundWords
import Montage.Proofs.Timing.LastTicks

/-!
# Names of recorded runs

A run is recorded under the code that ticks give it and is asked for by the text of this code. The
two are read by different rules. A tick takes two letters outside the alphabet for letters of a
team, because they have the case forms `s` and `k`, and lower-casing leaves them as they are
(`RunCode.Recordable`); a code is read with letters of the alphabet only. So the text of a recorded
code reads back as the code exactly if neither of the two letters is in its team
(`ofText_toText_of_mem_runs`), and a run whose team has one of them cannot be asked for
(`unreadable_name`).

Everything else about a recorded code survives: its team is in lower case already, so reading
changes none of its letters, and its counter is read from the digits that were written
(`RunCode.ofText?_toText`).
-/

set_option autoImplicit false
set_option relaxedAutoImplicit false

namespace Montage.Timing

open Numeric

/-! ### Letters of a team -/

theorem isTeamLetter_toLower {c : Char} (h : Tick.isTeamLetter c) :
    Tick.isTeamLetter c.toLower := by
  rw [isTeamLetter_iff] at h ⊢
  rcases h with hletter | rfl | rfl
  · left
    rwa [Text.isAlpha_toLower]
  · decide
  · decide

theorem not_isBlank_of_isTeamLetter {c : Char} (h : Tick.isTeamLetter c) :
    Text.isBlank c = false := by
  rcases isTeamLetter_iff.mp h with hletter | rfl | rfl
  · obtain ⟨hlow, hhigh⟩ := Text.toNat_of_isAlpha hletter
    exact Text.isBlank_eq_false (by omega) (by omega)
  · decide
  · decide

/-! ### Codes that ticks give -/

namespace RunCode

/-- The code is one that a tick can give: it has a team, whose letters are letters of a team in
lower case, and its counter is not too great. -/
structure Recordable (code : RunCode) : Prop where
  team_ne_nil : code.team.toList ≠ []
  isTeamLetter : ∀ c ∈ code.team.toList, Tick.isTeamLetter c
  toLower_eq : ∀ c ∈ code.team.toList, c.toLower = c
  counter_le : code.counter ≤ maxCounter

variable {code : RunCode}

theorem toList_team_ofTeam (team : List Char) (counter : Nat) :
    (ofTeam (String.ofList team) counter).team.toList = team.map Char.toLower := by
  rw [ofTeam, String.toList_map, String.toList_ofList]

theorem counter?_digitsOf {counter : Nat} (h : counter ≤ maxCounter) :
    counter? (Decimal.digitsOf counter) = some counter := by
  rw [counter?, digitsValue_digitsOf, if_pos]
  refine ⟨digitsOf_ne_nil counter, ?_, h⟩
  rw [List.all_eq_true]
  intro c hc
  exact isDigit_of_mem_digitsOf hc

/-- A word that sets a bound names a code that ticks can give. -/
theorem recordable_of_wellFormed {parts : BoundWord} (h : parts.WellFormed) :
    parts.code.Recordable := by
  unfold BoundWord.code
  refine ⟨?_, ?_, ?_, h.counter_le⟩
  · rw [toList_team_ofTeam]
    intro hnil
    exact h.team_ne_nil (List.map_eq_nil_iff.mp hnil)
  · rw [toList_team_ofTeam]
    exact List.forall_mem_map.mpr fun c hc ↦ isTeamLetter_toLower (h.isTeamLetter c hc)
  · rw [toList_team_ofTeam]
    exact List.forall_mem_map.mpr fun c _ ↦ Text.toLower_toLower c

/-- A word that says something about a run gives a code that ticks can give. -/
theorem recordable_of_ofWord {word : List Char} {slot : Slot} {endpoint : Endpoint}
    (h : Tick.ofWord word = .boundary code slot endpoint) : code.Recordable := by
  obtain ⟨parts, hparts, -, htick⟩ := ofWord_eq_boundary_iff.mp h
  cases htick
  exact recordable_of_wellFormed hparts

/-- The code of a run that was read. -/
theorem recordable_of_mem_runs {readings : List Timeline.Reading} {entry : RunCode × Run}
    (h : entry ∈ (Timeline.after readings).runs) : entry.1.Recordable := by
  have hbuilt := Timeline.built_after readings
  have hfound := hbuilt.ordered.lookup_eq_some_iff.mpr h
  obtain ⟨tick, htick, hcode⟩ := (hbuilt.isSome_lookup entry.1).mp (Option.isSome_of_eq_some hfound)
  obtain ⟨reading, -, hreading⟩ := mem_boundTicks_acceptedTicks.mp htick
  obtain ⟨-, line, -, words, -, word, -, hword⟩ := Timeline.Reading.mem_boundTicks_iff.mp hreading
  rw [← hcode]
  exact recordable_of_ofWord hword

/-! ### Reading a code back -/

theorem toList_toText (code : RunCode) :
    code.toText.toList = code.team.toList ++ Decimal.digitsOf code.counter := by
  rw [toText, String.toList_append, String.toList_ofList]

/-- The text of a recorded code has no blanks, and its first digit ends the team. -/
theorem Recordable.parts_toText (h : code.Recordable) :
    Text.trim code.toText.toList = code.toText.toList ∧
      code.toText.toList.takeWhile (!·.isDigit) = code.team.toList ∧
      code.toText.toList.dropWhile (!·.isDigit) = Decimal.digitsOf code.counter := by
  have hteam : ∀ c ∈ code.team.toList, (!c.isDigit) = true := by
    intro c hc
    rw [not_isDigit_of_isTeamLetter (h.isTeamLetter c hc)]
    rfl
  obtain ⟨first, rest, hdigits⟩ := List.exists_cons_of_ne_nil (digitsOf_ne_nil code.counter)
  have hfirst : first.isDigit := isDigit_of_mem_digitsOf (hdigits ▸ List.mem_cons_self)
  rw [toList_toText]
  refine ⟨Text.trim_eq_self fun c hc ↦ ?_, ?_, ?_⟩
  · rcases List.mem_append.mp hc with hletter | hdigit
    · exact not_isBlank_of_isTeamLetter (h.isTeamLetter c hletter)
    · exact Text.not_isBlank_of_isDigit (isDigit_of_mem_digitsOf hdigit)
  · rw [List.takeWhile_append_of_pos hteam, hdigits,
      List.takeWhile_cons_of_neg (by simp [hfirst]), List.append_nil]
  · rw [List.dropWhile_append_of_pos hteam, hdigits,
      List.dropWhile_cons_of_neg (by simp [hfirst])]

theorem Recordable.map_toLower_team (h : code.Recordable) :
    code.team.map Char.toLower = code.team := by
  apply String.toList_injective
  rw [String.toList_map]
  exact (List.map_congr_left h.toLower_eq).trans (List.map_id' _)

theorem Recordable.ofTeam_eq (h : code.Recordable) :
    ofTeam code.team code.counter = code := by
  rw [ofTeam, h.map_toLower_team]

/-- The text of a recorded code reads back if its team is made of letters of the alphabet, and does
not read at all otherwise. -/
theorem Recordable.ofText?_toText (h : code.Recordable) :
    ofText? code.toText = if code.team.toList.all Char.isAlpha then some code else none := by
  obtain ⟨htrim, hteam, hdigits⟩ := h.parts_toText
  rw [ofText?, htrim]
  simp only [hteam, hdigits, counter?_digitsOf h.counter_le, Option.map_some, String.ofList_toList,
    h.ofTeam_eq]
  exact if_congr (and_iff_right h.team_ne_nil) rfl rfl

/-- The team of a recorded code is made of letters of the alphabet unless it has one of the two
other letters. -/
theorem Recordable.all_isAlpha_iff (h : code.Recordable) :
    code.team.toList.all Char.isAlpha ↔
      ¬ ('\u017f' ∈ code.team.toList ∨ '\u212a' ∈ code.team.toList) := by
  rw [List.all_eq_true]
  constructor
  · rintro halpha (hlong | hkelvin)
    · exact absurd (halpha _ hlong) (by decide)
    · exact absurd (halpha _ hkelvin) (by decide)
  · intro hnone c hc
    rcases isTeamLetter_iff.mp (h.isTeamLetter c hc) with hletter | rfl | rfl
    · exact hletter
    · exact absurd (Or.inl hc) hnone
    · exact absurd (Or.inr hc) hnone

end RunCode

/-! ### Runs that can be asked for -/

/-- The text of the code of a recorded run reads back as this code, unless the team has a long `s`
or the sign for the unit of temperature: then the text is malformed. -/
theorem ofText_toText_of_mem_runs (readings : List Timeline.Reading) (entry : RunCode × Run)
    (h : entry ∈ (Timeline.after readings).runs) :
    RunCode.ofText entry.1.toText =
      if '\u017f' ∈ entry.1.team.toList ∨ '\u212a' ∈ entry.1.team.toList then
        .error (.malformedRunCode entry.1.toText)
      else .ok entry.1 := by
  have hcode := RunCode.recordable_of_mem_runs h
  obtain ⟨htrim, -, -⟩ := hcode.parts_toText
  rw [RunCode.ofText, hcode.ofText?_toText, htrim, String.ofList_toList]
  by_cases hodd : '\u017f' ∈ entry.1.team.toList ∨ '\u212a' ∈ entry.1.team.toList
  · have hnot : ¬ entry.1.team.toList.all Char.isAlpha := by
      intro hall
      exact hcode.all_isAlpha_iff.mp hall hodd
    rw [if_pos hodd, if_neg hnot]
  · rw [if_neg hodd, if_pos (hcode.all_isAlpha_iff.mpr hodd)]

/-- Ticks of two runs, the first of which has a long `s` in its team. -/
def sampleTeams : List Timeline.Reading :=
  [.line ⟨"clip.mp4"⟩ "1=0 fu\u017f1cp0a|SK1cp0a".toList]

/-- The run of the second team can be asked for. -/
theorem ofText_toText_of_mem_runs_sample :
    (⟨"sk", 1⟩, ⟨none, [{ start := some (.ofNat 0), source := some ⟨"clip.mp4"⟩ }]⟩) ∈
        (Timeline.after sampleTeams).runs ∧
      RunCode.ofText (RunCode.toText ⟨"sk", 1⟩) = .ok ⟨"sk", 1⟩ := by
  have hmem : (⟨"sk", 1⟩, ⟨none, [{ start := some (.ofNat 0), source := some ⟨"clip.mp4"⟩ }]⟩) ∈
      (Timeline.after sampleTeams).runs := by
    decide +kernel
  exact ⟨hmem, (ofText_toText_of_mem_runs sampleTeams _ hmem).trans (if_neg (by decide))⟩

/-- The run of the first team is recorded, and the text of its code does not read. -/
theorem unreadable_name :
    (⟨"fu\u017f", 1⟩ : RunCode) ∈ (Timeline.after sampleTeams).runs.map Prod.fst ∧
      RunCode.ofText (RunCode.toText ⟨"fu\u017f", 1⟩) = .error (.malformedRunCode "fu\u017f1") := by
  refine ⟨by decide +kernel, ?_⟩
  rfl

end Montage.Timing
