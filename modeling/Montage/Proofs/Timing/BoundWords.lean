import Mathlib.Data.List.TakeWhile
import Montage.Proofs.Text.Letters
import Montage.Timing.Tick

/-!
# Words that set a bound

A word sets a bound exactly if it is made of a team, a counter that is not too great, a place and a
flag (`BoundWord.WellFormed`, `ofWord_eq_boundary_iff`). It is so in one way only
(`BoundWord.WellFormed.eq_of_text_eq`), because no letter of a team is a digit and no place begins
with one.

Words are recognised by other rules than they are converted by. The digit of a checkpoint may be of
any script, but only a digit from zero to nine names a checkpoint (`Ending.named?`). The bound that
is set is one of the first checkpoint otherwise (`Ending.slot`).
-/

set_option autoImplicit false
set_option relaxedAutoImplicit false

namespace Montage.Timing

open Numeric

/-! ### The parts of a word -/

/-- The end of a word that sets a bound: the place and the letter for the bound. -/
inductive Ending where
  /-- Three letters for the intro. -/
  | intro (first second third flag : Char)
  /-- Two letters for a checkpoint, and its digit. -/
  | checkpoint (first second digit flag : Char)
deriving DecidableEq

namespace Ending

/-- The characters of the end. -/
def text : Ending → List Char
  | intro first second third flag => [first, second, third, flag]
  | checkpoint first second digit flag => [first, second, digit, flag]

/-- The letter for the bound. -/
def flag : Ending → Char
  | intro _ _ _ flag => flag
  | checkpoint _ _ _ flag => flag

/-- The letters are those of a place, in either case. The digit may be of any script. -/
def IsPlace : Ending → Prop
  | intro first second third _ => [first, second, third].map Char.toLower = ['i', 'n', 't']
  | checkpoint first second digit _ =>
    [first, second].map Char.toLower = ['c', 'p'] ∧ Text.isDecimalDigit digit

instance : DecidablePred IsPlace
  | intro first second third _ =>
    inferInstanceAs (Decidable ([first, second, third].map Char.toLower = ['i', 'n', 't']))
  | checkpoint .. => inferInstanceAs (Decidable (_ ∧ _))

/-- There is a place, and the flag is one of two letters in either case. -/
structure WellFormed (ending : Ending) : Prop where
  isPlace : ending.IsPlace
  flag_eq : ending.flag.toLower = 'a' ∨ ending.flag.toLower = 'b'

instance (ending : Ending) : Decidable ending.WellFormed :=
  decidable_of_iff (ending.IsPlace ∧ (ending.flag.toLower = 'a' ∨ ending.flag.toLower = 'b'))
    ⟨fun h ↦ ⟨h.1, h.2⟩, fun h ↦ ⟨h.isPlace, h.flag_eq⟩⟩

/-- The slot that is named: the intro, or the checkpoint of a digit from zero to nine. -/
def named? : Ending → Option Slot
  | intro .. => some .intro
  | checkpoint _ _ digit _ =>
    if digit.isDigit then some (.checkpoint (digit.toNat - '0'.toNat)) else none

/-- The slot whose bound is set: the one that is named, and the first checkpoint if none is. -/
def slot (ending : Ending) : Slot := ending.named?.getD (.checkpoint 0)

/-- The bound that the flag stands for. -/
def endpoint (ending : Ending) : Endpoint := if ending.flag.toLower = 'a' then .start else .stop

end Ending

/-- A word that sets a bound, part by part. -/
@[ext]
structure BoundWord where
  /-- The letters of the team. -/
  team : List Char
  /-- The digits of the counter. -/
  digits : List Char
  /-- The place and the flag. -/
  ending : Ending
deriving DecidableEq

namespace BoundWord

/-- The characters of the word. -/
def text (parts : BoundWord) : List Char := parts.team ++ (parts.digits ++ parts.ending.text)

/-- There are letters of a team and digits from zero to nine that give a counter, and the end has a
place and a flag. -/
structure WellFormed (parts : BoundWord) : Prop where
  team_ne_nil : parts.team ≠ []
  isTeamLetter : ∀ c ∈ parts.team, Tick.isTeamLetter c
  digits_ne_nil : parts.digits ≠ []
  isDigit : ∀ c ∈ parts.digits, c.isDigit
  counter_le : digitsValue parts.digits ≤ maxCounter
  ending : parts.ending.WellFormed

instance (parts : BoundWord) : Decidable parts.WellFormed :=
  decidable_of_iff ((parts.team ≠ [] ∧ parts.team.all Tick.isTeamLetter) ∧
      (parts.digits ≠ [] ∧ parts.digits.all Char.isDigit ∧
        digitsValue parts.digits ≤ maxCounter) ∧ parts.ending.WellFormed)
    ⟨fun ⟨⟨hteam, hletter⟩, ⟨hdigits, hdigit, hle⟩, hending⟩ ↦
        ⟨hteam, List.all_eq_true.mp hletter, hdigits, List.all_eq_true.mp hdigit, hle, hending⟩,
      fun h ↦ ⟨⟨h.team_ne_nil, List.all_eq_true.mpr h.isTeamLetter⟩,
        ⟨h.digits_ne_nil, List.all_eq_true.mpr h.isDigit, h.counter_le⟩, h.ending⟩⟩

/-- The run that is named. -/
def code (parts : BoundWord) : RunCode :=
  .ofTeam (String.ofList parts.team) (digitsValue parts.digits)

/-- What the word says. -/
def tick (parts : BoundWord) : Tick :=
  .boundary parts.code parts.ending.slot parts.ending.endpoint

end BoundWord

/-! ### Letters of a team -/

variable {c : Char}

/-- The two letters outside the alphabet that count as letters of a team. -/
theorem isTeamLetter_iff : Tick.isTeamLetter c ↔ c.isAlpha ∨ c = '\u017f' ∨ c = '\u212a' := by
  simp [Tick.isTeamLetter, or_assoc]

/-- A letter of a team is no digit. -/
theorem not_isDigit_of_isTeamLetter (h : Tick.isTeamLetter c) : c.isDigit = false := by
  rcases isTeamLetter_iff.mp h with hletter | rfl | rfl
  · exact Text.not_isDigit_of_isAlpha hletter
  · decide
  · decide

/-! ### Reading the end -/

variable {ending other : Ending} {text : List Char} {slot : Slot} {endpoint : Endpoint}

theorem Ending.IsPlace.toLower_of_intro {x y z flag : Char}
    (h : (Ending.intro x y z flag).IsPlace) : x.toLower = 'i' :=
  List.head_eq_of_cons_eq h

theorem Ending.IsPlace.toLower_of_checkpoint {x y digit flag : Char}
    (h : (Ending.checkpoint x y digit flag).IsPlace) : x.toLower = 'c' :=
  List.head_eq_of_cons_eq h.1

/-- The first letter tells the places apart. -/
theorem Ending.WellFormed.eq_of_text_eq (h : ending.WellFormed) (hother : other.WellFormed)
    (htext : other.text = ending.text) : other = ending := by
  have hplace := h.isPlace
  have hplace' := hother.isPlace
  cases ending <;> cases other <;> cases htext
  · rfl
  · exact absurd (hplace.toLower_of_intro.symm.trans hplace'.toLower_of_checkpoint) (by decide)
  · exact absurd (hplace.toLower_of_checkpoint.symm.trans hplace'.toLower_of_intro) (by decide)
  · rfl

/-- The end begins with a letter, which is no digit. -/
theorem Ending.WellFormed.exists_text_eq (h : ending.WellFormed) :
    ∃ first rest, ending.text = first :: rest ∧ Text.isDecimalDigit first = false := by
  have hplace := h.isPlace
  cases ending with
  | intro x y z flag =>
    refine ⟨x, _, rfl, Text.not_isDecimalDigit_of_isAlpha ?_⟩
    rw [← Text.isAlpha_toLower, hplace.toLower_of_intro]
    decide
  | checkpoint x y digit flag =>
    refine ⟨x, _, rfl, Text.not_isDecimalDigit_of_isAlpha ?_⟩
    rw [← Text.isAlpha_toLower, hplace.toLower_of_checkpoint]
    decide

theorem ofFlag?_eq_some_iff {flag : Char} :
    Endpoint.ofFlag? flag = some endpoint ↔
      (flag.toLower = 'a' ∨ flag.toLower = 'b') ∧
        endpoint = if flag.toLower = 'a' then .start else .stop := by
  unfold Endpoint.ofFlag?
  split
  next hflag => simp [hflag, eq_comm]
  next hflag => simp [hflag, eq_comm]
  next ha hb =>
    have hnone : ¬ (flag.toLower = 'a' ∨ flag.toLower = 'b') := not_or.mpr ⟨ha, hb⟩
    simp [hnone]

/-- The digit of a checkpoint is taken for its value, and for zero if it is of another script. -/
theorem Ending.slot_checkpoint (x y digit flag : Char) :
    (Ending.checkpoint x y digit flag).slot = .checkpoint (Tick.digitValue digit) := by
  rw [slot, named?, Tick.digitValue]
  split_ifs <;> rfl

/-- The end is read exactly if it has a place and a flag. -/
theorem readEnd?_eq_some_iff :
    Tick.readEnd? text = some (slot, endpoint) ↔
      ∃ ending : Ending, ending.WellFormed ∧ ending.text = text ∧
        ending.slot = slot ∧ ending.endpoint = endpoint := by
  constructor
  · intro h
    unfold Tick.readEnd? at h
    split at h
    next x y z flag =>
      dsimp only at h
      split at h
      next hslot hendpoint =>
        obtain ⟨hflag, hbound⟩ := ofFlag?_eq_some_iff.mp hendpoint
        cases h
        split_ifs at hslot with hintro hcheckpoint
        · cases hslot
          exact ⟨.intro x y z flag, ⟨hintro, hflag⟩, rfl, rfl, hbound.symm⟩
        · cases hslot
          exact ⟨.checkpoint x y z flag, ⟨hcheckpoint, hflag⟩, rfl,
            Ending.slot_checkpoint x y z flag, hbound.symm⟩
      · cases h
    · cases h
  · rintro ⟨ending, hending, rfl, rfl, rfl⟩
    have hflag := ofFlag?_eq_some_iff.mpr ⟨hending.flag_eq, rfl⟩
    have hplace := hending.isPlace
    cases ending with
    | intro x y z flag =>
      simp only [Ending.IsPlace, Ending.flag] at hplace hflag
      simp only [Ending.text, Tick.readEnd?, hplace, hflag, if_pos]
      rfl
    | checkpoint x y digit flag =>
      have hintro : [x, y, digit].map Char.toLower ≠ ['i', 'n', 't'] := fun hletters ↦
        absurd (hplace.toLower_of_checkpoint.symm.trans (List.head_eq_of_cons_eq hletters))
          (by decide)
      rw [Ending.slot_checkpoint]
      simp only [Ending.IsPlace, Ending.flag] at hplace hflag
      simp only [Ending.text, Tick.readEnd?, hintro, hplace, hflag, if_false, and_self, if_true]
      rfl

/-! ### Reading the word -/

variable {parts more : BoundWord} {word : List Char} {code : RunCode}

/-- The team ends at the first digit, and the digits end at the place. -/
theorem BoundWord.WellFormed.spans (h : parts.WellFormed) :
    parts.text.takeWhile Tick.isTeamLetter = parts.team ∧
      parts.text.dropWhile Tick.isTeamLetter = parts.digits ++ parts.ending.text ∧
      (parts.digits ++ parts.ending.text).takeWhile Text.isDecimalDigit = parts.digits ∧
      (parts.digits ++ parts.ending.text).dropWhile Text.isDecimalDigit = parts.ending.text := by
  have hdigits : ∀ c ∈ parts.digits, Text.isDecimalDigit c := fun c hc ↦
    Text.isDecimalDigit_of_isDigit (h.isDigit c hc)
  obtain ⟨first, rest, hending, hfirst⟩ := h.ending.exists_text_eq
  obtain ⟨digit, others, hdigit⟩ := List.exists_cons_of_ne_nil h.digits_ne_nil
  have hletter : ¬ Tick.isTeamLetter digit := by
    intro hteam
    have hnot := not_isDigit_of_isTeamLetter hteam
    rw [h.isDigit digit (hdigit ▸ List.mem_cons_self)] at hnot
    cases hnot
  refine ⟨?_, ?_, ?_, ?_⟩
  · rw [BoundWord.text, List.takeWhile_append_of_pos h.isTeamLetter, hdigit, List.cons_append,
      List.takeWhile_cons_of_neg hletter, List.append_nil]
  · rw [BoundWord.text, List.dropWhile_append_of_pos h.isTeamLetter, hdigit, List.cons_append,
      List.dropWhile_cons_of_neg hletter]
  · rw [List.takeWhile_append_of_pos hdigits, hending,
      List.takeWhile_cons_of_neg (by simp [hfirst]), List.append_nil]
  · rw [List.dropWhile_append_of_pos hdigits, hending,
      List.dropWhile_cons_of_neg (by simp [hfirst])]

/-- A word has the parts of a bound in one way only. -/
theorem BoundWord.WellFormed.eq_of_text_eq (h : parts.WellFormed) (hmore : more.WellFormed)
    (htext : more.text = parts.text) : more = parts := by
  obtain ⟨hteam, hrest, hdigits, hending⟩ := h.spans
  obtain ⟨hteam', hrest', hdigits', hending'⟩ := hmore.spans
  rw [htext, hteam] at hteam'
  rw [htext, hrest] at hrest'
  rw [← hrest', hdigits] at hdigits'
  rw [← hrest', hending] at hending'
  exact BoundWord.ext hteam'.symm hdigits'.symm (h.ending.eq_of_text_eq hmore.ending hending'.symm)

theorem counter?_eq_some_iff {digits : List Char} {counter : Nat} :
    RunCode.counter? digits = some counter ↔
      (digits ≠ [] ∧ (∀ c ∈ digits, c.isDigit) ∧ digitsValue digits ≤ maxCounter) ∧
        digitsValue digits = counter := by
  rw [RunCode.counter?, Option.ite_none_right_eq_some, List.all_eq_true, Option.some.injEq]

theorem readBoundary?_eq_some_iff :
    Tick.readBoundary? word = some (.boundary code slot endpoint) ↔
      ∃ parts : BoundWord, parts.WellFormed ∧ parts.text = word ∧
        parts.tick = .boundary code slot endpoint := by
  constructor
  · intro h
    unfold Tick.readBoundary? at h
    dsimp only at h
    split_ifs at h with hparts
    obtain ⟨⟨place, flag⟩, hend, htick⟩ := Option.map_eq_some_iff.mp h
    dsimp only at htick
    split at htick
    next counter hcounter =>
      cases htick
      obtain ⟨⟨hdigits, hdigit, hle⟩, rfl⟩ := counter?_eq_some_iff.mp hcounter
      obtain ⟨ending, hending, htext, rfl, rfl⟩ := readEnd?_eq_some_iff.mp hend
      refine ⟨⟨_, _, ending⟩, ⟨fun hnil ↦ hparts (Or.inl hnil), fun c hc ↦ ?_, hdigits, hdigit, hle,
        hending⟩, ?_, rfl⟩
      · exact List.mem_takeWhile_imp hc
      · rw [BoundWord.text, htext, List.takeWhile_append_dropWhile,
          List.takeWhile_append_dropWhile]
    next => cases htick
  · rintro ⟨parts, hparts, rfl, htick⟩
    obtain ⟨hteam, hrest, hdigits, hending⟩ := hparts.spans
    have hcounter : RunCode.counter? parts.digits = some (digitsValue parts.digits) :=
      counter?_eq_some_iff.mpr ⟨⟨hparts.digits_ne_nil, hparts.isDigit, hparts.counter_le⟩, rfl⟩
    have hend := readEnd?_eq_some_iff.mpr ⟨parts.ending, hparts.ending, rfl, rfl, rfl⟩
    have hsome : ¬ (parts.team = [] ∨ parts.digits = []) :=
      not_or.mpr ⟨hparts.team_ne_nil, hparts.digits_ne_nil⟩
    rw [← htick]
    simp only [Tick.readBoundary?, hteam, hrest, hdigits, hending, hcounter, hend, if_neg hsome]
    rfl

/-- A word is read as a bound exactly if it has the parts of one. -/
theorem ofWord_eq_boundary_iff :
    Tick.ofWord word = .boundary code slot endpoint ↔
      ∃ parts : BoundWord, parts.WellFormed ∧ parts.text = word ∧
        parts.tick = .boundary code slot endpoint := by
  rw [← readBoundary?_eq_some_iff, Tick.ofWord]
  cases Tick.readBoundary? word with
  | some tick => simp
  | none =>
    have hspeed : (Tick.readSpeed? word).getD .unrecognized ≠ .boundary code slot endpoint := by
      unfold Tick.readSpeed?
      split
      · split_ifs <;> simp
      · simp
    simp [hspeed]

end Montage.Timing
