import Mathlib.Data.List.Nodup
import Mathlib.Data.String.Basic
import Montage.Timing.Timeline

/-!
# Tables of runs

The runs of a timeline are a table that is ordered by code. Codes are ordered by team and then by
counter, which is a strict order of all codes (`RunCode.lt_trichotomy`), so an ordered table has no
code twice. A tick alters the run of one code and adds it in its place if it is missing: the table
stays ordered (`Ordered.alterRun`), the run of this code is the altered one, and all others are
found as before (`Ordered.lookup_alterRun`).

An ordered table is settled by what is found in it (`Ordered.eq_of_lookup_eq`).
-/

set_option autoImplicit false
set_option relaxedAutoImplicit false

namespace Montage.Timing

/-! ### The order of codes -/

namespace RunCode

variable {a b c : RunCode}

theorem lt_iff : a < b ↔ a.team < b.team ∨ a.team = b.team ∧ a.counter < b.counter := Iff.rfl

protected theorem lt_irrefl (a : RunCode) : ¬ a < a := by
  rw [lt_iff]
  rintro (hteam | ⟨-, hcounter⟩)
  · exact String.lt_irrefl _ hteam
  · exact Nat.lt_irrefl _ hcounter

protected theorem lt_trans (hab : a < b) (hbc : b < c) : a < c := by
  rw [lt_iff] at *
  rcases hab with hab | ⟨hab, hcounter⟩
  · rcases hbc with hbc | ⟨hbc, -⟩
    · exact Or.inl (String.lt_trans hab hbc)
    · exact Or.inl (hbc ▸ hab)
  · rw [hab]
    exact hbc.imp_right fun ⟨hteam, hless⟩ ↦ ⟨hteam, Nat.lt_trans hcounter hless⟩

/-- Of two different codes, one comes first. -/
protected theorem lt_trichotomy (a b : RunCode) : a < b ∨ a = b ∨ b < a := by
  rcases lt_trichotomy a.team b.team with hteam | hteam | hteam
  · exact Or.inl (Or.inl hteam)
  · rcases Nat.lt_trichotomy a.counter b.counter with hcounter | hcounter | hcounter
    · exact Or.inl (Or.inr ⟨hteam, hcounter⟩)
    · obtain ⟨team, counter⟩ := a
      obtain rfl := hteam
      obtain rfl := hcounter
      exact Or.inr (Or.inl rfl)
    · exact Or.inr (Or.inr (Or.inr ⟨hteam.symm, hcounter⟩))
  · exact Or.inr (Or.inr (Or.inl hteam))

end RunCode

/-! ### Ordered tables -/

namespace RunTable

/-- The codes of the table increase. -/
def Ordered (runs : List (RunCode × Run)) : Prop := runs.Pairwise fun a b ↦ a.1 < b.1

/-- The run that a table has for a code. -/
def lookup (runs : List (RunCode × Run)) (code : RunCode) : Option Run :=
  (runs.find? (·.1 = code)).map (·.2)

variable {runs others : List (RunCode × Run)} {code other : RunCode} {run : Run}
  {change : Run → Run} {entry : RunCode × Run}

theorem lookup_cons (entry : RunCode × Run) (runs : List (RunCode × Run)) (code : RunCode) :
    lookup (entry :: runs) code = if entry.1 = code then some entry.2 else lookup runs code := by
  rw [lookup, List.find?_cons]
  by_cases h : entry.1 = code <;> simp [h, lookup]

/-- Nothing is found for a code that comes before all codes of the table. -/
theorem lookup_eq_none_of_lt (h : ∀ entry ∈ runs, code < entry.1) : lookup runs code = none := by
  rw [lookup, Option.map_eq_none_iff, List.find?_eq_none]
  intro entry hentry heq
  rw [decide_eq_true_eq] at heq
  exact RunCode.lt_irrefl code (heq ▸ h entry hentry)

/-- What is found in an ordered table is what it holds. -/
theorem Ordered.lookup_eq_some_iff (h : Ordered runs) :
    lookup runs code = some run ↔ (code, run) ∈ runs := by
  induction runs with
  | nil => simp [lookup]
  | cons first runs ih =>
    obtain ⟨hfirst, hrest⟩ := List.pairwise_cons.mp h
    rw [lookup_cons, List.mem_cons, ← ih hrest]
    split_ifs with hcode
    · have hnone : lookup runs code = none := lookup_eq_none_of_lt (hcode ▸ hfirst)
      rw [hnone]
      obtain ⟨firstCode, firstRun⟩ := first
      obtain rfl := hcode
      simp [eq_comm]
    · constructor
      · exact Or.inr
      · rintro (rfl | hmem)
        · exact absurd rfl hcode
        · exact hmem

/-- Tables in which the same is found are the same. -/
theorem Ordered.eq_of_lookup_eq (h : Ordered runs) (h' : Ordered others)
    (hlookup : ∀ code, lookup runs code = lookup others code) : runs = others := by
  have hnodup {runs : List (RunCode × Run)} (h : Ordered runs) : runs.Nodup := by
    refine h.imp ?_
    rintro a _ hlt rfl
    exact RunCode.lt_irrefl a.1 hlt
  have hperm : runs.Perm others := by
    refine (List.perm_ext_iff_of_nodup (hnodup h) (hnodup h')).mpr fun ⟨code, run⟩ ↦ ?_
    rw [← h.lookup_eq_some_iff, ← h'.lookup_eq_some_iff, hlookup]
  refine hperm.eq_of_pairwise (fun a b _ _ hab hba ↦ ?_) h h'
  exact absurd (RunCode.lt_trans hab hba) (RunCode.lt_irrefl a.1)

/-! ### Altering a run -/

/-- An entry of the altered table is an old one, or has the altered run of the code. -/
theorem mem_alterRun (h : entry ∈ Timeline.alterRun code change runs) :
    entry ∈ runs ∨
      entry.1 = code ∧ ((∃ old ∈ runs, entry.2 = change old.2) ∨ entry.2 = change {}) := by
  induction runs with
  | nil =>
    obtain rfl := List.mem_singleton.mp h
    exact Or.inr ⟨rfl, Or.inr rfl⟩
  | cons first rest ih =>
    obtain ⟨other, run⟩ := first
    rw [Timeline.alterRun] at h
    split_ifs at h with hcode hlt
    · rcases List.mem_cons.mp h with rfl | hrest
      · exact Or.inr ⟨hcode.symm, Or.inl ⟨_, List.mem_cons_self, rfl⟩⟩
      · exact Or.inl (List.mem_cons_of_mem _ hrest)
    · rcases List.mem_cons.mp h with rfl | hold
      · exact Or.inr ⟨rfl, Or.inr rfl⟩
      · exact Or.inl hold
    · rcases List.mem_cons.mp h with rfl | hrest
      · exact Or.inl List.mem_cons_self
      · rcases ih hrest with hold | ⟨hkey, ⟨old, hold, heq⟩ | hnew⟩
        · exact Or.inl (List.mem_cons_of_mem _ hold)
        · exact Or.inr ⟨hkey, Or.inl ⟨old, List.mem_cons_of_mem _ hold, heq⟩⟩
        · exact Or.inr ⟨hkey, Or.inr hnew⟩

theorem Ordered.alterRun (h : Ordered runs) (code : RunCode) (change : Run → Run) :
    Ordered (Timeline.alterRun code change runs) := by
  induction runs with
  | nil => exact List.pairwise_singleton _ _
  | cons first rest ih =>
    obtain ⟨other, run⟩ := first
    obtain ⟨hfirst, hrest⟩ := List.pairwise_cons.mp h
    rw [Timeline.alterRun]
    split_ifs with hcode hlt
    · exact List.pairwise_cons.mpr ⟨hfirst, hrest⟩
    · refine List.pairwise_cons.mpr ⟨fun entry hentry ↦ ?_, h⟩
      rcases List.mem_cons.mp hentry with rfl | hlater
      · exact hlt
      · exact RunCode.lt_trans hlt (hfirst entry hlater)
    · have hgt : other < code :=
        ((RunCode.lt_trichotomy code other).resolve_left hlt).resolve_left hcode
      refine List.pairwise_cons.mpr ⟨fun entry hentry ↦ ?_, ih hrest⟩
      rcases mem_alterRun hentry with hold | ⟨hkey, -⟩
      · exact hfirst entry hold
      · exact hkey ▸ hgt

/-- Only the run of the given code is altered; it is added if it is missing. -/
theorem Ordered.lookup_alterRun (h : Ordered runs) (code : RunCode) (change : Run → Run)
    (other : RunCode) :
    lookup (Timeline.alterRun code change runs) other =
      if code = other then some (change ((lookup runs code).getD {})) else lookup runs other := by
  induction runs with
  | nil =>
    rw [Timeline.alterRun, lookup_cons]
    rfl
  | cons first rest ih =>
    obtain ⟨firstCode, run⟩ := first
    obtain ⟨hfirst, hrest⟩ := List.pairwise_cons.mp h
    rw [Timeline.alterRun]
    by_cases hcode : code = firstCode
    · subst hcode
      rw [if_pos rfl, lookup_cons, lookup_cons, lookup_cons, if_pos rfl]
      split_ifs <;> rfl
    · by_cases hlt : code < firstCode
      · have hnone : lookup ((firstCode, run) :: rest) code = none := by
          refine lookup_eq_none_of_lt (List.forall_mem_cons.mpr ⟨hlt, fun entry hentry ↦ ?_⟩)
          exact RunCode.lt_trans hlt (hfirst entry hentry)
        rw [if_neg hcode, if_pos hlt, lookup_cons, hnone]
        rfl
      · rw [if_neg hcode, if_neg hlt, lookup_cons, lookup_cons, lookup_cons, if_neg (Ne.symm hcode),
          ih hrest]
        by_cases hother : firstCode = other
        · rw [if_pos hother, if_pos hother, if_neg (hother ▸ hcode)]
        · rw [if_neg hother, if_neg hother]

end RunTable

end Montage.Timing
