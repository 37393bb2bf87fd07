import Mathlib.Tactic.SplitIfs
import Montage.Toml.Document

/-!
# Entries of tables

A change of a key that succeeds makes the new value the one that is found under the key, and leaves
what is found under all other keys (`exists_alterEntry`). A key that is not there yet comes last
(`alterEntry_of_lookup_eq_none`), so assignments of different keys make a table of just these
(`assignAll_of_nodup`).
-/

set_option autoImplicit false
set_option relaxedAutoImplicit false

namespace Montage.Toml

variable {key other : String} {value : Value} {entries : Entries}
  {change : Option Value → Option Value}

section Lookup

variable {α β : Type} [BEq α] [LawfulBEq α] [DecidableEq α]

theorem lookup_cons (key other : α) (value : β) (entries : List (α × β)) :
    List.lookup key ((other, value) :: entries) =
      if key = other then some value else entries.lookup key := by
  by_cases h : key = other
  · rw [if_pos h, h, List.lookup_cons_self]
  · rw [if_neg h, List.lookup_cons, beq_eq_false_iff_ne.mpr h]

theorem lookup_eq_none_iff {key : α} {entries : List (α × β)} :
    entries.lookup key = none ↔ key ∉ entries.map Prod.fst := by
  induction entries with
  | nil => simp
  | cons entry entries ih =>
    obtain ⟨other, value⟩ := entry
    rw [lookup_cons, List.map_cons, List.mem_cons, not_or, ← ih]
    split_ifs with h
    · simp [h]
    · simp [h]

/-- In a list without repeated keys, a value is found under its key. -/
theorem lookup_eq_some_iff {entries : List (α × β)} (h : (entries.map Prod.fst).Nodup) {key : α}
    {value : β} : entries.lookup key = some value ↔ (key, value) ∈ entries := by
  induction entries with
  | nil => simp
  | cons entry entries ih =>
    obtain ⟨other, old⟩ := entry
    obtain ⟨hother, hrest⟩ := List.nodup_cons.mp h
    rw [lookup_cons, List.mem_cons, Prod.mk.injEq, ← ih hrest]
    split_ifs with hkey
    · subst hkey
      have hmissing := lookup_eq_none_iff.mpr hother
      simp [hmissing, eq_comm]
    · simp [hkey]

end Lookup

/-- A key that is missing comes last. -/
theorem alterEntry_of_lookup_eq_none (h : entries.lookup key = none) :
    alterEntry key change entries = (change none).map fun value ↦ entries ++ [(key, value)] := by
  induction entries with
  | nil => rfl
  | cons entry entries ih =>
    obtain ⟨other, value⟩ := entry
    rw [lookup_cons] at h
    split_ifs at h with hkey
    rw [alterEntry, if_neg fun heq ↦ hkey heq.symm, ih h, Option.map_map]
    rfl

/-- A changed entry is found under its key, and all others as before. -/
theorem exists_alterEntry (h : change (entries.lookup key) = some value) :
    ∃ next, alterEntry key change entries = some next ∧
      ∀ other, next.lookup other = if other = key then some value else entries.lookup other := by
  induction entries with
  | nil =>
    refine ⟨[(key, value)], ?_, fun other ↦ lookup_cons other key value []⟩
    rw [alterEntry, show change none = some value from h]
    rfl
  | cons entry entries ih =>
    obtain ⟨first, old⟩ := entry
    by_cases hkey : first = key
    · subst hkey
      rw [List.lookup_cons_self] at h
      refine ⟨(first, value) :: entries, by rw [alterEntry, if_pos rfl, h]; rfl, fun other ↦ ?_⟩
      rw [lookup_cons, lookup_cons]
      split_ifs <;> rfl
    · rw [lookup_cons, if_neg fun heq ↦ hkey heq.symm] at h
      obtain ⟨next, hnext, hlookup⟩ := ih h
      refine ⟨(first, old) :: next, by rw [alterEntry, if_neg hkey, hnext]; rfl, fun other ↦ ?_⟩
      rw [lookup_cons, lookup_cons, hlookup]
      split_ifs with hfirst hother
      · exact absurd (hfirst.symm.trans hother) hkey
      all_goals rfl

/-- Assignments of different keys make a table of just these. -/
theorem assignAll_of_nodup {pairs : Entries} (h : ((entries ++ pairs).map Prod.fst).Nodup) :
    assignAll (pairs.map fun pair ↦ ([pair.1], pair.2)) entries = some (entries ++ pairs) := by
  induction pairs generalizing entries with
  | nil => rw [List.append_nil]; rfl
  | cons pair pairs ih =>
    obtain ⟨key, value⟩ := pair
    have hmissing : entries.lookup key = none := by
      refine lookup_eq_none_iff.mpr fun hmem ↦ ?_
      rw [List.map_append, List.nodup_append] at h
      exact h.2.2 key hmem key List.mem_cons_self rfl
    have hassign : assign value [key] entries = some (entries ++ [(key, value)]) := by
      rw [assign, alterEntry_of_lookup_eq_none hmissing]
      rfl
    rw [List.append_cons] at h ⊢
    rw [List.map_cons, assignAll, List.foldlM_cons]
    dsimp only
    rw [hassign]
    exact ih h

end Montage.Toml
