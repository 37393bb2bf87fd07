import Montage.Failure

/-!
# Steps that may fail

What is done for one item after the other ends with the first failure. If the items are taken on
their own (`mapM`), all of them have results or there is a first one that has none. If each step
goes on from what the last one has left (`foldlM`), the whole succeeds or fails as its steps do, and
steps that differ only after a failure of one kind make no difference unless the whole fails so.
-/

set_option autoImplicit false
set_option relaxedAutoImplicit false

namespace Montage.Failure

variable {α β : Type} {failure : Failure}

/-! ### Items on their own -/

section Items

variable {step : α → Except Failure β}

/-- If every item has a result, all of them have. -/
theorem exists_mapM_eq_ok {items : List α} (h : ∀ a ∈ items, ∃ b, step a = .ok b) :
    ∃ results, items.mapM step = .ok results := by
  induction items with
  | nil => exact ⟨[], rfl⟩
  | cons a items ih =>
    obtain ⟨⟨b, hb⟩, hrest⟩ := List.forall_mem_cons.mp h
    obtain ⟨results, hresults⟩ := ih hrest
    exact ⟨b :: results, by rw [List.mapM_cons, hb, ok_bind, hresults, ok_bind]; rfl⟩

/-- The first item without a result decides the failure. -/
theorem mapM_eq_error {before after : List α} {a : α}
    (hbefore : ∀ b ∈ before, ∃ result, step b = .ok result) (ha : step a = .error failure) :
    (before ++ a :: after).mapM step = .error failure := by
  obtain ⟨results, hresults⟩ := exists_mapM_eq_ok hbefore
  rw [List.mapM_append, hresults, ok_bind, List.mapM_cons, ha, error_bind, error_bind]

/-- Every result is the result of an item. -/
theorem exists_of_mem_mapM {items : List α} {results : List β} {b : β}
    (h : items.mapM step = .ok results) (hb : b ∈ results) : ∃ a ∈ items, step a = .ok b := by
  induction items generalizing results with
  | nil =>
    cases h
    cases hb
  | cons a items ih =>
    rw [List.mapM_cons] at h
    obtain ⟨first, hfirst, hrest⟩ := bind_eq_ok.mp h
    obtain ⟨more, hmore, hresults⟩ := bind_eq_ok.mp hrest
    cases hresults
    rcases List.mem_cons.mp hb with rfl | hb
    · exact ⟨a, List.mem_cons_self, hfirst⟩
    · obtain ⟨other, hother, heq⟩ := ih hmore hb
      exact ⟨other, List.mem_cons_of_mem _ hother, heq⟩

/-- Every item has a result, or there is a first one that has none. -/
theorem forall_ok_or_exists_first_error (step : α → Except Failure β) (items : List α) :
    (∀ a ∈ items, ∃ result, step a = .ok result) ∨
      ∃ before a after failure, items = before ++ a :: after ∧
        (∀ b ∈ before, ∃ result, step b = .ok result) ∧ step a = .error failure := by
  induction items with
  | nil => exact Or.inl (List.forall_mem_nil _)
  | cons a items ih =>
    cases ha : step a with
    | error failure => exact Or.inr ⟨[], a, items, failure, rfl, List.forall_mem_nil _, ha⟩
    | ok result =>
      rcases ih with hall | ⟨before, bad, after, failure, rfl, hbefore, hbad⟩
      · exact Or.inl (List.forall_mem_cons.mpr ⟨⟨result, ha⟩, hall⟩)
      · exact Or.inr ⟨a :: before, bad, after, failure, rfl,
          List.forall_mem_cons.mpr ⟨⟨result, ha⟩, hbefore⟩, hbad⟩

end Items

/-! ### Items after each other -/

section Folds

variable {step step' : β → α → Except Failure β} {items : List α}

/-- If a fold succeeds, the step of each item does. -/
theorem exists_ok_of_foldlM {b result : β} (h : items.foldlM step b = .ok result) {a : α}
    (ha : a ∈ items) : ∃ before after, step before a = .ok after := by
  induction items generalizing b with
  | nil => cases ha
  | cons first items ih =>
    rw [List.foldlM_cons] at h
    obtain ⟨next, hstep, hrest⟩ := bind_eq_ok.mp h
    rcases List.mem_cons.mp ha with rfl | hmem
    · exact ⟨b, next, hstep⟩
    · exact ih hrest hmem

/-- If a fold fails, the step of some item does. -/
theorem exists_of_foldlM_eq_error {b : β} (h : items.foldlM step b = .error failure) :
    ∃ a ∈ items, ∃ b', step b' a = .error failure := by
  induction items generalizing b with
  | nil => cases h
  | cons a items ih =>
    rw [List.foldlM_cons] at h
    rcases bind_eq_error.mp h with hstep | ⟨next, -, hrest⟩
    · exact ⟨a, List.mem_cons_self, b, hstep⟩
    · obtain ⟨a', ha', hfails⟩ := ih hrest
      exact ⟨a', List.mem_cons_of_mem _ ha', hfails⟩

/-- A fold whose steps agree unless they fail in one way agrees with the other unless it fails in
this way. -/
theorem foldlM_eq_of_ne {b : β}
    (hstep : ∀ a ∈ items, ∀ b, step b a ≠ .error failure → step' b a = step b a)
    (h : items.foldlM step b ≠ .error failure) :
    items.foldlM step' b = items.foldlM step b := by
  induction items generalizing b with
  | nil => rfl
  | cons a items ih =>
    rw [List.foldlM_cons] at h
    have ha := hstep a List.mem_cons_self b fun hfails ↦ h (by rw [hfails]; rfl)
    rw [List.foldlM_cons, List.foldlM_cons, ha]
    cases hb : step b a with
    | error => rfl
    | ok next =>
      rw [hb, ok_bind] at h
      exact ih (fun other hother ↦ hstep other (List.mem_cons_of_mem _ hother)) h

end Folds

end Montage.Failure
