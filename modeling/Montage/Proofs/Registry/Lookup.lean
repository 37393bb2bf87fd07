import Mathlib.Tactic.SplitIfs
import Montage.Registry.Basic

/-!
# Looking up keys

What the operations of a registry do to its index and to its values. An insertion gives the next key
the position after all values and leaves the other keys where they are (`position?_insertWith`,
`get?_insertWith`). A change leaves all keys where they are and changes what stands at the position
of the given key (`getElem?_values_modify`, `get?_modify`), so a changed registry has no values but
its old ones and the change of one (`mem_values_of_mem_values_modify`).
-/

set_option autoImplicit false
set_option relaxedAutoImplicit false

namespace Montage.Registry

variable {α : Type} {registry : Registry α} {key : Key} {position : Nat} {value : α}

/-! ### Positions -/

theorem mem_index_of_position? (h : registry.position? key = some position) :
    (key, position) ∈ registry.index := by
  obtain ⟨⟨other, position⟩, hentry, rfl⟩ := Option.map_eq_some_iff.mp h
  have hkey : other = key := by simpa using List.find?_some hentry
  rw [← hkey]
  exact List.mem_of_find?_eq_some hentry

theorem lt_size_of_position? (h : registry.position? key = some position) :
    position < registry.size :=
  registry.index_lt _ (mem_index_of_position? h)

/-- A key has a value exactly if it has a position. -/
theorem isSome_get? (registry : Registry α) (key : Key) :
    (registry.get? key).isSome = registry.contains key := by
  rw [get?, contains]
  cases hposition : registry.position? key with
  | none => rfl
  | some position =>
    rw [Option.bind_some, List.getElem?_eq_getElem (lt_size_of_position? hposition)]
    rfl

theorem exists_get?_of_contains (h : registry.contains key) :
    ∃ value, registry.get? key = some value := by
  rwa [← Option.isSome_iff_exists, isSome_get?]

theorem contains_of_get? (h : registry.get? key = some value) : registry.contains key := by
  rw [← isSome_get?, h, Option.isSome_some]

theorem mem_values_of_get? (h : registry.get? key = some value) : value ∈ registry.values := by
  obtain ⟨position, -, hvalue⟩ := Option.bind_eq_some_iff.mp h
  exact List.mem_of_getElem? hvalue

/-! ### Insertions -/

theorem index_insertWith (registry : Registry α) (build : Key → α) :
    (registry.insertWith build).index = registry.index.filter (·.1 ≠ registry.nextKey) ++
      [(registry.nextKey, registry.size)] := rfl

/-- The next key gets the position after all values, and the other keys stay where they are. -/
theorem position?_insertWith (registry : Registry α) (build : Key → α) (key : Key) :
    (registry.insertWith build).position? key =
      if registry.nextKey = key then some registry.size else registry.position? key := by
  rw [position?, index_insertWith, List.find?_append, Option.map_or]
  -- What is left of the old index has no position for the next key, and its own for all others.
  by_cases h : registry.nextKey = key
  · have hforgotten :
        (registry.index.filter (·.1 ≠ registry.nextKey)).find? (·.1 = key) = none := by
      simp [List.find?_eq_none, h]
    rw [hforgotten]
    simp [h]
  · have hkept : (registry.index.filter (·.1 ≠ registry.nextKey)).find? (·.1 = key) =
        registry.index.find? (·.1 = key) := by
      rw [List.find?_filter]
      congr 1
      funext entry
      by_cases hentry : entry.1 = key
      · simp [hentry, Ne.symm h]
      · simp [hentry]
    rw [hkept]
    simp [h, position?]

theorem values_insertWith (registry : Registry α) (build : Key → α) :
    (registry.insertWith build).values = registry.values ++ [build registry.nextKey] := rfl

/-- The next key gets the new value, and the other keys keep theirs. -/
theorem get?_insertWith (registry : Registry α) (build : Key → α) (key : Key) :
    (registry.insertWith build).get? key =
      if registry.nextKey = key then some (build registry.nextKey) else registry.get? key := by
  rw [get?, position?_insertWith, values_insertWith]
  split_ifs
  · exact List.getElem?_concat_length
  · rw [get?]
    refine Option.bind_congr fun position hposition ↦ ?_
    exact List.getElem?_append_left (lt_size_of_position? hposition)

theorem contains_insertWith (h : registry.contains key) (build : Key → α) :
    (registry.insertWith build).contains key := by
  rw [contains, position?_insertWith]
  split_ifs
  · rfl
  · exact h

/-! ### Changes -/

theorem values_modify (registry : Registry α) (key : Key) (change : α → α) :
    (registry.modify key change).values = match registry.position? key with
      | none => registry.values
      | some position => registry.values.modify position change := rfl

@[simp] theorem size_modify (registry : Registry α) (key : Key) (change : α → α) :
    (registry.modify key change).size = registry.size := by
  rw [size, values_modify]
  split
  · rfl
  · exact List.length_modify ..

/-- A change leaves all keys where they are. -/
@[simp] theorem position?_modify (registry : Registry α) (key : Key) (change : α → α)
    (other : Key) : (registry.modify key change).position? other = registry.position? other := rfl

/-- What stands at the position of the given key is changed. -/
theorem getElem?_values_modify (registry : Registry α) (key : Key) (change : α → α)
    (position : Nat) :
    (registry.modify key change).values[position]? =
      if registry.position? key = some position then registry.values[position]?.map change
      else registry.values[position]? := by
  rw [values_modify]
  cases registry.position? key with
  | none => rfl
  | some place =>
    simp only [Option.some.injEq, List.getElem?_modify]
    split_ifs
    · rfl
    · exact Option.map_id'

/-- What is found at the position of the given key is changed. -/
theorem get?_modify (registry : Registry α) (key : Key) (change : α → α) (other : Key) :
    (registry.modify key change).get? other =
      if registry.position? key = registry.position? other then (registry.get? other).map change
      else registry.get? other := by
  rw [get?, position?_modify, get?]
  cases registry.position? other with
  | none => split_ifs <;> rfl
  | some position => exact getElem?_values_modify registry key change position

theorem modify_id (registry : Registry α) (key : Key) : registry.modify key id = registry := by
  refine Registry.ext rfl (List.ext_getElem? fun position ↦ ?_) rfl
  rw [getElem?_values_modify, Option.map_id, id_eq, ite_self]

/-- Two changes of one value are one change. -/
theorem modify_modify (registry : Registry α) (key : Key) (first second : α → α) :
    (registry.modify key first).modify key second = registry.modify key (second ∘ first) := by
  refine Registry.ext rfl (List.ext_getElem? fun position ↦ ?_) rfl
  simp only [getElem?_values_modify, position?_modify]
  split_ifs
  · exact Option.map_map _ _ _
  · rfl

/-- A value of a changed registry is an old value or the change of one. -/
theorem mem_values_of_mem_values_modify {change : α → α}
    (h : value ∈ (registry.modify key change).values) :
    value ∈ registry.values ∨ ∃ old ∈ registry.values, value = change old := by
  obtain ⟨position, hvalue⟩ := List.mem_iff_getElem?.mp h
  rw [getElem?_values_modify] at hvalue
  split_ifs at hvalue
  · obtain ⟨old, hold, rfl⟩ := Option.map_eq_some_iff.mp hvalue
    exact Or.inr ⟨old, List.mem_of_getElem? hold, rfl⟩
  · exact Or.inl (List.mem_of_getElem? hvalue)

end Montage.Registry
