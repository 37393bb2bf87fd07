import Mathlib.Data.List.Range
import Montage.Proofs.Registry.Lookup

/-!
# Keys are handed out once

The letters of a key are digits: read from the last letter to the first, with `A` as one and `Z` as
twenty-six, they make a number (`KeyCounter.ordinal`), and handing out a key moves this number on by
one (`ordinal_next`). So a new counter never hands out a key twice (`keyAfter_injective`).

A registry is in step (`InStep`) if its counter has handed out one key for each value and the index
leads from each of these keys to the value it was handed out for. It stays so when values are
inserted or changed: the next key is a new one (`InStep.nextKey_notMem`), so an insertion takes no
key away from an older value. In step, a key that was handed out leads to its own value
(`InStep.get?_keyAfter`), and no two keys lead to one value, so a change through one key leaves what
all others lead to (`InStep.get?_modify`).
-/

set_option autoImplicit false
set_option relaxedAutoImplicit false

namespace Montage.Registry

/-! ### The sequence of keys -/

namespace KeyCounter

/-- The number that letters stand for, given from the last letter to the first. -/
def ordinalOf : List (Fin 26) → Nat
  | [] => 0
  | place :: before => place.val + 1 + 26 * ordinalOf before

/-- The number that the letters of a counter stand for. -/
def ordinal (counter : KeyCounter) : Nat := ordinalOf counter.letters.reverse

variable {counter other : KeyCounter}

theorem ordinalOf_successor (letters : List (Fin 26)) :
    ordinalOf (successor letters) = ordinalOf letters + 1 := by
  induction letters with
  | nil => rfl
  | cons place before ih =>
    by_cases hlast : place = Fin.last 25
    · rw [successor, if_pos hlast, ordinalOf, ordinalOf, ih, hlast]
      simp only [Fin.val_last, Fin.val_zero]
      omega
    · have hval : (place + 1).val = place.val + 1 :=
        Fin.val_add_one_of_lt (Fin.val_lt_last hlast)
      rw [successor, if_neg hlast, ordinalOf, ordinalOf, hval]
      omega

/-- A key that is handed out moves the counter on by one. -/
theorem ordinal_next (counter : KeyCounter) : counter.next.ordinal = counter.ordinal + 1 := by
  rw [ordinal, next, List.reverse_reverse, ordinalOf_successor, ordinal]

theorem ordinal_skip (counter : KeyCounter) (count : Nat) :
    (counter.skip count).ordinal = counter.ordinal + count := by
  induction count generalizing counter with
  | zero => rfl
  | succ count ih =>
    rw [skip, ih, ordinal_next]
    omega

theorem skip_succ (counter : KeyCounter) (count : Nat) :
    counter.skip (count + 1) = (counter.skip count).next := by
  induction count generalizing counter with
  | zero => rfl
  | succ count ih => rw [skip, ih, skip]

theorem letter_injective : Function.Injective letter := by
  intro a b h
  revert a b
  decide +kernel

/-- A key tells its counter. -/
theorem eq_of_current_eq (h : counter.current = other.current) : counter = other := by
  obtain ⟨letters⟩ := counter
  obtain ⟨others⟩ := other
  have htext := String.ofList_injective (congrArg Key.text h)
  exact congrArg KeyCounter.mk (List.map_injective_iff.mpr letter_injective htext)

/-- No key is handed out twice. -/
theorem current_skip_injective (counter : KeyCounter) :
    Function.Injective fun count ↦ (counter.skip count).current := by
  intro m n h
  have hsame := congrArg ordinal (eq_of_current_eq h)
  rw [ordinal_skip, ordinal_skip] at hsame
  omega

/-- The key that a new counter hands out after that many others. -/
def keyAfter (count : Nat) : Key := (first.skip count).current

theorem keyAfter_injective : Function.Injective keyAfter := current_skip_injective _

end KeyCounter

open KeyCounter

/-! ### Registries in step with their counter -/

variable {α : Type} {registry : Registry α} {key : Key} {position : Nat} {value : α}

/-- The keys that have a value, in the order of the index. -/
def keys (registry : Registry α) : List Key := registry.index.map (·.1)

/-- The values with the keys that a new counter hands out for them. -/
def entries (registry : Registry α) : List (Key × α) :=
  registry.values.mapIdx fun position value ↦ (keyAfter position, value)

/-- The counter has handed out one key for each value, and the index has these keys, in order, with
the positions of the values. -/
structure InStep (registry : Registry α) : Prop where
  counter_eq : registry.counter = KeyCounter.first.skip registry.size
  index_eq : registry.index =
    (List.range registry.size).map fun position ↦ (keyAfter position, position)

theorem inStep_empty : InStep (.empty : Registry α) := ⟨rfl, rfl⟩

theorem contains_iff : registry.contains key ↔ key ∈ registry.keys := by
  simp [contains, position?, keys]

theorem keys_insertWith (registry : Registry α) (build : Key → α) :
    (registry.insertWith build).keys =
      registry.keys.filter (· ≠ registry.nextKey) ++ [registry.nextKey] := by
  rw [keys, index_insertWith, List.map_append, List.map_singleton, keys, List.filter_map]
  rfl

@[simp] theorem keys_modify (registry : Registry α) (key : Key) (change : α → α) :
    (registry.modify key change).keys = registry.keys := rfl

theorem size_insertWith (registry : Registry α) (build : Key → α) :
    (registry.insertWith build).size = registry.size + 1 :=
  List.length_append

theorem InStep.keys_eq (h : registry.InStep) :
    registry.keys = (List.range registry.size).map keyAfter := by
  rw [keys, h.index_eq, List.map_map]
  rfl

theorem InStep.nextKey_eq (h : registry.InStep) : registry.nextKey = keyAfter registry.size := by
  rw [nextKey, h.counter_eq, keyAfter]

/-- The next key is a new one. -/
theorem InStep.nextKey_notMem (h : registry.InStep) : registry.nextKey ∉ registry.keys := by
  rw [h.keys_eq, h.nextKey_eq]
  intro hmem
  obtain ⟨count, hcount, heq⟩ := List.mem_map.mp hmem
  rw [keyAfter_injective heq] at hcount
  exact Nat.lt_irrefl _ (List.mem_range.mp hcount)

/-- The index forgets no key when a value is inserted. -/
theorem InStep.index_insertWith (h : registry.InStep) (build : Key → α) :
    (registry.insertWith build).index = registry.index ++ [(registry.nextKey, registry.size)] := by
  rw [Registry.index_insertWith, List.filter_eq_self.mpr]
  intro entry hentry
  refine decide_eq_true fun heq ↦ h.nextKey_notMem ?_
  rw [← heq]
  exact List.mem_map_of_mem hentry

theorem InStep.insertWith (h : registry.InStep) (build : Key → α) :
    (registry.insertWith build).InStep := by
  constructor
  · rw [size_insertWith, KeyCounter.skip_succ, ← h.counter_eq]
    rfl
  · rw [h.index_insertWith, size_insertWith, List.range_succ, List.map_append, List.map_singleton,
      ← h.index_eq, h.nextKey_eq]

theorem InStep.modify (h : registry.InStep) (key : Key) (change : α → α) :
    (registry.modify key change).InStep := by
  constructor
  · rw [size_modify]
    exact h.counter_eq
  · rw [size_modify]
    exact h.index_eq

/-! ### Looking up values -/

/-- The index leads from a key to the number of keys that were handed out before it. -/
theorem InStep.position?_eq_some_iff (h : registry.InStep) :
    registry.position? key = some position ↔
      position < registry.size ∧ keyAfter position = key := by
  have hmem {place : Nat} (hplace : registry.position? key = some place) :
      place < registry.size ∧ keyAfter place = key := by
    have hentry := mem_index_of_position? hplace
    rw [h.index_eq] at hentry
    obtain ⟨place, hrange, heq⟩ := List.mem_map.mp hentry
    cases heq
    exact ⟨List.mem_range.mp hrange, rfl⟩
  refine ⟨hmem, ?_⟩
  rintro ⟨hlt, rfl⟩
  have hkey : registry.contains (keyAfter position) := by
    rw [contains_iff, h.keys_eq]
    exact List.mem_map_of_mem (List.mem_range.mpr hlt)
  obtain ⟨place, hplace⟩ := Option.isSome_iff_exists.mp hkey
  -- No key is handed out twice, so the place that the index has for the key is the only one.
  rw [hplace, keyAfter_injective (hmem hplace).2]

/-- A key that was handed out leads to the value that it was handed out for. -/
theorem InStep.get?_keyAfter (h : registry.InStep) (position : Nat) :
    registry.get? (keyAfter position) = registry.values[position]? := by
  by_cases hlt : position < registry.size
  · rw [get?, h.position?_eq_some_iff.mpr ⟨hlt, rfl⟩, Option.bind_some]
  · have hnone : registry.position? (keyAfter position) = none := by
      by_contra hsome
      obtain ⟨place, hplace⟩ := Option.ne_none_iff_exists'.mp hsome
      obtain ⟨hplace, heq⟩ := h.position?_eq_some_iff.mp hplace
      exact hlt (keyAfter_injective heq ▸ hplace)
    rw [get?, hnone, List.getElem?_eq_none (Nat.le_of_not_lt hlt)]
    rfl

/-- A key with a value keeps it when another one is inserted. -/
theorem InStep.get?_insertWith_of_get? (h : registry.InStep) (hkey : registry.get? key = some value)
    (build : Key → α) : (registry.insertWith build).get? key = some value := by
  rw [get?_insertWith, if_neg, hkey]
  rintro rfl
  exact h.nextKey_notMem (contains_iff.mp (contains_of_get? hkey))

/-- Only the value of the given key is changed. -/
theorem InStep.get?_modify (h : registry.InStep) (key : Key) (change : α → α) (other : Key) :
    (registry.modify key change).get? other =
      if other = key then (registry.get? other).map change else registry.get? other := by
  rw [Registry.get?_modify]
  cases hother : registry.position? other with
  | none => simp [get?, hother]
  | some position =>
    refine if_congr ?_ rfl rfl
    rw [h.position?_eq_some_iff, ← (h.position?_eq_some_iff.mp hother).2, eq_comm,
      and_iff_right (lt_size_of_position? hother)]

/-! ### Entries -/

theorem getElem?_entries (registry : Registry α) (position : Nat) :
    registry.entries[position]? = registry.values[position]?.map (keyAfter position, ·) :=
  List.getElem?_mapIdx

theorem map_snd_entries (registry : Registry α) :
    registry.entries.map (·.2) = registry.values := by
  refine List.ext_getElem? fun position ↦ ?_
  rw [List.getElem?_map, getElem?_entries, Option.map_map]
  exact Option.map_id'

@[simp] theorem entries_empty : (empty : Registry α).entries = [] := rfl

theorem entries_insertWith (registry : Registry α) (build : Key → α) :
    (registry.insertWith build).entries =
      registry.entries ++ [(keyAfter registry.size, build registry.nextKey)] :=
  List.mapIdx_concat

theorem InStep.mem_entries_insertWith (h : registry.InStep) {build : Key → α} {entry : Key × α} :
    entry ∈ (registry.insertWith build).entries ↔
      entry ∈ registry.entries ∨ entry = (registry.nextKey, build registry.nextKey) := by
  rw [entries_insertWith, ← h.nextKey_eq, List.mem_append, List.mem_singleton]

/-- An entry of a changed registry is an old entry, or has the change of the value of one. -/
theorem exists_of_mem_entries_modify {change : α → α} {entry : Key × α}
    (h : entry ∈ (registry.modify key change).entries) :
    ∃ old ∈ registry.entries, entry.1 = old.1 ∧ (entry.2 = old.2 ∨ entry.2 = change old.2) := by
  obtain ⟨position, hentry⟩ := List.mem_iff_getElem?.mp h
  rw [getElem?_entries, getElem?_values_modify] at hentry
  obtain ⟨new, hnew, rfl⟩ := Option.map_eq_some_iff.mp hentry
  have hmem {old : α} (hold : registry.values[position]? = some old) :
      (keyAfter position, old) ∈ registry.entries := by
    refine List.mem_of_getElem? (i := position) ?_
    rw [getElem?_entries, hold, Option.map_some]
  split_ifs at hnew
  · obtain ⟨old, hold, rfl⟩ := Option.map_eq_some_iff.mp hnew
    exact ⟨_, hmem hold, rfl, Or.inr rfl⟩
  · exact ⟨_, hmem hnew, rfl, Or.inl rfl⟩

/-- A value is found under a key exactly if the key was handed out for it. -/
theorem InStep.get?_eq_some_iff (h : registry.InStep) :
    registry.get? key = some value ↔ (key, value) ∈ registry.entries := by
  rw [List.mem_iff_getElem?]
  simp only [getElem?_entries, Option.map_eq_some_iff, Prod.mk.injEq]
  constructor
  · intro hvalue
    obtain ⟨position, hposition, hstored⟩ := Option.bind_eq_some_iff.mp hvalue
    exact ⟨position, value, hstored, (h.position?_eq_some_iff.mp hposition).2, rfl⟩
  · rintro ⟨position, stored, hstored, rfl, rfl⟩
    rw [h.get?_keyAfter, hstored]

/-- Changing the value of the last key changes the last value. -/
theorem InStep.values_modify_last (h : registry.InStep) {values : List α}
    (hkey : registry.keys.getLast? = some key) (hvalues : registry.values = values ++ [value])
    (change : α → α) : (registry.modify key change).values = values ++ [change value] := by
  have hsize : registry.size = values.length + 1 := by
    rw [size, hvalues, List.length_append, List.length_singleton]
  have hlast : keyAfter values.length = key := by
    rw [h.keys_eq, hsize, List.range_succ, List.map_append, List.map_singleton,
      List.getLast?_concat] at hkey
    exact Option.some.inj hkey
  have hposition : registry.position? key = some values.length :=
    h.position?_eq_some_iff.mpr ⟨by omega, hlast⟩
  rw [values_modify, hposition, hvalues]
  simp [List.modify_eq_set_getElem?]

end Montage.Registry
