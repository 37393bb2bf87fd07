import Montage.Proofs.Registry.Keys

/-!
# Histories of a registry

A registry comes from the empty one by insertions and by changes of single values (`Operation`,
`after`). It keeps what happened in three places: the counter knows how many keys were handed out,
the values stand in the order of their insertion, and the index leads from the keys to the values.
The three agree with each other and with the history (`Records`, `records_after`).

One operation keeps a registry in step with its counter (`InStep.perform`) and does to what stands
under a key what it says, and nothing else (`InStep.get?_perform`). Hence a value that was inserted
is found under its key after any number of further operations, with their changes of this key made
one after the other (`InStep.get?_foldl_perform`).
-/

set_option autoImplicit false
set_option relaxedAutoImplicit false

namespace Montage.Registry

open KeyCounter

variable {α : Type} {registry : Registry α} {key : Key} {value : α}

/-! ### Operations -/

/-- A call that changes a registry. -/
inductive Operation (α : Type) where
  /-- Stores the value that is built for the next key. -/
  | insert (build : Key → α)
  /-- Changes the value of a key in place, if the key has one. -/
  | modify (key : Key) (change : α → α)

/-- Whether an operation is an insertion. -/
def Operation.inserts : Operation α → Bool
  | .insert _ => true
  | .modify _ _ => false

/-- Whether an operation changes a value through a key. -/
def Operation.Changes : Operation α → Key → Prop
  | .insert _, _ => False
  | .modify other _, key => key = other

/-- What an operation makes of the value of a key. -/
def Operation.effect (key : Key) : Operation α → α → α
  | .insert _, value => value
  | .modify other change, value => if key = other then change value else value

/-- The registry after an operation. -/
def perform (registry : Registry α) : Operation α → Registry α
  | .insert build => registry.insertWith build
  | .modify key change => registry.modify key change

/-- The registry after operations on the empty one. -/
def after (operations : List (Operation α)) : Registry α := operations.foldl perform .empty

/-- The number of insertions. -/
def insertions (operations : List (Operation α)) : Nat := operations.countP Operation.inserts

/-- What operations make of the value of a key, one after the other. -/
def changed (key : Key) (operations : List (Operation α)) (value : α) : α :=
  operations.foldl (fun value operation ↦ operation.effect key value) value

/-- Operations that do not change the value of a key leave it as it is. -/
theorem changed_of_forall_not_changes {operations : List (Operation α)}
    (h : ∀ operation ∈ operations, ¬ operation.Changes key) (value : α) :
    changed key operations value = value := by
  induction operations generalizing value with
  | nil => rfl
  | cons operation operations ih =>
    have heffect : operation.effect key value = value := by
      cases operation with
      | insert build => rfl
      | modify other change => exact if_neg (h _ List.mem_cons_self)
    rw [changed, List.foldl_cons, heffect]
    exact ih (fun other hother ↦ h other (List.mem_cons_of_mem _ hother)) value

/-! ### Steps and runs -/

theorem size_foldl_perform (registry : Registry α) (operations : List (Operation α)) :
    (operations.foldl perform registry).size = registry.size + insertions operations := by
  induction operations generalizing registry with
  | nil => rfl
  | cons operation operations ih =>
    rw [List.foldl_cons, ih, insertions, insertions, List.countP_cons]
    cases operation with
    | insert build =>
      rw [perform, size_insertWith, Operation.inserts, if_pos rfl]
      omega
    | modify key change =>
      rw [perform, size_modify, Operation.inserts, if_neg Bool.false_ne_true, Nat.add_zero]

theorem InStep.perform (h : registry.InStep) (operation : Operation α) :
    (registry.perform operation).InStep := by
  cases operation with
  | insert build => exact h.insertWith build
  | modify key change => exact h.modify key change

/-- Every registry with a history is in step with its counter. -/
theorem inStep_after (operations : List (Operation α)) : (after operations).InStep :=
  List.foldlRecOn operations _ inStep_empty fun _ h operation _ ↦ h.perform operation

/-- An operation does to the value of a key what it says. -/
theorem InStep.get?_perform (h : registry.InStep) (hkey : registry.get? key = some value)
    (operation : Operation α) :
    (registry.perform operation).get? key = some (operation.effect key value) := by
  cases operation with
  | insert build => exact h.get?_insertWith_of_get? hkey build
  | modify other change =>
    rw [Registry.perform, h.get?_modify, hkey, Operation.effect]
    split_ifs <;> rfl

/-- So do operations one after the other. -/
theorem InStep.get?_foldl_perform (h : registry.InStep) (hkey : registry.get? key = some value)
    (operations : List (Operation α)) :
    (operations.foldl Registry.perform registry).get? key =
      some (changed key operations value) := by
  induction operations generalizing registry value with
  | nil => exact hkey
  | cons operation operations ih => exact ih (h.perform operation) (h.get?_perform hkey operation)

theorem size_after (operations : List (Operation α)) :
    (after operations).size = insertions operations := by
  rw [after, size_foldl_perform]
  exact Nat.zero_add _

theorem after_append_cons (earlier later : List (Operation α)) (operation : Operation α) :
    after (earlier ++ operation :: later) =
      later.foldl perform ((after earlier).perform operation) :=
  List.foldl_append

/-- The keys that the insertions were given are the ones that the registry contains. -/
theorem contains_after_iff (operations : List (Operation α)) (key : Key) :
    (after operations).contains key ↔
      ∃ position < insertions operations, keyAfter position = key := by
  rw [contains, Option.isSome_iff_exists]
  simp only [(inStep_after operations).position?_eq_some_iff, size_after]

/-- The value of an insertion is found under the key that the insertion was given, with the changes
that were made of it since. -/
theorem get?_after_insert (earlier later : List (Operation α)) (build : Key → α) :
    (after (earlier ++ .insert build :: later)).get? (keyAfter (insertions earlier)) =
      some (changed (keyAfter (insertions earlier)) later
        (build (keyAfter (insertions earlier)))) := by
  rw [after_append_cons]
  refine ((inStep_after earlier).perform _).get?_foldl_perform ?_ later
  rw [perform, get?_insertWith, (inStep_after earlier).nextKey_eq, size_after, if_pos rfl]

/-- A value that replaces another one stays until it is changed itself. -/
theorem get?_after_replace (earlier : List (Operation α)) {later : List (Operation α)}
    (hkey : (after earlier).contains key) (hlater : ∀ operation ∈ later, ¬ operation.Changes key)
    (value : α) :
    (after (earlier ++ .modify key (fun _ ↦ value) :: later)).get? key = some value := by
  obtain ⟨old, hold⟩ := exists_get?_of_contains hkey
  have hreplaced : ((after earlier).perform (.modify key fun _ ↦ value)).get? key = some value := by
    rw [(inStep_after earlier).get?_perform hold, Operation.effect, if_pos rfl]
  rw [after_append_cons, ((inStep_after earlier).perform _).get?_foldl_perform hreplaced,
    changed_of_forall_not_changes hlater]

/-- What stands under a key that an insertion was given has the place of this insertion. -/
theorem getElem?_values_after (operations : List (Operation α)) (position : Nat) :
    (after operations).values[position]? = (after operations).get? (keyAfter position) :=
  ((inStep_after operations).get?_keyAfter position).symm

/-! ### What a registry records -/

/-- The registry records the operations: its counter, its index and its values are what the
operations made of the empty registry. -/
structure Records (registry : Registry α) (operations : List (Operation α)) : Prop where
  /-- There is one value for each insertion. -/
  size_eq : registry.size = insertions operations
  /-- The next insertion is given the key that comes after those of all insertions. -/
  nextKey_eq : registry.nextKey = keyAfter (insertions operations)
  /-- The index has the keys that the insertions were given, each with its place among them, and no
  other key. -/
  index_eq : registry.index =
    (List.range (insertions operations)).map fun position ↦ (keyAfter position, position)
  /-- The index leads from these keys to these places. -/
  position?_iff : ∀ key position, registry.position? key = some position ↔
    position < insertions operations ∧ keyAfter position = key
  /-- The keys that the insertions were given are the ones that the registry contains. -/
  contains_iff : ∀ key, registry.contains key ↔
    ∃ position < insertions operations, keyAfter position = key
  /-- They are the ones that have a value. -/
  get?_iff : ∀ key, (registry.get? key).isSome ↔
    ∃ position < insertions operations, keyAfter position = key
  /-- The value of an insertion, with the changes that were made of it since, is found under the
  key that the insertion was given, and has the place of the insertion among the values. -/
  inserted : ∀ earlier build later, operations = earlier ++ .insert build :: later →
    let key := keyAfter (insertions earlier)
    let value := changed key later (build key)
    registry.get? key = some value ∧ registry.values[insertions earlier]? = some value
  /-- In particular, the last value that replaces another one stays in its place. -/
  replaced : ∀ earlier position value later,
    operations = earlier ++ .modify (keyAfter position) (fun _ ↦ value) :: later →
    position < insertions earlier →
    (∀ operation ∈ later, ¬ operation.Changes (keyAfter position)) →
    registry.get? (keyAfter position) = some value ∧ registry.values[position]? = some value
  /-- A further change through a key changes the value of this key only. -/
  get?_modify : ∀ key change other, (registry.modify key change).get? other =
    if other = key then (registry.get? other).map change else registry.get? other

/-- Every registry records its history: it has one value for each insertion, its index leads from
the keys that the insertions were given, and from no others, to the places of the insertions, and
under each of these keys stands the value of the insertion or what last replaced it. -/
theorem records_after (operations : List (Operation α)) :
    (after operations).Records operations where
  size_eq := size_after operations
  nextKey_eq := by rw [(inStep_after operations).nextKey_eq, size_after]
  index_eq := by rw [(inStep_after operations).index_eq, size_after]
  position?_iff key position := by
    rw [(inStep_after operations).position?_eq_some_iff, size_after]
  contains_iff := contains_after_iff operations
  get?_iff key := by rw [isSome_get?, contains_after_iff]
  inserted := by
    rintro earlier build later rfl
    have hlater := get?_after_insert earlier later build
    exact ⟨hlater, (getElem?_values_after _ _).trans hlater⟩
  replaced := by
    rintro earlier position value later rfl hposition hlater
    have hkey : (after earlier).contains (keyAfter position) :=
      (contains_after_iff earlier _).mpr ⟨position, hposition, rfl⟩
    have hstays := get?_after_replace earlier hkey hlater value
    exact ⟨hstays, (getElem?_values_after _ _).trans hstays⟩
  get?_modify := (inStep_after operations).get?_modify

/-- The second key does not take the place of the first one, and a replaced value keeps its own. -/
example :
    let registry := after [.insert fun key ↦ "first:" ++ key.text,
      .insert fun key ↦ "second:" ++ key.text, .modify ⟨"AA"⟩ fun _ ↦ "new"]
    registry.values = ["new", "second:AB"] ∧
      registry.index = [(⟨"AA"⟩, 0), (⟨"AB"⟩, 1)] ∧ registry.get? ⟨"AC"⟩ = none := by
  decide +kernel

end Montage.Registry
