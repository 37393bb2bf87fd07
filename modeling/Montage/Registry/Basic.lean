import Montage.Registry.Key

/-!
# Registries

A registry stores values under keys from a counter of its own. It keeps the values in the order in
which they were inserted, and an index leads from a key to the position of its value. Values can be
replaced but not removed.
-/

set_option autoImplicit false
set_option relaxedAutoImplicit false

namespace Montage

open Registry

/-- Values in the order of their insertion, and an index from keys to their positions. -/
@[ext]
structure Registry (α : Type) where
  /-- The keys still to be handed out. -/
  counter : KeyCounter := .first
  /-- The values in the order of their insertion. -/
  values : List α := []
  /-- The keys that have a value, with the positions of the values. -/
  index : List (Key × Nat) := []
  /-- The index leads to values only. -/
  index_lt : ∀ entry ∈ index, entry.2 < values.length := by simp
deriving Repr

namespace Registry

variable {α : Type}

/-- The registry without values. -/
def empty : Registry α := {}

/-- The key that the next value will get. -/
def nextKey (registry : Registry α) : Key := registry.counter.current

/-- The number of values. -/
def size (registry : Registry α) : Nat := registry.values.length

/-- Stores the value that is built for the next key. The index holds a key once: it would forget an
older position of this key. -/
def insertWith (registry : Registry α) (build : Key → α) : Registry α where
  counter := registry.counter.next
  values := registry.values ++ [build registry.nextKey]
  index := registry.index.filter (·.1 ≠ registry.nextKey) ++ [(registry.nextKey, registry.size)]
  index_lt entry hentry := by
    rw [List.length_append, List.length_singleton]
    rcases List.mem_append.mp hentry with hold | hnew
    · exact Nat.lt_succ_of_lt (registry.index_lt entry (List.mem_filter.mp hold).1)
    · rw [List.mem_singleton.mp hnew]
      exact Nat.lt_succ_self registry.size

/-- The position of the value of a key. -/
def position? (registry : Registry α) (key : Key) : Option Nat :=
  (registry.index.find? (·.1 = key)).map (·.2)

/-- The value of a key. -/
def get? (registry : Registry α) (key : Key) : Option α :=
  (registry.position? key).bind (registry.values[·]?)

/-- Whether a key has a value. -/
def contains (registry : Registry α) (key : Key) : Bool := (registry.position? key).isSome

/-- Changes the value of a key, if it has one. -/
def modify (registry : Registry α) (key : Key) (change : α → α) : Registry α :=
  { registry with
    values := match registry.position? key with
      | none => registry.values
      | some position => registry.values.modify position change
    index_lt := fun entry hentry ↦ by
      have hlt := registry.index_lt entry hentry
      split
      · exact hlt
      · rwa [List.length_modify] }

end Registry

end Montage
