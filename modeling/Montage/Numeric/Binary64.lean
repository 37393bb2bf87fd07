/-!
# Binary64 numbers

Times, speeds and angles are binary64 numbers. A number is kept as its sign and its rank: the place
of its absolute value in the increasing list of all absolute values, which starts with zero at rank
`0` and the least positive number at rank `1` and ends with infinity at rank `infinityRank`. The
comparisons of the format then are comparisons of integers (`Binary64.position`), in which both
zeros have the same place and `nan` has none.

Scope. The operations of the format are in `Montage.Numeric.Arithmetic`, its decimal notation in
`Montage.Numeric.Decimal` and `Montage.Numeric.Notation`. There is one `nan`: its sign and payload
are never looked at.
-/

set_option autoImplicit false
set_option relaxedAutoImplicit false

namespace Montage.Numeric

/-- The number of ranks that share an exponent. -/
def ranksPerExponent : Nat := 4503599627370496

/-- The rank of infinity, which follows the 2047 exponents of the finite numbers. -/
def infinityRank : Nat := 2047 * ranksPerExponent

/-- A binary64 number. -/
inductive Binary64 where
  /-- No number at all, the outcome of operations without a value. -/
  | nan
  /-- The number of this sign whose absolute value has this rank. -/
  | number (negative : Bool) (rank : Fin (infinityRank + 1))
deriving DecidableEq, Repr

namespace Binary64

/-- The number of the given sign and rank, where ranks beyond infinity count as infinity. -/
def ofRank (negative : Bool) (rank : Nat) : Binary64 :=
  .number negative ⟨min rank infinityRank, Nat.lt_succ_of_le (Nat.min_le_right _ _)⟩

/-- Zero, with the given sign. -/
def zero (negative : Bool) : Binary64 := ofRank negative 0

/-- Infinity, with the given sign. -/
def infinite (negative : Bool) : Binary64 := ofRank negative infinityRank

/-- The place of a number in the order of the format; both zeros have place `0`. -/
def position : Binary64 → Option Int
  | nan => none
  | number false rank => some rank.val
  | number true rank => some (-rank.val)

/-- Whether two numbers stand in a relation of their places; `nan` stands in none. -/
def compareBy (relation : Int → Int → Bool) (x y : Binary64) : Bool :=
  match x.position, y.position with
  | some i, some j => relation i j
  | _, _ => false

instance : LE Binary64 where
  le x y := x.compareBy (fun i j ↦ decide (i ≤ j)) y = true

instance : LT Binary64 where
  lt x y := x.compareBy (fun i j ↦ decide (i < j)) y = true

instance (x y : Binary64) : Decidable (x ≤ y) :=
  inferInstanceAs (Decidable (_ = true))

instance (x y : Binary64) : Decidable (x < y) :=
  inferInstanceAs (Decidable (_ = true))

/-- Equality of the format: the zeros agree with each other, and `nan` with nothing. -/
def agrees (x y : Binary64) : Bool := x.compareBy (fun i j ↦ decide (i = j)) y

/-- Neither infinite nor `nan`. -/
def isFinite : Binary64 → Bool
  | nan => false
  | number _ rank => decide (rank.val < infinityRank)

theorem le_iff {x y : Binary64} :
    x ≤ y ↔ ∃ i j, x.position = some i ∧ y.position = some j ∧ i ≤ j := by
  change x.compareBy _ y = true ↔ _
  unfold compareBy
  cases x.position <;> cases y.position <;> simp

theorem lt_iff {x y : Binary64} :
    x < y ↔ ∃ i j, x.position = some i ∧ y.position = some j ∧ i < j := by
  change x.compareBy _ y = true ↔ _
  unfold compareBy
  cases x.position <;> cases y.position <;> simp

theorem agrees_iff {x y : Binary64} :
    x.agrees y = true ↔ ∃ i j, x.position = some i ∧ y.position = some j ∧ i = j := by
  unfold agrees compareBy
  cases x.position with
  | none => simp
  | some i =>
    cases y.position with
    | none => simp
    | some j =>
      constructor
      · intro h
        exact ⟨i, j, rfl, rfl, of_decide_eq_true h⟩
      · rintro ⟨_, _, hi, hj, h⟩
        cases hi
        cases hj
        exact decide_eq_true h

end Binary64

end Montage.Numeric
