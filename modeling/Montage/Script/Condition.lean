import Montage.Script.Sum
import Montage.Store.Basic

/-!
# Conditions

Conditions compare texts and numbers and ask about files. They are written as separate words, with
operators between or in front of their operands.
-/

set_option autoImplicit false
set_option relaxedAutoImplicit false

namespace Montage.Script

/-- Whether a condition is true, or why it has no meaning. -/
abbrev Truth := Except String Bool

/-- The truth of a condition with one operand. -/
def unaryCondition? (store : Store) (operator operand : String) : Option Bool :=
  let file : Path := ⟨operand⟩
  match operator with
  | "-n" => some (operand != "")
  | "-z" => some (operand == "")
  | "-e" | "-r" | "-w" => some (store.pathExists file)
  | "-f" => some (store.isFile file)
  | "-d" => some (store.isDirectory file)
  | "-s" => some ((store.readBytes file).toOption.any fun content ↦ 0 < content.size)
  | "-x" => some (store.isExecutable file || store.isDirectory file)
  | "-t" | "-L" | "-h" | "-p" | "-S" | "-b" | "-c" => some false
  | _ => none

/-- The number that a word of a condition is. -/
def readInteger (word : String) : Except String Int :=
  match integerOf? word.toList with
  | some n => .ok n
  | none => .error ("Illegal number: " ++ word)

/-- The comparison of numbers that an operator is. -/
def integerRelation? : String → Option (Int → Int → Bool)
  | "-eq" => some (· == ·)
  | "-ne" => some (· != ·)
  | "-lt" => some fun a b ↦ decide (a < b)
  | "-le" => some fun a b ↦ decide (a ≤ b)
  | "-gt" => some fun a b ↦ decide (b < a)
  | "-ge" => some fun a b ↦ decide (b ≤ a)
  | _ => none

/-- The truth of a condition with two operands. -/
def binaryCondition? (operator first second : String) : Option Truth :=
  match operator, integerRelation? operator with
  | "=", _ => some (.ok (first == second))
  | "!=", _ => some (.ok (first != second))
  | "<", _ => some (.ok (decide (first < second)))
  | ">", _ => some (.ok (decide (second < first)))
  | _, some relation => some do return relation (← readInteger first) (← readInteger second)
  | _, none => none

/-- Splits words at the last time that an operator stands between two others. -/
def splitAtLast? (operator : String) (words : List String) :
    Option (List String × List String) :=
  match words.reverse.span (· != operator) with
  | (after, _ :: before) =>
    if after = [] ∨ before = [] then none else some (before.reverse, after.reverse)
  | _ => none

/-- The truth of a condition, where words are taken apart at most `fuel` times. -/
def conditionTruth (store : Store) : (fuel : Nat) → List String → Truth
  | 0, _ => .error "too long"
  | _ + 1, [] => .ok false
  | _ + 1, [word] => .ok (word != "")
  | fuel + 1, first :: rest =>
    let words := first :: rest
    let whole? : Option Truth := match words with
      | [operator, operand] => (unaryCondition? store operator operand).map .ok
      | [first, operator, second] => binaryCondition? operator first second
      | _ => none
    match whole?, splitAtLast? "-o" words, splitAtLast? "-a" words with
    | some truth, _, _ => truth
    | none, some (before, after), _ => do
      let a ← conditionTruth store fuel before
      let b ← conditionTruth store fuel after
      return a || b
    | none, none, some (before, after) => do
      let a ← conditionTruth store fuel before
      let b ← conditionTruth store fuel after
      return a && b
    | none, none, none =>
      if first = "!" then (conditionTruth store fuel rest).map not
      else if first = "(" ∧ rest.getLast? = some ")" then conditionTruth store fuel rest.dropLast
      else .error (first ++ ": unexpected operator")

end Montage.Script
