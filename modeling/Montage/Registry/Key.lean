/-!
# Keys

Inputs and outputs are registered under short alphabetic keys, handed out in a fixed sequence: `AA`,
`AB`, up to `AZ`, then `BA` and on to `ZZ`, then `AAA`. A counter holds the letters of the next key.
-/

set_option autoImplicit false
set_option relaxedAutoImplicit false

namespace Montage.Registry

/-- The key of a registered value. Keys that were never handed out are keys without a value. -/
structure Key where
  /-- The text of the key. -/
  text : String
deriving DecidableEq, Repr

/-- The counter that hands out keys. -/
structure KeyCounter where
  /-- The letters of the next key, from `0` for `A` to `25` for `Z`. -/
  letters : List (Fin 26)
deriving DecidableEq, Repr

namespace KeyCounter

/-- The counter before any key was handed out. -/
def first : KeyCounter := ⟨[0, 0]⟩

/-- The letter of the alphabet at a place. -/
def letter (place : Fin 26) : Char := Char.ofNat ('A'.toNat + place.val)

/-- The key that will be handed out next. -/
def current (counter : KeyCounter) : Key := ⟨String.ofList (counter.letters.map letter)⟩

/-- The letters that follow, given and returned from the last letter to the first. A letter after
`Z` is an `A` and carries on to the letter before it; past the first letter, the key grows by an
`A`. -/
def successor : List (Fin 26) → List (Fin 26)
  | [] => [0]
  | place :: before =>
    if place = Fin.last 25 then 0 :: successor before else (place + 1) :: before

/-- The counter after the current key was handed out. -/
def next (counter : KeyCounter) : KeyCounter := ⟨(successor counter.letters.reverse).reverse⟩

/-- The counter after a number of keys were handed out. -/
def skip (counter : KeyCounter) : Nat → KeyCounter
  | 0 => counter
  | count + 1 => counter.next.skip count

end KeyCounter

end Montage.Registry
