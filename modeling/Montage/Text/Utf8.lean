/-!
# Text from bytes

Bytes from outside need not be text. Decoding keeps what is well formed and puts a replacement
character in place of every other byte, or of several bytes together if they begin a character and
it ends too early. The bytes are read once, from left to right, and the only thing remembered is the
character that has begun.
-/

set_option autoImplicit false
set_option relaxedAutoImplicit false

namespace Montage.Text

/-- The character in place of what cannot be decoded. -/
def replacement : Char := '\ufffd'

/-- A character of which some bytes were read. -/
structure Begun where
  /-- The bits so far. -/
  bits : Nat
  /-- The least and greatest value of the next byte. -/
  next : Nat × Nat
  /-- The number of bytes after the next one. -/
  more : Nat

/-- The range of the bytes that continue a character. -/
def continuation : Nat × Nat := (0x80, 0xBF)

/-- The character that a byte above the plain ones begins. After some bytes the next one is limited,
so that no character has two forms and none is outside the range of characters. -/
def Begun.ofByte? (byte : Nat) : Option Begun :=
  if 0xC2 ≤ byte ∧ byte ≤ 0xDF then some ⟨byte % 0x20, continuation, 0⟩
  else if 0xE0 ≤ byte ∧ byte ≤ 0xEF then
    let next :=
      if byte = 0xE0 then (0xA0, 0xBF) else if byte = 0xED then (0x80, 0x9F) else continuation
    some ⟨byte % 0x10, next, 1⟩
  else if 0xF0 ≤ byte ∧ byte ≤ 0xF4 then
    let next :=
      if byte = 0xF0 then (0x90, 0xBF) else if byte = 0xF4 then (0x80, 0x8F) else continuation
    some ⟨byte % 0x08, next, 2⟩
  else none

/-- Reads the first byte of a character: what is complete after it, and what has begun with it. -/
def beginByte (byte : Nat) : List Char × Option Begun :=
  if byte < 0x80 then ([Char.ofNat byte], none)
  else match Begun.ofByte? byte with
    | some begun => ([], some begun)
    | none => ([replacement], none)

/-- Reads a byte after a character has begun or not. -/
def readByte (begun? : Option Begun) (byte : Nat) : List Char × Option Begun :=
  match begun? with
  | none => beginByte byte
  | some begun =>
    if begun.next.1 ≤ byte ∧ byte ≤ begun.next.2 then
      let bits := 0x40 * begun.bits + byte % 0x40
      match begun.more with
      | 0 => ([Char.ofNat bits], none)
      | more + 1 => ([], some ⟨bits, continuation, more⟩)
    else
      let (characters, begun?) := beginByte byte
      (replacement :: characters, begun?)

/-- Decodes bytes after a character has begun or not. -/
def decodeFrom (begun? : Option Begun) : List UInt8 → List Char
  | [] => if begun?.isSome then [replacement] else []
  | byte :: bytes =>
    let (characters, begun?) := readByte begun? byte.toNat
    characters ++ decodeFrom begun? bytes

/-- Decodes bytes. -/
def decode (bytes : List UInt8) : List Char := decodeFrom none bytes

end Montage.Text
