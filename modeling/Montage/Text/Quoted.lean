import Montage.Text.Unprinted

/-!
# Quoted text

Messages quote texts that come from files and paths, so that every character can be told apart.
Between double quotes, characters with a shape of their own stand for themselves, except the quote
and the backslash; the common controls have short escapes and all others are written by code point.
-/

set_option autoImplicit false
set_option relaxedAutoImplicit false

namespace Montage.Text

/-- A character as it stands between quotes. -/
def quotedChar (c : Char) : List Char :=
  match c with
  | '\x00' => ['\\', '0']
  | '\t' => ['\\', 't']
  | '\r' => ['\\', 'r']
  | '\n' => ['\\', 'n']
  | '"' => ['\\', '"']
  | '\\' => ['\\', '\\']
  | _ =>
    if isUnprinted c then ['\\', 'u', '\x7b'] ++ Nat.toDigits 16 c.toNat ++ ['\x7d'] else [c]

/-- A text between quotes. -/
def quoted (text : String) : String :=
  String.ofList ('"' :: text.toList.flatMap quotedChar ++ ['"'])

end Montage.Text
