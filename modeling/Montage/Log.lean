import Montage.Text.Pieces

/-!
# Log entries

What happens is reported as a list of entries, in order. The list is a result like any other. When
entries are printed, the characters that steer a terminal are written by their codes, so that no
file or path can do so (`LogEntry.lines`).
-/

set_option autoImplicit false
set_option relaxedAutoImplicit false

namespace Montage

/-- How much an entry matters. -/
inductive Severity where
  /-- A detail, reported only if it is asked for. -/
  | debug
  /-- The course of events. -/
  | info
  /-- Something was left out or looks wrong. -/
  | warn
deriving DecidableEq, Repr

/-- The word in front of the entries of a severity. -/
def Severity.word : Severity → String
  | debug => "DEBUG"
  | info => "INFO"
  | warn => "WARN"

/-- An entry of the log. -/
structure LogEntry where
  /-- How much the entry matters. -/
  severity : Severity
  /-- What happened. -/
  message : String
deriving DecidableEq, Repr

namespace LogEntry

/-- An entry on a detail. -/
def debug (message : String) : LogEntry := ⟨.debug, message⟩

/-- An entry on the course of events. -/
def info (message : String) : LogEntry := ⟨.info, message⟩

/-- An entry on something left out. -/
def warn (message : String) : LogEntry := ⟨.warn, message⟩

/-- The entry with its severity in front. -/
def toText (entry : LogEntry) : String := entry.severity.word ++ " " ++ entry.message

/-- A character as it is printed. Bell, backspace, form feed, escape and delete are written by two
digits, and the controls from U+0080 to U+009F by code point. -/
def printedChar (c : Char) : List Char :=
  match c with
  | '\x07' => "\\x07".toList
  | '\x08' => "\\x08".toList
  | '\x0c' => "\\x0c".toList
  | '\x1b' => "\\x1b".toList
  | '\x7f' => "\\x7f".toList
  | _ =>
    if 0x80 ≤ c.toNat ∧ c.toNat ≤ 0x9f then
      ['\\', 'u', '\x7b'] ++ Nat.toDigits 16 c.toNat ++ ['\x7d']
    else [c]

/-- The lines of an entry as it is printed. -/
def lines (entry : LogEntry) : List String :=
  (Text.lines (entry.toText.toList.flatMap printedChar ++ ['\n'])).map String.ofList

end LogEntry

end Montage
