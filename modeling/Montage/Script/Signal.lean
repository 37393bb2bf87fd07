import Montage.Script.Token

/-!
# Signals

A signal has a number and, up to 31, a name. What it does to a script that does not expect it
depends on the number: most signals end the script, some stop it, and a few do nothing.
-/

set_option autoImplicit false
set_option relaxedAutoImplicit false

namespace Montage.Script.Signal

/-- The names of the signals from number one on, each with the words for a script that it ended. -/
def table : List (String × String) := [
  ("HUP", "Hangup"), ("INT", "Interrupt"), ("QUIT", "Quit"), ("ILL", "Illegal instruction"),
  ("TRAP", "Trace/breakpoint trap"), ("ABRT", "Aborted"), ("BUS", "Bus error"),
  ("FPE", "Floating point exception"), ("KILL", "Killed"), ("USR1", "User defined signal 1"),
  ("SEGV", "Segmentation fault"), ("USR2", "User defined signal 2"), ("PIPE", "Broken pipe"),
  ("ALRM", "Alarm clock"), ("TERM", "Terminated"), ("STKFLT", "Stack fault"),
  ("CHLD", "Child exited"), ("CONT", "Continued"), ("STOP", "Stopped (signal)"),
  ("TSTP", "Stopped"), ("TTIN", "Stopped (tty input)"), ("TTOU", "Stopped (tty output)"),
  ("URG", "Urgent I/O condition"), ("XCPU", "CPU time limit exceeded"),
  ("XFSZ", "File size limit exceeded"), ("VTALRM", "Virtual timer expired"),
  ("PROF", "Profiling timer expired"), ("WINCH", "Window changed"), ("IO", "I/O possible"),
  ("PWR", "Power failure"), ("SYS", "Bad system call")]

/-- The name of a signal, if it has one, and the words for a script that it ended. -/
def row? (signal : Nat) : Option (String × String) :=
  if signal = 0 then none else table[signal - 1]?

/-- The name of a signal, if it has one. -/
def name? (signal : Nat) : Option String := (row? signal).map (·.1)

/-- The greatest number of a signal. -/
def greatest : Nat := 64

/-- The first number of the signals that programs may use as they like. -/
def firstFree : Nat := 34

/-- The words for a script that a signal ended. Two signals go without saying. -/
def words? (signal : Nat) : Option String :=
  if name? signal ∈ [some "INT", some "PIPE"] then none
  else match row? signal with
    | some (_, words) => some words
    | none => some ("Real-time signal " ++ toString (signal - firstFree))

/-- The names by which scripts may call signals that have no name of their own. -/
def freeNames : List (String × Nat) :=
  ("RTMIN", firstFree) :: ("RTMAX", greatest) ::
    ((List.range' 1 15).map fun n ↦ ("RTMIN+" ++ toString n, firstFree + n)) ++
    ((List.range' 1 14).map fun n ↦ ("RTMAX-" ++ toString n, greatest - n))

/-- The signal of a number or name, in capital or small letters. Zero is the signal that is not
sent. -/
def ofText? (text : String) : Option Nat :=
  if text ≠ "" ∧ text.toList.all Char.isDigit then
    let number := numberOf text.toList
    if number ≤ greatest then some number else none
  else
    let name := text.map Char.toUpper
    match table.findIdx? (·.1 == name) with
    | some index => some (index + 1)
    | none => freeNames.lookup name

/-- What a signal does. -/
inductive Effect where
  /-- It ends the script. -/
  | ends
  /-- It stops the script until another signal comes. -/
  | stops
  /-- It does nothing. -/
  | passes
deriving DecidableEq, Repr

/-- The effect of a signal. -/
def effect (signal : Nat) : Effect :=
  if signal ∈ [0, 17, 18, 23, 28] then .passes
  else if signal ∈ [19, 20, 21, 22] then .stops
  else .ends

end Montage.Script.Signal
