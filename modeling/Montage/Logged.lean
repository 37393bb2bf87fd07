import Montage.Failure
import Montage.Log

/-!
# Computations with a log

A computation that reports what it does and may fail. What it reported before a failure remains.
-/

set_option autoImplicit false
set_option relaxedAutoImplicit false

namespace Montage

/-- A computation with a log, which may fail. -/
abbrev Logged := ExceptT Failure (StateM (List LogEntry))

namespace Logged

variable {α : Type}

/-- Reports entries. -/
def say (entries : List LogEntry) : Logged Unit := modify (· ++ entries)

/-- Reports an entry on the course of events. -/
def info (message : String) : Logged Unit := say [.info message]

/-- Reports an entry on something left out. -/
def warn (message : String) : Logged Unit := say [.warn message]

/-- A computation that reports nothing. -/
def attempt (outcome : Except Failure α) : Logged α := ExceptT.mk (pure outcome)

/-- The outcome of a computation and its log. -/
def outcome (computation : Logged α) : Except Failure α × List LogEntry :=
  (ExceptT.run computation).run []

end Logged

end Montage
