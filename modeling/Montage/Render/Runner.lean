import Montage.Graph.Command
import Montage.Log

/-!
# Runners

A runner is what becomes of commands: in some world, a command is run and leaves the world changed,
says something and may fail. A runner also knows which files the world has.
-/

set_option autoImplicit false
set_option relaxedAutoImplicit false

namespace Montage

/-- What a command left behind. -/
structure RunResult (World : Type) where
  /-- The world after the command. -/
  world : World
  /-- What was reported. -/
  log : List LogEntry := []
  /-- Why the command failed, if it did. -/
  failure? : Option Failure := none

/-- What becomes of commands in a world. -/
structure Runner (World : Type) where
  /-- Whether a file is there. -/
  pathExists : World → Path → Bool
  /-- Runs a command. -/
  run : World → Command → RunResult World

/-- The runner that only reports the commands and leaves the world as it is. -/
def Runner.dry {World : Type} (pathExists : World → Path → Bool) : Runner World where
  pathExists
  run world command :=
    { world, log := [.info ("[dry-run] " ++ " ".intercalate command.words)] }

end Montage
