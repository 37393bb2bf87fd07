import Montage.Composition

/-!
# A demonstration

One run is recorded from a short timing file, resolved, planned and compiled, and every step is
printed.
-/

set_option autoImplicit false
set_option relaxedAutoImplicit false

namespace Montage.Demonstration

open Timing

/-- The timing file. -/
def ticks : String := "1=0 ab1cp0a\n2=10 ab1cp0b|ab1cp1a\n3=15 x2\n4=20 ab1cp1b\n"

/-- The lines of the demonstration, or the failure that ends it. -/
def lines : Except Failure (List String) := do
  let timeline := Timeline.recordText ⟨"clip.mp4"⟩ {} ticks
  let intervals ← timeline.resolveRun (← RunCode.ofText "ab1")
  let (catalogue, output) := Media.Catalogue.addOutput {} ⟨"ab1.mp4"⟩
  let catalogue ← catalogue.addIntervals output intervals []
  let command ← catalogue.compile {} output
  return ["🎬 Testing Tick-Compositor Core Functionality",
      "", "1. Parsing tick codes...", "   Timed lines: " ++ toString (Timeline.timedLines ticks),
      "", "2. Resolving speed changes..."] ++
    intervals.map (fun interval ↦ "   " ++ interval.toText) ++
    ["", "3. Planning blocks...", "   Blocks: " ++ toString intervals.length,
      "", "4. Compiling filter graph...", "   " ++ command.filterText,
      "", "5. Command line:", "   " ++ " ".intercalate command.words,
      "", "🎉 Core pipeline is working."]

/-- The text of the demonstration, every line with its end. -/
def text : Except Failure String :=
  lines.map fun lines ↦ "".intercalate (lines.map (· ++ "\n"))

end Montage.Demonstration
