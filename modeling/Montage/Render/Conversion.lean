import Montage.Graph.OfOutput
import Montage.Graph.Serial
import Montage.Media.Catalogue
import Montage.Render.Runner
import Montage.Text.Quoted

/-!
# Converting outputs

All outputs of a catalogue are converted one after the other: each is compiled to a command, and the
command is run. Outputs that exist already are skipped unless they are to be replaced, and so are
outputs without blocks. The first failure ends the conversion.
-/

set_option autoImplicit false
set_option relaxedAutoImplicit false

namespace Montage

open Media Registry

/-- The command that renders an output. -/
def Media.Catalogue.compileOutput (catalogue : Catalogue) (settings : Settings) (output : Output) :
    Except Failure Command := do
  let graph ← Graph.ofOutput catalogue.inputs settings.motionInterpolation output
  graph.toCommand settings

/-- The command that renders the output of a key. -/
def Media.Catalogue.compile (catalogue : Catalogue) (settings : Settings) (key : Key) :
    Except Failure Command :=
  match catalogue.outputs.get? key with
  | some output => catalogue.compileOutput settings output
  | none => .error (.unknownOutput key.text)

/-- How far a conversion has come. -/
structure Conversion (World : Type) where
  /-- The world as the commands so far have left it. -/
  world : World
  /-- What was reported so far. -/
  log : List LogEntry := []
  /-- The commands that were run, including one that failed. -/
  commands : List Command := []
  /-- The outputs that were rendered. -/
  converted : List Path := []
  /-- The outputs that were skipped. -/
  skipped : List Path := []
  /-- What ended the conversion early, if anything did. -/
  failure? : Option Failure := none

namespace Conversion

variable {World : Type}

/-- Skips an output. -/
def skip (conversion : Conversion World) (output : Output) (entry : LogEntry) :
    Conversion World :=
  { conversion with
    log := conversion.log ++ [entry]
    skipped := conversion.skipped ++ [output.path] }

/-- Ends the conversion. -/
def fail (conversion : Conversion World) (failure : Failure) : Conversion World :=
  { conversion with failure? := some failure }

/-- Runs the command of an output. -/
def render (runner : Runner World) (output : Output) (conversion : Conversion World)
    (command : Command) : Conversion World :=
  let announcement : LogEntry :=
    .info ("Converting " ++ output.key.text ++ " (" ++ toString output.blocks.length ++
      " blocks, " ++ output.playback.toTenthsText ++ "s)")
  let result := runner.run conversion.world command
  { conversion with
    world := result.world
    log := conversion.log ++ announcement :: result.log
    commands := conversion.commands ++ [command]
    converted := match result.failure? with
      | none => conversion.converted ++ [output.path]
      | some _ => conversion.converted
    failure? := result.failure? }

/-- Converts or skips an output. -/
def step (runner : Runner World) (settings : Settings) (catalogue : Catalogue)
    (conversion : Conversion World) (output : Output) : Conversion World :=
  if !settings.overwriteExisting && runner.pathExists conversion.world output.path then
    conversion.skip output
      (.info ("Skipping " ++ Text.quoted output.path.text ++ ": already exists"))
  else if output.blocks = [] then
    conversion.skip output
      (.warn ("Skipping " ++ Text.quoted output.path.text ++ ": no media blocks"))
  else match catalogue.compileOutput settings output with
    | .ok command => conversion.render runner output command
    | .error failure => conversion.fail failure

/-- Converts outputs until one fails. -/
def steps (runner : Runner World) (settings : Settings) (catalogue : Catalogue)
    (conversion : Conversion World) : List Output → Conversion World
  | [] => conversion
  | output :: rest =>
    let next := conversion.step runner settings catalogue output
    if next.failure?.isSome then next else next.steps runner settings catalogue rest

end Conversion

/-- Converts all outputs of a catalogue. -/
def Media.Catalogue.convert {World : Type} (catalogue : Catalogue) (runner : Runner World)
    (settings : Settings) (world : World) : Conversion World :=
  Conversion.steps runner settings catalogue { world } catalogue.outputs.values

end Montage
