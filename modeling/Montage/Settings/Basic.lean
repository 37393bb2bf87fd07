import Montage.Failure

/-!
# Settings

Everything about a composition that can be configured, with its defaults. Settings from a file may
hold any values; `Settings.check` finds the first one that makes no sense.
-/

set_option autoImplicit false
set_option relaxedAutoImplicit false

namespace Montage

/-- What can be configured. -/
structure Settings where
  /-- The name or path of the rendering program. -/
  program : String := "ffmpeg"
  /-- Arguments that stand between the streams and the output. -/
  qualityFlags : List String := ["-b:v", "10M", "-b:a", "320k"]
  /-- Whether outputs that exist are rendered again. -/
  overwriteExisting : Bool := false
  /-- Whether pictures are interpolated after a change of speed. -/
  motionInterpolation : Bool := true
  /-- The extension of timing files. -/
  timingExtension : String := "gbm"
  /-- The extension of the recording beside a timing file. -/
  sourceExtension : String := "mp4"
  /-- The extension of rendered outputs. -/
  outputExtension : String := "mp4"
  /-- The name of the manifest in the input directory. -/
  manifestName : String := "output.txt"
deriving DecidableEq, Repr

namespace Settings

/-- The settings that have to hold something, with whether they do: the program something besides
blanks, and the extensions something that does not start with a point. -/
def checks (settings : Settings) : List (String × String × Bool) :=
  let isExtension (value : String) : Bool := !value.isEmpty && value.toList.head? != some '.'
  [("ffmpeg.program", settings.program, !(Text.trim settings.program.toList).isEmpty),
    ("pipeline.timing_extension", settings.timingExtension, isExtension settings.timingExtension),
    ("pipeline.source_extension", settings.sourceExtension, isExtension settings.sourceExtension),
    ("pipeline.output_extension", settings.outputExtension, isExtension settings.outputExtension),
    ("pipeline.manifest_name", settings.manifestName, !settings.manifestName.isEmpty)]

/-- Fails on the first setting that makes no sense. -/
def check (settings : Settings) : Except Failure Unit :=
  match settings.checks.find? fun (_, _, holds) ↦ !holds with
  | some (key, value, _) => .error (.invalidSetting key value)
  | none => .ok ()

end Settings

end Montage
