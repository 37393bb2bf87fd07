import Montage.Settings.Basic
import Montage.Store.Basic
import Montage.Toml.Document
import Montage.Toml.Layout

/-!
# Settings files

Settings are kept in a file with three tables, one for the rendering program, one for filter graphs
and one for the names of files. Reading takes the defaults for everything that a file leaves out and
ignores keys that mean nothing; writing leaves nothing out, so what is written reads back as it was.
-/

set_option autoImplicit false
set_option relaxedAutoImplicit false

namespace Montage.Settings

open Toml

/-! ### Reading -/

/-- A field of a table, given with the key that it has and the place that it has in a list. -/
structure Field (α : Type) where
  /-- The key of the field. -/
  key : String
  /-- The place of the field in a list of values. -/
  place : Nat
  /-- The value that the field gets from a file, unless it is of the wrong kind. -/
  read : Value → Option α

/-- A text. -/
def text? : Value → Option String
  | .text characters => some characters
  | _ => none

/-- A truth value. -/
def truth? : Value → Option Bool
  | .boolean value => some value
  | _ => none

/-- A list of texts. -/
def texts? : Value → Option (List String)
  | .array items => items.mapM text?
  | _ => none

/-- The value that a section has for a field. A section is a table, or a list of the values of its
fields in order; a date or time has no fields, so it leaves out all of them. -/
def valueOf? {α : Type} (field : Field α) : Value → Option (Option Value)
  | .table _ entries => some (entries.lookup field.key)
  | .array items => some items[field.place]?
  | .tables items => some ((items[field.place]?).map (.table .headed))
  | .moment _ => some none
  | _ => none

/-- The field of a section, or its default if the section or the field is left out. -/
def fieldOf {α : Type} (section? : Option Value) (field : Field α) (default : α) : Option α :=
  match section? with
  | none => some default
  | some value =>
    (valueOf? field value).bind fun
      | none => some default
      | some value => field.read value

/-- The settings that a table holds, unless a value is of the wrong kind. -/
def ofEntries? (entries : Entries) : Option Settings := do
  let defaults : Settings := {}
  let program := entries.lookup "ffmpeg"
  let graph := entries.lookup "graph"
  let files := entries.lookup "pipeline"
  return {
    program := ← fieldOf program ⟨"program", 0, text?⟩ defaults.program
    qualityFlags := ← fieldOf program ⟨"quality_flags", 1, texts?⟩ defaults.qualityFlags
    overwriteExisting :=
      ← fieldOf program ⟨"overwrite_existing", 2, truth?⟩ defaults.overwriteExisting
    motionInterpolation :=
      ← fieldOf graph ⟨"motion_interpolation", 0, truth?⟩ defaults.motionInterpolation
    timingExtension := ← fieldOf files ⟨"timing_extension", 0, text?⟩ defaults.timingExtension
    sourceExtension := ← fieldOf files ⟨"source_extension", 1, text?⟩ defaults.sourceExtension
    outputExtension := ← fieldOf files ⟨"output_extension", 2, text?⟩ defaults.outputExtension
    manifestName := ← fieldOf files ⟨"manifest_name", 3, text?⟩ defaults.manifestName }

/-- Reads settings. -/
def ofToml? (text : String) : Option Settings := (Toml.ofText? text).bind ofEntries?

/-- Reads a settings file. A file that cannot be read counts as not found, whatever the reason. -/
def load (store : Store) (path : Path) : Except Failure Settings :=
  match store.readText path with
  | .error _ => .error (.settingsNotFound path.text)
  | .ok text =>
    match ofToml? text with
    | none => .error (.malformedSettings path.text)
    | some settings => .ok settings

/-! ### Writing -/

/-- The lines of a settings file. -/
def toChars (settings : Settings) : List Char :=
  let line (key value : String) : List Char := lineChars key (textChars value.toList)
  tableChars "ffmpeg" [
    line "program" settings.program,
    lineChars "quality_flags" (listChars (settings.qualityFlags.map String.toList)),
    lineChars "overwrite_existing" (truthChars settings.overwriteExisting)] ++
  '\n' :: tableChars "graph" [
    lineChars "motion_interpolation" (truthChars settings.motionInterpolation)] ++
  '\n' :: tableChars "pipeline" [
    line "timing_extension" settings.timingExtension,
    line "source_extension" settings.sourceExtension,
    line "output_extension" settings.outputExtension,
    line "manifest_name" settings.manifestName]

/-- The text of a settings file. -/
def toToml (settings : Settings) : String := String.ofList settings.toChars

/-- Writes a settings file. -/
def save (settings : Settings) (store : Store) (path : Path) : Except Failure Store :=
  (store.write path fun _ ↦ settings.toToml.toUTF8).mapError .file

end Montage.Settings
