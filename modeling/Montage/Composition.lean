import Montage.Logged
import Montage.Manifest
import Montage.Render.Conversion
import Montage.Store.Basic
import Montage.Timing.Timeline

/-!
# Compositions

A composition turns a directory of timing files and a manifest into rendered outputs: the timing
files are found and read, each on the recording beside it, the manifest is read, its outputs are
planned as media blocks, and the outputs are converted.
-/

set_option autoImplicit false
set_option relaxedAutoImplicit false

namespace Montage.Composition

open Timing Media Logged

/-- Turns a file's fault into a failure. -/
def ofFile {α : Type} (outcome : Except FileFault α) : Except Failure α :=
  outcome.mapError .file

/-- The timing files of a directory, ordered by name. -/
def timingFiles (settings : Settings) (store : Store) (input : Path) :
    Except Failure (List Path) := do
  let names ← ofFile (store.namesIn input)
  let files := (names.mergeSort (fun a b ↦ decide (a ≤ b))).map fun name ↦ input.join ⟨name⟩
  let timing := files.filter fun file ↦
    store.isFile file ∧ file.extension? = some settings.timingExtension
  if timing = [] then throw (.noTimingFiles input.text) else return timing

/-- The recording that a timing file belongs to. -/
def sourceFor (settings : Settings) (file : Path) : Except Failure Path :=
  match file.withExtension? settings.sourceExtension with
  | some source => .ok source
  | none => .error (.defect (.separatorInExtension settings.sourceExtension))

/-- The file of an output. -/
def outputPath (settings : Settings) (directory : Path) (name : String) : Path :=
  directory.join ⟨name ++ "." ++ settings.outputExtension⟩

/-- Adds a timing file to a timeline. -/
def loadFile (settings : Settings) (store : Store) (timeline : Timeline) (file : Path) :
    Logged Timeline := do
  let source ← attempt (sourceFor settings file)
  let text ← attempt (ofFile (store.readText file))
  say (Timeline.textLog text)
  return timeline.recordText source text

/-- Reads all timing files of a directory. -/
def loadTimings (settings : Settings) (store : Store) (input : Path) : Logged Timeline := do
  info "🔎 Step 1: Discovering timing files..."
  let files ← attempt (timingFiles settings store input)
  info ("⏱️  Step 2: Parsing " ++ toString files.length ++ " timing files...")
  let timeline ← files.foldlM (loadFile settings store) {}
  info ("   ✅ Runs: " ++ toString timeline.runs.length ++ ", speed changes: " ++
    toString timeline.changes.length)
  return timeline

/-- Reads a manifest. -/
def loadManifest (store : Store) (path : Path) : Logged (List OutputSpec) := do
  let manifest := Manifest.ofText (← attempt (ofFile (store.readText path)))
  say manifest.log
  return manifest.outputs

/-- The intervals of a complete run, cut and retimed at all speed changes. -/
def runIntervals (timeline : Timeline) (code : RunCode) : Except Failure (List Interval) := do
  match timeline.run? code with
  | none => throw (.unknownRun code.toText)
  | some run =>
    run.checkComplete code
    return resolve run.intervals timeline.changes

/-- Appends a run to an output, and counts its blocks. -/
def addRun (timeline : Timeline) (output : Registry.Key) (filters : List VisualFilter)
    (planned : Catalogue × Nat) (code : RunCode) : Except Failure (Catalogue × Nat) := do
  let intervals ← runIntervals timeline code
  let catalogue ← planned.1.addIntervals output intervals filters
  return (catalogue, planned.2 + intervals.length)

/-- Registers an output and appends all of its runs. -/
def addOutput (settings : Settings) (timeline : Timeline) (directory : Path)
    (catalogue : Catalogue) (spec : OutputSpec) : Logged Catalogue := do
  let (catalogue, key) := catalogue.addOutput (outputPath settings directory spec.name)
  if spec.runs = [] then warn ("Output " ++ spec.name ++ " lists no runs")
  let (catalogue, blocks) ← attempt <|
    spec.runs.foldlM (addRun timeline key spec.filters) (catalogue, 0)
  info ("   " ++ spec.name ++ " [" ++ key.text ++ "]: " ++ toString spec.runs.length ++
    " runs, " ++ toString blocks ++ " blocks")
  return catalogue

/-- Plans all outputs. -/
def planOutputs (settings : Settings) (timeline : Timeline) (directory : Path)
    (specs : List OutputSpec) : Logged Catalogue :=
  specs.foldlM (addOutput settings timeline directory) {}

/-- Reads the timing files and the manifest of a directory and plans all outputs. -/
def plan (settings : Settings) (store : Store) (input output : Path) : Logged Catalogue := do
  let timeline ← loadTimings settings store input
  let manifest := input.join ⟨settings.manifestName⟩
  info ("📋 Step 3: Reading manifest " ++ Text.quoted manifest.text)
  let specs ← loadManifest store manifest
  info ("   Outputs declared: " ++ toString specs.length)
  info "🧩 Step 4: Planning media blocks..."
  planOutputs settings timeline output specs

/-- Plans and converts all outputs. -/
def compose (settings : Settings) (runner : Runner Store) (store : Store) (input output : Path) :
    Conversion Store :=
  let opening := [LogEntry.info "🎬 Starting composition",
    .info ("   Input: " ++ Text.quoted input.text),
    .info ("   Output: " ++ Text.quoted output.text)]
  match (plan settings store input output).outcome with
  | (.error failure, log) => { world := store, log := opening ++ log, failure? := some failure }
  | (.ok catalogue, log) =>
    let conversion := catalogue.convert runner settings store
    let closing := match conversion.failure? with
      | some _ => []
      | none => [LogEntry.info ("🎉 Composition complete: " ++
          toString conversion.converted.length ++ " converted, " ++
          toString conversion.skipped.length ++ " skipped")]
    { conversion with
      log := opening ++ log ++ [.info "🎞️  Step 5: Converting outputs..."] ++ conversion.log ++
        closing }

end Montage.Composition
