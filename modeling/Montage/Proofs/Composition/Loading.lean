import Montage.Proofs.Composition.Planning
import Montage.Proofs.Store.ReadBack
import Montage.Proofs.Timing.AcceptedTicks

/-!
# Loading timing files

The timing files of a directory are those files among its names that have the extension of timing
files (`mem_timingFilesAmong`). Loading reads them one after the other, each on its own recording
(`readingOf`). It gives the timeline after these readings if every file has one, and nothing
otherwise (`loadTimings_eq_ok_iff`).
-/

set_option autoImplicit false
set_option relaxedAutoImplicit false

namespace Montage.Composition

open Timing Logged

variable {settings : Settings} {store : Store} {input file source : Path} {files : List Path}
  {names : List String} {timeline next : Timeline} {reading : Timeline.Reading}

/-! ### Timing files -/

/-- The paths of timing files with these names, ordered by name. -/
def timingFilesAmong (settings : Settings) (store : Store) (input : Path) (names : List String) :
    List Path :=
  ((names.mergeSort fun a b ↦ decide (a ≤ b)).map fun name ↦ input.join ⟨name⟩).filter fun file ↦
    store.isFile file ∧ file.extension? = some settings.timingExtension

theorem timingFiles_of_names (hnames : store.namesIn input = .ok names) :
    timingFiles settings store input =
      if timingFilesAmong settings store input names = [] then .error (.noTimingFiles input.text)
      else .ok (timingFilesAmong settings store input names) := by
  rw [timingFiles, hnames]
  rfl

theorem mem_timingFilesAmong :
    file ∈ timingFilesAmong settings store input names ↔
      (∃ name ∈ names, input.join ⟨name⟩ = file) ∧ store.isFile file ∧
        file.extension? = some settings.timingExtension := by
  simp [timingFilesAmong, List.mem_mergeSort]

/-- Names that are listed in order stay in this order. -/
theorem timingFilesAmong_of_pairwise (h : names.Pairwise fun a b ↦ decide (a ≤ b)) :
    timingFilesAmong settings store input names =
      (names.map fun name ↦ input.join ⟨name⟩).filter fun file ↦
        store.isFile file ∧ file.extension? = some settings.timingExtension := by
  rw [timingFilesAmong, List.mergeSort_of_pairwise h]

/-- A timing file has one of the names of the directory, and the extension of timing files. -/
theorem exists_name_of_mem_timingFiles
    (h : timingFiles settings store input = .ok files) (hfile : file ∈ files) :
    ∃ names, store.namesIn input = .ok names ∧ (∃ name ∈ names, input.join ⟨name⟩ = file) ∧
      file.extension? = some settings.timingExtension := by
  cases hnames : store.namesIn input with
  | error fault =>
    rw [timingFiles, hnames] at h
    cases h
  | ok names =>
    rw [timingFiles_of_names hnames] at h
    split_ifs at h
    cases h
    obtain ⟨hname, -, hextension⟩ := mem_timingFilesAmong.mp hfile
    exact ⟨names, rfl, hname, hextension⟩

theorem sourceFor_eq_ok_iff :
    sourceFor settings file = .ok source ↔
      file.withExtension? settings.sourceExtension = some source := by
  unfold sourceFor
  cases file.withExtension? settings.sourceExtension with
  | none => simp
  | some found => simp

/-! ### Readings -/

/-- What a timing file gives to read. -/
def readingOf (settings : Settings) (store : Store) (file : Path) :
    Except Failure Timeline.Reading := do
  let source ← sourceFor settings file
  let text ← ofFile (store.readText file)
  return .text source text

/-- The timeline after a timing file, if it can be read. -/
def readFile (settings : Settings) (store : Store) (timeline : Timeline) (file : Path) :
    Except Failure Timeline := do
  let reading ← readingOf settings store file
  return timeline.read reading

/-- A timing file is read on its recording. -/
theorem sourceFor_of_readingOf (h : readingOf settings store file = .ok reading) :
    sourceFor settings file = .ok reading.recording := by
  obtain ⟨source, hsource, hrest⟩ := Failure.bind_eq_ok.mp h
  obtain ⟨text, -, hreading⟩ := Failure.bind_eq_ok.mp hrest
  cases hreading
  exact hsource

theorem yields_loadFile (timeline : Timeline) (file : Path) :
    Yields (loadFile settings store timeline file) (readFile settings store timeline file) := by
  have hsteps : readFile settings store timeline file = do
      let source ← sourceFor settings file
      let text ← ofFile (store.readText file)
      return timeline.recordText source text := by
    simp only [readFile, readingOf, bind_assoc]
    rfl
  rw [hsteps]
  refine (yields_attempt _).bind fun source ↦ (yields_attempt _).bind fun text ↦ ?_
  exact (yields_pure _).say_bind _

/-- Files are read one after the other if each of them can be read. -/
theorem foldlM_readFile_eq_ok_iff :
    files.foldlM (readFile settings store) timeline = Except.ok next ↔
      ∃ readings, List.Forall₂ (fun file reading ↦ readingOf settings store file = .ok reading)
        files readings ∧ next = readings.foldl Timeline.read timeline := by
  induction files generalizing timeline with
  | nil =>
    constructor
    · intro h
      cases h
      exact ⟨[], .nil, rfl⟩
    · rintro ⟨readings, hreadings, rfl⟩
      cases hreadings
      rfl
  | cons file files ih =>
    rw [List.foldlM_cons, Failure.bind_eq_ok]
    constructor
    · rintro ⟨between, hfile, hfiles⟩
      obtain ⟨reading, hreading, hread⟩ := Failure.bind_eq_ok.mp hfile
      cases hread
      obtain ⟨readings, hreadings, rfl⟩ := ih.mp hfiles
      exact ⟨reading :: readings, .cons hreading hreadings, rfl⟩
    · rintro ⟨readings, hall, rfl⟩
      cases hall with
      | @cons _ reading _ readings hreading hreadings =>
        refine ⟨timeline.read reading, ?_, ih.mpr ⟨readings, hreadings, rfl⟩⟩
        rw [readFile, hreading]
        rfl

/-- Loading reads one timing file after the other. -/
theorem yields_loadTimings (settings : Settings) (store : Store) (input : Path) :
    Yields (loadTimings settings store input) (do
      let files ← timingFiles settings store input
      files.foldlM (readFile settings store) {}) := by
  refine Yields.say_bind ?_ _
  refine (yields_attempt _).bind fun files ↦ ?_
  refine Yields.say_bind ?_ _
  rw [← bind_pure (files.foldlM (readFile settings store) {})]
  refine (yields_foldlM yields_loadFile files {}).bind fun timeline ↦ ?_
  exact (yields_pure timeline).say_bind _

/-- Loading gives the timeline after the readings of all timing files, if each of them can be
read. -/
theorem loadTimings_eq_ok_iff :
    (loadTimings settings store input).outcome.1 = .ok timeline ↔
      ∃ files readings, timingFiles settings store input = .ok files ∧
        List.Forall₂ (fun file reading ↦ readingOf settings store file = .ok reading)
          files readings ∧ timeline = Timeline.after readings := by
  rw [(yields_loadTimings settings store input).outcome]
  constructor
  · intro h
    obtain ⟨files, hfiles, hread⟩ := Failure.bind_eq_ok.mp h
    obtain ⟨readings, hreadings, rfl⟩ := foldlM_readFile_eq_ok_iff.mp hread
    exact ⟨files, readings, hfiles, hreadings, rfl⟩
  · rintro ⟨files, readings, hfiles, hreadings, rfl⟩
    rw [hfiles, Failure.ok_bind, foldlM_readFile_eq_ok_iff]
    exact ⟨readings, hreadings, rfl⟩

end Montage.Composition
