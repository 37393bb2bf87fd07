import Montage.Proofs.Composition.Loading
import Montage.Proofs.Store.Names
import Montage.Proofs.Timing.OtherRecordings

/-!
# What another timing file does to a run

Timing files that lie side by side are read on different recordings: the name of a recording is that
of its timing file with another extension, and the extension that it replaces is the same for all of
them (`eq_of_same_sourceFor`). A timing file that does not name a run therefore has nothing to do
with it. It can be given any other text that does not name the run either: the run is loaded as
before and has the same fragments, although the speeds that the file declares go into the one list
that all runs are resolved by (`unaffected_by_other_file`).

What two such directories have in common is told file by file. They hold the same timing files
(`timingFiles_eq`), each of which gives the same reading or is the changed one
(`agreeOff_of_readingOf`), and readings like these agree on everything off one recording.
-/

set_option autoImplicit false
set_option relaxedAutoImplicit false

namespace Montage

open Montage.Path

/-! ### Directories that differ in one file -/

/-- Two stores in which a directory differs in the text of one file only. -/
structure Store.DiffersOnlyIn (store other : Store) (directory : Path) (changed : String) :
    Prop where
  /-- The directory has the same names, and that of the file is one of them. -/
  exists_names : ∃ names others, store.namesIn directory = .ok names ∧
    other.namesIn directory = .ok others ∧ names.Perm others ∧ changed ∈ names
  /-- The name leads to a file. -/
  isFile : store.isFile (directory.join ⟨changed⟩) ∧ other.isFile (directory.join ⟨changed⟩)
  /-- Every other name leads to the same. -/
  find_eq : ∀ names, store.namesIn directory = .ok names → ∀ name ∈ names, name ≠ changed →
    store.find (directory.join ⟨name⟩) = other.find (directory.join ⟨name⟩)

end Montage

namespace Montage.Composition

open Montage.Path Timing Timeline.Reading

variable {settings : Settings} {store other : Store} {input : Path} {changed name : String}
  {names others : List String} {code : RunCode}

/-- Names that are listed in another order are sorted into the same one. -/
theorem mergeSort_eq_of_perm (h : names.Perm others) :
    names.mergeSort (fun a b ↦ decide (a ≤ b)) = others.mergeSort (fun a b ↦ decide (a ≤ b)) := by
  have hsorted (names : List String) :
      (names.mergeSort fun a b ↦ decide (a ≤ b)).Pairwise fun a b ↦ decide (a ≤ b) := by
    apply List.pairwise_mergeSort
    · intro a b c hab hbc
      exact decide_eq_true (String.le_trans (of_decide_eq_true hab) (of_decide_eq_true hbc))
    · intro a b
      simpa using String.le_total a b
  have hperm : (names.mergeSort fun a b ↦ decide (a ≤ b)).Perm
      (others.mergeSort fun a b ↦ decide (a ≤ b)) :=
    ((List.mergeSort_perm names _).trans h).trans (List.mergeSort_perm others _).symm
  refine hperm.eq_of_pairwise (fun a b _ _ hab hba ↦ ?_) (hsorted names) (hsorted others)
  exact String.le_antisymm (of_decide_eq_true hab) (of_decide_eq_true hba)

/-- What is found under the names of the directory is a file in both stores or in neither. -/
theorem isFile_eq (h : store.DiffersOnlyIn other input changed)
    (hnames : store.namesIn input = .ok names) (hname : name ∈ names) :
    other.isFile (input.join ⟨name⟩) = store.isFile (input.join ⟨name⟩) := by
  by_cases hchanged : name = changed
  · rw [hchanged, h.isFile.1, h.isFile.2]
  · rw [Store.isFile, Store.isFile, h.find_eq names hnames name hname hchanged]

/-- The timing files are the same. -/
theorem timingFiles_eq (h : store.DiffersOnlyIn other input changed) :
    timingFiles settings other input = timingFiles settings store input := by
  obtain ⟨names, others, hnames, hothers, hperm, -⟩ := h.exists_names
  have hsame : timingFilesAmong settings other input others =
      timingFilesAmong settings store input names := by
    rw [timingFilesAmong, timingFilesAmong, ← mergeSort_eq_of_perm hperm]
    refine List.filter_congr fun file hfile ↦ ?_
    obtain ⟨name, hname, rfl⟩ := List.mem_map.mp hfile
    rw [isFile_eq h hnames (List.mem_mergeSort.mp hname)]
  rw [timingFiles_of_names hnames, timingFiles_of_names hothers, hsame]

/-! ### Recordings of timing files -/

/-- Different timing files belong to different recordings. -/
theorem eq_of_same_sourceFor (hnamed : store.WellNamed) (hne : settings.sourceExtension ≠ "")
    {files : List Path} (hfiles : timingFiles settings store input = .ok files)
    {first second : Path} (hfirst : first ∈ files) (hsecond : second ∈ files)
    {source source' : Path}
    (hsource : sourceFor settings first = .ok source)
    (hsource' : sourceFor settings second = .ok source') (hsame : source.Same source') :
    first = second := by
  obtain ⟨names, hnames, ⟨name, hname, rfl⟩, hextension⟩ :=
    exists_name_of_mem_timingFiles hfiles hfirst
  obtain ⟨names', hnames', ⟨name', hname', rfl⟩, hextension'⟩ :=
    exists_name_of_mem_timingFiles hfiles hsecond
  rw [eq_of_same_withExtension (hnamed.isFileName hnames hname)
    (hnamed.isFileName hnames' hname') hextension hextension' hne
    (sourceFor_eq_ok_iff.mp hsource) (sourceFor_eq_ok_iff.mp hsource') hsame]

/-! ### Readings of the two directories -/

theorem readingOf_eq_of_find_eq {file : Path} (h : store.find file = other.find file) :
    readingOf settings store file = readingOf settings other file := by
  have htext : store.readText file = other.readText file := by
    rw [Store.readText, Store.readText, Store.readBytes, Store.readBytes, h]
  rw [readingOf, readingOf, htext]

/-- Whatever is read of a timing file says nothing about the run. -/
def SaysNothing (settings : Settings) (store : Store) (file : Path) (code : RunCode) : Prop :=
  ∀ reading, readingOf settings store file = .ok reading → reading.Silent code

/-- The same file, or two versions of the changed one that say nothing about the run, give readings
that agree off the recording of the changed one. -/
theorem agreeOff_of_readingOf (h : store.DiffersOnlyIn other input changed)
    (hnamed : store.WellNamed) (hne : settings.sourceExtension ≠ "") {files : List Path}
    (hfiles : timingFiles settings store input = .ok files)
    (hchanged : input.join ⟨changed⟩ ∈ files) {recording : Path}
    (hrecording : sourceFor settings (input.join ⟨changed⟩) = .ok recording)
    (hsilent : SaysNothing settings store (input.join ⟨changed⟩) code)
    (hsilent' : SaysNothing settings other (input.join ⟨changed⟩) code)
    {file : Path} (hfile : file ∈ files) {reading reading' : Timeline.Reading}
    (hreading : readingOf settings store file = .ok reading)
    (hreading' : readingOf settings other file = .ok reading') :
    AgreeOff recording code reading reading' := by
  by_cases hsame : file = input.join ⟨changed⟩
  · subst hsame
    have hsource := sourceFor_of_readingOf hreading
    have hsource' := sourceFor_of_readingOf hreading'
    rw [hrecording, Except.ok.injEq] at hsource hsource'
    refine .changed ?_ ?_ (hsilent reading hreading) (hsilent' reading' hreading')
    · rw [← hsource]
      exact Path.Same.refl _
    · rw [← hsource']
      exact Path.Same.refl _
  · obtain ⟨names, hnames, ⟨name, hname, rfl⟩, -⟩ := exists_name_of_mem_timingFiles hfiles hfile
    have hother : name ≠ changed := fun heq ↦ hsame (by rw [heq])
    rw [← readingOf_eq_of_find_eq (h.find_eq names hnames name hname hother), hreading] at hreading'
    cases hreading'
    refine .same fun hon ↦ hsame ?_
    exact (eq_of_same_sourceFor hnamed hne hfiles hchanged hfile hrecording
      (sourceFor_of_readingOf hreading) hon).symm

/-- Readings of the same files agree if those of every file do. -/
theorem forall₂_agreeOff {files : List Path} {recording : Path}
    {readings readings' : List Timeline.Reading}
    (hagree : ∀ file ∈ files, ∀ reading reading', readingOf settings store file = .ok reading →
      readingOf settings other file = .ok reading' → AgreeOff recording code reading reading')
    (hreadings : List.Forall₂ (fun file reading ↦ readingOf settings store file = .ok reading)
      files readings)
    (hreadings' : List.Forall₂ (fun file reading ↦ readingOf settings other file = .ok reading)
      files readings') :
    List.Forall₂ (AgreeOff recording code) readings readings' := by
  induction hreadings generalizing readings' with
  | nil =>
    cases hreadings'
    exact .nil
  | cons hreading _ ih =>
    cases hreadings' with
    | cons hreading' hrest =>
      refine .cons (hagree _ List.mem_cons_self _ _ hreading hreading') (ih ?_ hrest)
      intro file hfile
      exact hagree file (List.mem_cons_of_mem _ hfile)

theorem exists_reading_of_mem {files : List Path} {readings : List Timeline.Reading} {file : Path}
    (h : List.Forall₂ (fun file reading ↦ readingOf settings store file = .ok reading)
      files readings) (hfile : file ∈ files) :
    ∃ reading, readingOf settings store file = .ok reading := by
  induction h with
  | nil => cases hfile
  | cons hreading _ ih =>
    rcases List.mem_cons.mp hfile with rfl | hfile
    · exact ⟨_, hreading⟩
    · exact ih hfile

/-- Two directories that differ only in the text of one timing file, of which neither version says
anything about a run, are loaded to the same run with the same fragments, whatever speeds the two
versions declare. Different timing files are read on different recordings. -/
theorem unaffected_by_other_file (settings : Settings) (store other : Store) (input : Path)
    (changed : String) (code : RunCode) (timeline timeline' : Timeline)
    (hne : settings.sourceExtension ≠ "") (hnamed : store.WellNamed)
    (hdiffers : store.DiffersOnlyIn other input changed)
    (htiming : (input.join ⟨changed⟩).extension? = some settings.timingExtension)
    (hsilent : SaysNothing settings store (input.join ⟨changed⟩) code)
    (hsilent' : SaysNothing settings other (input.join ⟨changed⟩) code)
    (hloaded : (loadTimings settings store input).outcome.1 = .ok timeline)
    (hloaded' : (loadTimings settings other input).outcome.1 = .ok timeline') :
    timeline.run? code = timeline'.run? code ∧
      timeline.resolveRun code = timeline'.resolveRun code ∧
      ∃ files, timingFiles settings store input = .ok files ∧
        timingFiles settings other input = .ok files ∧
        ∀ file ∈ files, ∃ source, sourceFor settings file = .ok source ∧
          ∀ file' ∈ files, ∀ source', sourceFor settings file' = .ok source' →
            source.Same source' → file = file' := by
  obtain ⟨files, readings, hfiles, hreadings, rfl⟩ := loadTimings_eq_ok_iff.mp hloaded
  obtain ⟨files', readings', hfiles', hreadings', rfl⟩ := loadTimings_eq_ok_iff.mp hloaded'
  obtain rfl : files = files' :=
    Except.ok.inj (hfiles.symm.trans ((timingFiles_eq hdiffers).symm.trans hfiles'))
  have hchanged : input.join ⟨changed⟩ ∈ files := by
    obtain ⟨names, -, hnames, -, -, hmem⟩ := hdiffers.exists_names
    rw [timingFiles_of_names hnames] at hfiles
    split_ifs at hfiles
    cases hfiles
    exact mem_timingFilesAmong.mpr ⟨⟨changed, hmem, rfl⟩, hdiffers.isFile.1, htiming⟩
  have hsources : ∀ file ∈ files, ∃ source, sourceFor settings file = .ok source := by
    intro file hfile
    obtain ⟨reading, hreading⟩ := exists_reading_of_mem hreadings hfile
    exact ⟨reading.recording, sourceFor_of_readingOf hreading⟩
  obtain ⟨recording, hrecording⟩ := hsources _ hchanged
  have hagree : List.Forall₂ (AgreeOff recording code) readings readings' := by
    refine forall₂_agreeOff (fun file hfile reading reading' hreading hreading' ↦ ?_) hreadings
      hreadings'
    exact agreeOff_of_readingOf hdiffers hnamed hne hfiles hchanged hrecording hsilent hsilent'
      hfile hreading hreading'
  refine ⟨run?_eq_of_agreeOff hagree, resolveRun_eq_of_agreeOff hagree, files, hfiles, hfiles', ?_⟩
  intro file hfile
  obtain ⟨source, hsource⟩ := hsources file hfile
  refine ⟨source, hsource, fun file' hfile' source' hsource' hsame ↦ ?_⟩
  exact eq_of_same_sourceFor hnamed hne hfiles hfile hfile' hsource hsource' hsame

/-- The ticks of a run. -/
def sampleTicks : String := "1=0 ab1cp0a\n2=10 ab1cp0b\n"

/-- A directory with the timing files of two recordings, one of which has the ticks of a run. -/
def sampleDirectory (text : String) : Store where
  entries := [(["in"], .directory), (["in", "a.gbm"], .file text.toUTF8 false),
    (["in", "b.gbm"], .file sampleTicks.toUTF8 false)]

theorem wellNamed_sampleDirectory (text : String) : (sampleDirectory text).WellNamed where
  entries entry hentry := by
    have hplaces : ∀ place ∈ [["in"], ["in", "a.gbm"], ["in", "b.gbm"]], Store.IsPlace place := by
      decide
    exact hplaces entry.1 (List.mem_map_of_mem hentry)
  workingDirectory := Store.isPlace_root

theorem namesIn_sampleDirectory (text : String) :
    (sampleDirectory text).namesIn ⟨"in"⟩ = .ok ["a.gbm", "b.gbm"] := by
  rw [Store.namesIn, Store.locate,
    Store.follow_eq_foldlM (by decide) (by decide) (by decide)]
  rfl

theorem find_sampleDirectory (text : String) :
    (sampleDirectory text).find ⟨"in/a.gbm"⟩ = .ok (.file text.toUTF8 false) ∧
      (sampleDirectory text).find ⟨"in/b.gbm"⟩ = .ok (.file sampleTicks.toUTF8 false) := by
  constructor
  · rw [Store.find, Store.locate, Store.follow_eq_foldlM (by decide) (by decide) (by decide)]
    rfl
  · rw [Store.find, Store.locate, Store.follow_eq_foldlM (by decide) (by decide) (by decide)]
    rfl

theorem timingFiles_sampleDirectory (text : String) :
    timingFiles {} (sampleDirectory text) ⟨"in"⟩ = .ok [⟨"in/a.gbm"⟩, ⟨"in/b.gbm"⟩] := by
  obtain ⟨hfirst, hsecond⟩ := find_sampleDirectory text
  have hfiles : timingFilesAmong {} (sampleDirectory text) ⟨"in"⟩ ["a.gbm", "b.gbm"] =
      [⟨"in/a.gbm"⟩, ⟨"in/b.gbm"⟩] := by
    have hpaths : ["a.gbm", "b.gbm"].map (fun name ↦ Path.join ⟨"in"⟩ ⟨name⟩) =
        [⟨"in/a.gbm"⟩, ⟨"in/b.gbm"⟩] := by
      decide
    rw [timingFilesAmong_of_pairwise (by decide), hpaths, List.filter_eq_self]
    intro file hfile
    rcases List.mem_pair.mp hfile with rfl | rfl
    · rw [Store.isFile, hfirst]
      exact decide_eq_true ⟨rfl, by decide⟩
    · rw [Store.isFile, hsecond]
      exact decide_eq_true ⟨rfl, by decide⟩
  rw [timingFiles_of_names (namesIn_sampleDirectory text), hfiles]
  rfl

theorem readingOf_sampleDirectory (text : String) :
    readingOf {} (sampleDirectory text) ⟨"in/a.gbm"⟩ = .ok (.text ⟨"in/a.mp4"⟩ text) ∧
      readingOf {} (sampleDirectory text) ⟨"in/b.gbm"⟩ = .ok (.text ⟨"in/b.mp4"⟩ sampleTicks) := by
  obtain ⟨hfirst, hsecond⟩ := find_sampleDirectory text
  have hsource : sourceFor {} ⟨"in/a.gbm"⟩ = .ok ⟨"in/a.mp4"⟩ := by decide
  have hsource' : sourceFor {} ⟨"in/b.gbm"⟩ = .ok ⟨"in/b.mp4"⟩ := by decide
  constructor
  · rw [readingOf, hsource, Store.readText_of_find hfirst]
    rfl
  · rw [readingOf, hsource', Store.readText_of_find hsecond]
    rfl

theorem loadTimings_sampleDirectory (text : String) :
    (loadTimings {} (sampleDirectory text) ⟨"in"⟩).outcome.1 =
      .ok (Timeline.after [.text ⟨"in/a.mp4"⟩ text, .text ⟨"in/b.mp4"⟩ sampleTicks]) := by
  obtain ⟨hfirst, hsecond⟩ := readingOf_sampleDirectory text
  exact loadTimings_eq_ok_iff.mpr ⟨_, _, timingFiles_sampleDirectory text,
    .cons hfirst (.cons hsecond .nil), rfl⟩

theorem differsOnlyIn_sampleDirectory (text more : String) :
    (sampleDirectory text).DiffersOnlyIn (sampleDirectory more) ⟨"in"⟩ "a.gbm" where
  exists_names := by
    refine ⟨_, _, namesIn_sampleDirectory text, namesIn_sampleDirectory more, List.Perm.refl _, ?_⟩
    exact List.mem_cons_self
  isFile := by
    have hjoin : Path.join ⟨"in"⟩ ⟨"a.gbm"⟩ = ⟨"in/a.gbm"⟩ := by decide
    rw [hjoin, Store.isFile, Store.isFile, (find_sampleDirectory text).1,
      (find_sampleDirectory more).1]
    exact ⟨rfl, rfl⟩
  find_eq names hnames name hname hother := by
    rw [namesIn_sampleDirectory text] at hnames
    cases hnames
    rcases List.mem_pair.mp hname with rfl | rfl
    · exact absurd rfl hother
    · have hjoin : Path.join ⟨"in"⟩ ⟨"b.gbm"⟩ = ⟨"in/b.gbm"⟩ := by decide
      rw [hjoin, (find_sampleDirectory text).2, (find_sampleDirectory more).2]

/-- The speeds of the first recording change at times that are in the run of the second one. -/
theorem unaffected_by_other_file_sample :
    let timeline := Timeline.after [.text ⟨"in/a.mp4"⟩ "1=5 x2\n", .text ⟨"in/b.mp4"⟩ sampleTicks]
    let timeline' := Timeline.after
      [.text ⟨"in/a.mp4"⟩ "1=3 x3\n2=4 x4|cd1cp0a\n", .text ⟨"in/b.mp4"⟩ sampleTicks]
    (loadTimings {} (sampleDirectory "1=5 x2\n") ⟨"in"⟩).outcome.1 = .ok timeline ∧
      (loadTimings {} (sampleDirectory "1=3 x3\n2=4 x4|cd1cp0a\n") ⟨"in"⟩).outcome.1 =
        .ok timeline' ∧
      timeline.changes.length = 1 ∧ timeline'.changes.length = 2 ∧
      timeline.resolveRun ⟨"ab", 1⟩ = timeline'.resolveRun ⟨"ab", 1⟩ := by
  intro timeline timeline'
  have hjoin : Path.join ⟨"in"⟩ ⟨"a.gbm"⟩ = ⟨"in/a.gbm"⟩ := by decide
  refine ⟨loadTimings_sampleDirectory _, loadTimings_sampleDirectory _, ?_, ?_, ?_⟩
  · decide +kernel
  · decide +kernel
  · refine (unaffected_by_other_file {} _ _ ⟨"in"⟩ "a.gbm" ⟨"ab", 1⟩ timeline timeline' (by decide)
      (wellNamed_sampleDirectory _) (differsOnlyIn_sampleDirectory _ _) (by decide) ?_ ?_
      (loadTimings_sampleDirectory _) (loadTimings_sampleDirectory _)).2.1
    · intro reading hreading
      rw [hjoin, (readingOf_sampleDirectory _).1] at hreading
      cases hreading
      exact silent_iff.mpr (by decide +kernel)
    · intro reading hreading
      rw [hjoin, (readingOf_sampleDirectory _).1] at hreading
      cases hreading
      exact silent_iff.mpr (by decide +kernel)

end Montage.Composition
