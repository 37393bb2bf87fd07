import Montage.Proofs.Composition.OtherFiles
import Montage.Proofs.Render.Pass

/-!
# When a composition crashes

Most of what a directory can hold is no more than a reason to stop: a missing file, bytes that are
not text, a run without ticks. A crash is a failure by a defect, and a composition has a single one.
The recording beside a timing file is named by exchanging the extension, which is impossible if the
new extension holds a separator, and `Settings.check` lets such an extension pass
(`accepted_and_crashes`).

Each step is asked for the defects that it can fail with. Reading a timing file has the one above,
before anything is read of the file (`readingOf_eq_defect_iff`), and so the first file of a
directory decides (`loadTimings_eq_defect_iff`). The manifest can only be missing or no text, an
obstacle of a run is no defect (`Timeline.Obstacle.ne_defect`), and a planned catalogue is wired, so
that nothing but a command can fail while it is converted (`Conversion.exists_run_of_failure`).
-/

set_option autoImplicit false
set_option relaxedAutoImplicit false

namespace Montage

open Media Timing

/-! ### Conversions -/

/-- No command ends by a defect, whatever the world is. -/
def Runner.NeverCrashes {World : Type} (runner : Runner World) : Prop :=
  ∀ world command defect, (runner.run world command).failure? ≠ some (.defect defect)

theorem Runner.neverCrashes_dry {World : Type} (pathExists : World → Path → Bool) :
    (Runner.dry pathExists).NeverCrashes :=
  fun _ _ _ ↦ Option.some_ne_none _ |>.symm

namespace Conversion

variable {World : Type} {runner : Runner World} {settings : Settings} {world : World}
  {failure : Failure}

/-- What ends a pass is the failure of a command that was run in it. -/
theorem Pass.exists_run_of_failed {commandOf : Output → Command} {outputs : List Output}
    {trace : Trace World} {output : Output} (h : Pass runner settings commandOf world outputs trace)
    (hfailed : trace.failed? = some (output, failure)) :
    ∃ reached, (runner.run reached (commandOf output)).failure? = some failure := by
  induction h with
  | done world => cases hfailed
  | skip _ _ ih => exact ih hfailed
  | render _ _ _ ih => exact ih hfailed
  | @fail world _ _ _ _ hrun =>
    cases hfailed
    exact ⟨world, hrun⟩

/-- Converting a wired catalogue fails as one of its commands does. -/
theorem exists_run_of_failure {catalogue : Catalogue} (hwired : catalogue.Wired)
    (h : (catalogue.convert runner settings world).failure? = some failure) :
    ∃ reached command, (runner.run reached command).failure? = some failure := by
  obtain ⟨trace, hpass, hafter⟩ : ∃ trace,
      Pass runner settings (catalogue.commandFor settings) world catalogue.outputs.values trace ∧
        Continues (catalogue.commandFor settings) { world } trace
          (catalogue.convert runner settings world) :=
    exists_pass_steps { world } hwired rfl
  have hfailed : trace.failed?.map (·.2) = some failure := hafter.failure?_eq.symm.trans h
  obtain ⟨⟨output, _⟩, htrace, rfl⟩ := Option.map_eq_some_iff.mp hfailed
  obtain ⟨reached, hrun⟩ := hpass.exists_run_of_failed htrace
  exact ⟨reached, _, hrun⟩

end Conversion

/-- What holds of everything that has a partner holds of a list of partners. -/
theorem forall_mem_of_forall₂ {α β : Type} {R : α → β → Prop} {p : β → Prop} {items : List α}
    {partners : List β} (h : List.Forall₂ R items partners) (hp : ∀ a b, R a b → p b) :
    ∀ b ∈ partners, p b :=
  ((List.forall₂_and_left _ _).mp (h.flip.imp fun b a hab ↦ ⟨hp a b hab, hab⟩)).1

/-- The blocks of a catalogue that holds a plan play inputs of it. -/
theorem Media.Catalogue.Holds.wired {catalogue : Catalogue} {parts : List Part}
    (h : catalogue.Holds parts) : catalogue.Wired := by
  refine forall_mem_of_forall₂ h.outputs fun part output hrenders ↦ ?_
  refine forall_mem_of_forall₂ hrenders.blocks fun fragment block hplays ↦ ?_
  obtain ⟨source, input, -, hinput, -⟩ := hplays.input
  exact Registry.contains_of_get? hinput

theorem Timing.Timeline.Obstacle.ne_defect {timeline : Timeline} {code : RunCode}
    {failure : Failure} (h : timeline.Obstacle code failure) (defect : Defect) :
    failure ≠ .defect defect := by
  cases h <;> exact Failure.noConfusion

end Montage

namespace Montage.Composition

open Media Timing Logged

variable {settings : Settings} {store : Store} {input output file : Path} {files : List Path}
  {defect : Defect}

/-! ### Timing files -/

/-- The defect that a composition crashes with: the extension of the recordings holds a separator,
and there is a timing file that it should be given to. -/
structure CrashesWith (settings : Settings) (store : Store) (input : Path) (defect : Defect) :
    Prop where
  separator : '/' ∈ settings.sourceExtension.toList
  timing : ∃ files, timingFiles settings store input = .ok files
  defect_eq : defect = .separatorInExtension settings.sourceExtension

theorem withExtension?_eq_none_iff {path : Path} {extension : String} :
    path.withExtension? extension = none ↔ '/' ∈ extension.toList := by
  unfold Path.withExtension?
  split
  next hslash => exact iff_of_true rfl hslash
  next hslash =>
    dsimp only
    split <;> exact iff_of_false (Option.some_ne_none _) hslash

theorem ofFile_ne_defect {α : Type} (outcome : Except FileFault α) :
    ofFile outcome ≠ .error (.defect defect) := by
  cases outcome <;> simp [ofFile, Except.mapError]

theorem sourceFor_eq_defect_iff :
    sourceFor settings file = .error (.defect defect) ↔
      '/' ∈ settings.sourceExtension.toList ∧
        defect = .separatorInExtension settings.sourceExtension := by
  have hname : file.withExtension? settings.sourceExtension = none ↔
      '/' ∈ settings.sourceExtension.toList :=
    withExtension?_eq_none_iff
  rw [← hname, sourceFor]
  cases file.withExtension? settings.sourceExtension with
  | none => simp [eq_comm]
  | some source => simp

/-- A timing file crashes if and only if its recording has no name. -/
theorem readingOf_eq_defect_iff :
    readingOf settings store file = .error (.defect defect) ↔
      '/' ∈ settings.sourceExtension.toList ∧
        defect = .separatorInExtension settings.sourceExtension := by
  have hsource : sourceFor settings file = .error (.defect defect) ↔ _ := sourceFor_eq_defect_iff
  rw [← hsource, readingOf, Failure.bind_eq_error]
  refine or_iff_left ?_
  rintro ⟨source, -, hrest⟩
  rcases Failure.bind_eq_error.mp hrest with htext | ⟨text, -, hreading⟩
  · exact ofFile_ne_defect _ htext
  · cases hreading

theorem timingFiles_ne_defect :
    timingFiles settings store input ≠ .error (.defect defect) := by
  cases hnames : store.namesIn input with
  | error fault =>
    rw [timingFiles, hnames]
    exact ofFile_ne_defect (.error fault)
  | ok names =>
    rw [timingFiles_of_names hnames]
    split <;> simp

theorem ne_nil_of_timingFiles (h : timingFiles settings store input = .ok files) : files ≠ [] := by
  cases hnames : store.namesIn input with
  | error fault =>
    rw [timingFiles, hnames] at h
    cases h
  | ok names =>
    rw [timingFiles_of_names hnames] at h
    split_ifs at h with hne
    cases h
    exact hne

/-- Loading crashes at the first timing file or not at all. -/
theorem loadTimings_eq_defect_iff :
    (loadTimings settings store input).outcome.1 = .error (.defect defect) ↔
      CrashesWith settings store input defect := by
  rw [(yields_loadTimings settings store input).outcome, Failure.bind_eq_error]
  constructor
  · rintro (hfails | ⟨files, hfiles, hread⟩)
    · exact absurd hfails timingFiles_ne_defect
    · obtain ⟨file, -, timeline, hfile⟩ := Failure.exists_of_foldlM_eq_error hread
      rcases Failure.bind_eq_error.mp hfile with hreading | ⟨reading, -, hnext⟩
      · obtain ⟨hseparator, rfl⟩ := readingOf_eq_defect_iff.mp hreading
        exact ⟨hseparator, ⟨files, hfiles⟩, rfl⟩
      · cases hnext
  · rintro ⟨hseparator, ⟨files, hfiles⟩, rfl⟩
    refine Or.inr ⟨files, hfiles, ?_⟩
    obtain ⟨file, rest, rfl⟩ := List.exists_cons_of_ne_nil (ne_nil_of_timingFiles hfiles)
    rw [List.foldlM_cons, readFile, readingOf_eq_defect_iff.mpr ⟨hseparator, rfl⟩,
      Failure.error_bind, Failure.error_bind]

/-! ### Plans -/

/-- The outputs that a manifest lists, if it can be read. -/
def readManifest (store : Store) (path : Path) : Except Failure (List OutputSpec) := do
  let text ← ofFile (store.readText path)
  return (Manifest.ofText text).outputs

theorem readManifest_ne_defect (store : Store) (path : Path) :
    readManifest store path ≠ .error (.defect defect) := by
  rw [readManifest, Ne, Failure.bind_eq_error, not_or]
  refine ⟨ofFile_ne_defect _, ?_⟩
  rintro ⟨text, -, houtputs⟩
  cases houtputs

theorem yields_loadManifest (store : Store) (path : Path) :
    Yields (loadManifest store path) (readManifest store path) := by
  refine (yields_attempt _).bind fun text ↦ ?_
  exact (yields_pure _).say_bind _

/-- Planning on a sound timeline gives a wired catalogue or fails by no defect. -/
theorem planOutputs_wired_or_ne_defect {timeline : Timeline} (hsound : timeline.Sound)
    (settings : Settings) (directory : Path) (specs : List OutputSpec) :
    (∃ catalogue, (planOutputs settings timeline directory specs).outcome.1 = .ok catalogue ∧
        catalogue.Wired) ∨
      ∃ failure, (planOutputs settings timeline directory specs).outcome.1 = .error failure ∧
        ∀ defect, failure ≠ .defect defect := by
  rcases playable_or_exists_obstacle timeline (specs.flatMap OutputSpec.runs) with
    hplayable | ⟨before, code, after, failure, hruns, hbefore, hobstacle⟩
  · obtain ⟨catalogue, hcatalogue, hholds⟩ :=
      planned_of_playable hsound settings directory hplayable
    exact Or.inl ⟨catalogue, hcatalogue, hholds.wired⟩
  · exact Or.inr ⟨failure, planned_of_obstacle hsound settings directory hruns hbefore hobstacle,
      hobstacle.ne_defect⟩

/-- A plan is what its steps give one after the other. -/
theorem outcome_plan (settings : Settings) (store : Store) (input output : Path) :
    (plan settings store input output).outcome.1 = (do
      let timeline ← (loadTimings settings store input).outcome.1
      let specs ← readManifest store (input.join ⟨settings.manifestName⟩)
      (planOutputs settings timeline output specs).outcome.1) := by
  refine Yields.outcome ?_
  rw [(yields_loadTimings settings store input).outcome]
  refine (yields_loadTimings settings store input).bind fun timeline ↦ ?_
  refine Yields.say_bind ?_ _
  refine (yields_loadManifest store _).bind fun specs ↦ ?_
  refine Yields.say_bind (Yields.say_bind ?_ _) _
  rw [outcome_planOutputs]
  exact yields_foldlM yields_addOutput specs {}

/-- A plan crashes if and only if loading does. -/
theorem plan_eq_defect_iff :
    (plan settings store input output).outcome.1 = .error (.defect defect) ↔
      CrashesWith settings store input defect := by
  rw [← loadTimings_eq_defect_iff, outcome_plan, Failure.bind_eq_error]
  refine or_iff_left ?_
  rintro ⟨timeline, hloaded, hrest⟩
  obtain ⟨_, readings, -, -, rfl⟩ := loadTimings_eq_ok_iff.mp hloaded
  rcases Failure.bind_eq_error.mp hrest with hmanifest | ⟨specs, -, hplanned⟩
  · exact readManifest_ne_defect store _ hmanifest
  · rcases planOutputs_wired_or_ne_defect (Timeline.sound_after readings) settings output specs with
      ⟨catalogue, hcatalogue, -⟩ | ⟨failure, hfails, hne⟩
    · cases hplanned.symm.trans hcatalogue
    · cases hplanned.symm.trans hfails
      exact hne defect rfl

/-- A planned catalogue is wired. -/
theorem wired_of_plan {catalogue : Catalogue}
    (h : (plan settings store input output).outcome.1 = .ok catalogue) : catalogue.Wired := by
  rw [outcome_plan] at h
  obtain ⟨timeline, hloaded, hrest⟩ := Failure.bind_eq_ok.mp h
  obtain ⟨_, readings, -, -, rfl⟩ := loadTimings_eq_ok_iff.mp hloaded
  obtain ⟨specs, -, hplanned⟩ := Failure.bind_eq_ok.mp hrest
  rcases planOutputs_wired_or_ne_defect (Timeline.sound_after readings) settings output specs with
    ⟨planned, hcatalogue, hwired⟩ | ⟨failure, hfails, -⟩
  · cases hplanned.symm.trans hcatalogue
    exact hwired
  · cases hplanned.symm.trans hfails

/-! ### Compositions -/

/-- A composition fails as its plan does, or else as the conversion of the planned catalogue. -/
theorem failure?_compose (settings : Settings) (runner : Runner Store) (store : Store)
    (input output : Path) :
    (compose settings runner store input output).failure? =
      match (plan settings store input output).outcome.1 with
      | .error failure => some failure
      | .ok catalogue => (catalogue.convert runner settings store).failure? := by
  rw [compose]
  generalize (plan settings store input output).outcome = planned
  obtain ⟨_ | _, _⟩ := planned <;> rfl

/-- A composition with commands that never crash has no defect but the one of its plan. -/
theorem failure?_compose_eq_defect_iff {runner : Runner Store} (hrunner : runner.NeverCrashes) :
    (compose settings runner store input output).failure? = some (.defect defect) ↔
      (plan settings store input output).outcome.1 = .error (.defect defect) := by
  rw [failure?_compose]
  cases hplan : (plan settings store input output).outcome.1 with
  | error failure => simp
  | ok catalogue =>
    refine iff_of_false (fun hfails ↦ ?_) (by simp)
    obtain ⟨reached, command, hrun⟩ :=
      Conversion.exists_run_of_failure (wired_of_plan hplan) hfails
    exact hrunner reached command defect hrun

/-- Whatever the settings are and the directory holds, planning crashes if and only if there are
timing files and the extension of recordings holds a separator, and always with this one defect. Nor
does anything else crash when all outputs are rendered by commands that do not. -/
theorem crashes_iff (settings : Settings) (store : Store) (input output : Path)
    (runner : Runner Store) (hrunner : runner.NeverCrashes) (defect : Defect) :
    ((plan settings store input output).outcome.1 = .error (.defect defect) ↔
        CrashesWith settings store input defect) ∧
      ((compose settings runner store input output).failure? = some (.defect defect) ↔
        CrashesWith settings store input defect) :=
  ⟨plan_eq_defect_iff, (failure?_compose_eq_defect_iff hrunner).trans plan_eq_defect_iff⟩

/-- With an extension without a separator, a directory does not crash although one of its timing
files says nothing that could be read. -/
theorem crashes_iff_sample :
    (∀ defect, (plan {} (sampleDirectory "1=ab1cp0a|") ⟨"in"⟩ ⟨"out"⟩).outcome.1 ≠
        .error (.defect defect)) ∧
      ∀ defect, (compose {} (.dry Store.pathExists) (sampleDirectory "1=ab1cp0a|") ⟨"in"⟩
        ⟨"out"⟩).failure? ≠ some (.defect defect) := by
  have hsound (defect : Defect) :
      ¬ CrashesWith {} (sampleDirectory "1=ab1cp0a|") ⟨"in"⟩ defect :=
    fun hcrash ↦ absurd hcrash.separator (by decide)
  refine ⟨fun defect hcrash ↦ ?_, fun defect hcrash ↦ ?_⟩
  · exact hsound defect ((crashes_iff {} _ ⟨"in"⟩ ⟨"out"⟩ (.dry Store.pathExists)
      (Runner.neverCrashes_dry _) defect).1.mp hcrash)
  · exact hsound defect ((crashes_iff {} _ ⟨"in"⟩ ⟨"out"⟩ (.dry Store.pathExists)
      (Runner.neverCrashes_dry _) defect).2.mp hcrash)

/-- An extension that holds a separator makes sense to the check of the settings, and the
composition crashes at the first timing file. -/
theorem accepted_and_crashes :
    Settings.check { sourceExtension := "a/b" } = .ok () ∧
      (plan { sourceExtension := "a/b" } (sampleDirectory "") ⟨"in"⟩ ⟨"out"⟩).outcome.1 =
        .error (.defect (.separatorInExtension "a/b")) := by
  have htiming : timingFiles { sourceExtension := "a/b" } (sampleDirectory "") ⟨"in"⟩ =
      timingFiles {} (sampleDirectory "") ⟨"in"⟩ := rfl
  exact ⟨by decide +kernel, plan_eq_defect_iff.mpr
    ⟨by decide, ⟨_, htiming.trans (timingFiles_sampleDirectory "")⟩, rfl⟩⟩

end Montage.Composition
