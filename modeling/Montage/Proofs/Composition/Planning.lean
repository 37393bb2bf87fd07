import Montage.Proofs.Composition.Parts

/-!
# Planning

Planning goes through the outputs of a manifest and through the runs of each. It reports what it
does on the way, which has no influence on what comes out (`Logged.Yields`). The invariant is that
the catalogue holds the plan made so far (`Catalogue.Holds`): a run that can be played is appended
to the last part (`Holds.addRun`), and one that cannot ends the planning with its obstacle.

`planOutputs_succeeds_iff` says when planning succeeds and what it fails with otherwise, and
`media_of_planOutputs` what a planned catalogue contains.
-/

set_option autoImplicit false
set_option relaxedAutoImplicit false

namespace Montage.Logged

variable {α β : Type}

/-- The computation has this result, whatever was reported before. -/
def Yields (computation : Logged α) (result : Except Failure α) : Prop :=
  ∀ log, ((ExceptT.run computation).run log).1 = result

theorem Yields.outcome {computation : Logged α} {result : Except Failure α}
    (h : Yields computation result) : computation.outcome.1 = result := h []

theorem yields_pure (a : α) : Yields (pure a) (.ok a) := fun _ ↦ rfl

theorem yields_attempt (result : Except Failure α) : Yields (attempt result) result := fun _ ↦ rfl

/-- One computation after another yields what the results give one after the other. -/
theorem Yields.bind {computation : Logged α} {result : Except Failure α} {rest : α → Logged β}
    {more : α → Except Failure β} (h : Yields computation result)
    (hrest : ∀ a, Yields (rest a) (more a)) : Yields (computation >>= rest) (result >>= more) := by
  intro log
  have hresult := h log
  rw [ExceptT.run_bind, StateT.run_bind]
  cases result with
  | ok a =>
    generalize (ExceptT.run computation).run log = ran at hresult
    obtain ⟨outcome, between⟩ := ran
    cases hresult
    exact hrest a between
  | error failure =>
    generalize (ExceptT.run computation).run log = ran at hresult
    obtain ⟨outcome, between⟩ := ran
    cases hresult
    rfl

/-- What is reported first makes no difference. -/
theorem Yields.say_bind {rest : Logged α} {result : Except Failure α} (h : Yields rest result)
    (entries : List LogEntry) : Yields (say entries >>= fun _ ↦ rest) result :=
  fun log ↦ h (log ++ entries)

/-- A loop yields what the loop over the results gives. -/
theorem yields_foldlM {step : β → α → Logged β} {result : β → α → Except Failure β}
    (h : ∀ b a, Yields (step b a) (result b a)) (items : List α) (b : β) :
    Yields (items.foldlM step b) (items.foldlM result b) := by
  induction items generalizing b with
  | nil => exact yields_pure b
  | cons a items ih =>
    rw [List.foldlM_cons, List.foldlM_cons]
    exact (h b a).bind ih

end Montage.Logged

namespace Montage.Composition

open Registry Timing Media Logged

variable {settings : Settings} {timeline : Timeline} {directory : Path}

/-! ### One output -/

/-- What an output of a manifest is planned to play. -/
def partOf (settings : Settings) (timeline : Timeline) (directory : Path) (spec : OutputSpec) :
    Part where
  path := outputPath settings directory spec.name
  filters := spec.filters
  fragments := spec.runs.flatMap timeline.fragments

/-- The catalogue after an output is registered and its runs are appended. -/
def planOutput (settings : Settings) (timeline : Timeline) (directory : Path)
    (catalogue : Catalogue) (spec : OutputSpec) : Except Failure Catalogue := do
  let (catalogue, key) := catalogue.addOutput (outputPath settings directory spec.name)
  let planned ← spec.runs.foldlM (addRun timeline key spec.filters) (catalogue, 0)
  return planned.1

theorem yields_addOutput (catalogue : Catalogue) (spec : OutputSpec) :
    Yields (addOutput settings timeline directory catalogue spec)
      (planOutput settings timeline directory catalogue spec) := by
  obtain ⟨⟨next, key⟩, hadded⟩ :
      ∃ added, catalogue.addOutput (outputPath settings directory spec.name) = added := ⟨_, rfl⟩
  -- The runs are planned in the same way, whether or not it was reported that there are none.
  have hruns : Yields (do
      let planned ← attempt (spec.runs.foldlM (addRun timeline key spec.filters) (next, 0))
      info ("   " ++ spec.name ++ " [" ++ key.text ++ "]: " ++ toString spec.runs.length ++
        " runs, " ++ toString planned.2 ++ " blocks")
      return planned.1) (do
      let planned ← spec.runs.foldlM (addRun timeline key spec.filters) (next, 0)
      return planned.1) := by
    refine (yields_attempt _).bind fun planned ↦ ?_
    exact (yields_pure planned.1).say_bind _
  unfold addOutput planOutput
  rw [hadded]
  dsimp only
  split
  · exact hruns.say_bind _
  · exact hruns

end Montage.Composition

namespace Montage.Media.Catalogue

open Registry Timing Montage.Composition

variable {settings : Settings} {timeline : Timeline} {directory : Path} {catalogue : Catalogue}
  {parts : List Part} {part : Part} {key : Key} {code : RunCode} {codes : List RunCode}

/-- A playable run goes to the end of the output that was registered last. -/
theorem Holds.addRun (h : catalogue.Holds (parts ++ [part]))
    (hkey : catalogue.outputs.keys.getLast? = some key) (hsound : timeline.Sound)
    (hplayable : timeline.Playable code) (count : Nat) :
    ∃ next, Composition.addRun timeline key part.filters (catalogue, count) code =
        .ok (next, count + (timeline.fragments code).length) ∧
      next.Holds
        (parts ++ [{ part with fragments := part.fragments ++ timeline.fragments code }]) ∧
      next.outputs.keys = catalogue.outputs.keys := by
  obtain ⟨next, hnext, hholds, hkeys⟩ := h.addRanges hkey (hplayable.rangeOf hsound)
  refine ⟨next, ?_, hholds, hkeys⟩
  have hcontains : ¬ catalogue.outputs.contains key = false := by
    rw [Bool.not_eq_false]
    exact contains_iff.mpr (List.mem_of_getLast? hkey)
  rw [Composition.addRun, hplayable.runIntervals, Failure.ok_bind, addIntervals, if_neg hcontains,
    hnext, Failure.ok_bind]
  rfl

/-- Playable runs go to the end of the output that was registered last, one after the other. -/
theorem Holds.addRuns (h : catalogue.Holds (parts ++ [part]))
    (hkey : catalogue.outputs.keys.getLast? = some key) (hsound : timeline.Sound)
    (hplayable : ∀ code ∈ codes, timeline.Playable code) (count : Nat) :
    ∃ next total, codes.foldlM (Composition.addRun timeline key part.filters) (catalogue, count) =
        Except.ok (next, total) ∧
      next.Holds
        (parts ++ [{ part with fragments := part.fragments ++ codes.flatMap timeline.fragments }]) ∧
      next.outputs.keys = catalogue.outputs.keys := by
  induction codes generalizing catalogue part count with
  | nil => exact ⟨catalogue, count, rfl, by simpa using h, rfl⟩
  | cons code codes ih =>
    obtain ⟨hcode, hcodes⟩ := List.forall_mem_cons.mp hplayable
    obtain ⟨between, hbetween, hholds, hkeys⟩ := h.addRun hkey hsound hcode count
    rw [← hkeys] at hkey
    obtain ⟨next, total, hnext, hholds, hkeys'⟩ := ih hholds hkey hcodes _
    refine ⟨next, total, ?_, by simpa using hholds, hkeys'.trans hkeys⟩
    rw [List.foldlM_cons, hbetween, Failure.ok_bind]
    exact hnext

theorem getLast?_keys_addOutput (catalogue : Catalogue) (path : Path) :
    (catalogue.addOutput path).1.outputs.keys.getLast? = some (catalogue.addOutput path).2 := by
  rw [Catalogue.addOutput, keys_insertWith]
  exact List.getLast?_concat

/-- An output whose runs can be played becomes the next part. -/
theorem Holds.planOutput (h : catalogue.Holds parts) (hsound : timeline.Sound) {spec : OutputSpec}
    (hplayable : ∀ code ∈ spec.runs, timeline.Playable code) :
    ∃ next, Composition.planOutput settings timeline directory catalogue spec = .ok next ∧
      next.Holds (parts ++ [partOf settings timeline directory spec]) := by
  obtain ⟨next, total, hnext, hholds, -⟩ :=
    (h.addOutput (outputPath settings directory spec.name) spec.filters).addRuns
      (getLast?_keys_addOutput _ _) hsound hplayable 0
  refine ⟨next, ?_, by simpa [partOf] using hholds⟩
  rw [Composition.planOutput]
  dsimp only
  rw [hnext, Failure.ok_bind]
  rfl

/-- An output whose first unplayable run has an obstacle ends with it. -/
theorem Holds.planOutput_of_obstacle (h : catalogue.Holds parts) (hsound : timeline.Sound)
    {spec : OutputSpec} {before after : List RunCode} (hruns : spec.runs = before ++ code :: after)
    (hbefore : ∀ code ∈ before, timeline.Playable code) {failure : Failure}
    (hobstacle : timeline.Obstacle code failure) :
    Composition.planOutput settings timeline directory catalogue spec = .error failure := by
  obtain ⟨between, total, hbetween, -, hkeys⟩ :=
    (h.addOutput (outputPath settings directory spec.name) spec.filters).addRuns
      (getLast?_keys_addOutput _ _) hsound hbefore 0
  have hkey := getLast?_keys_addOutput catalogue (outputPath settings directory spec.name)
  rw [← hkeys] at hkey
  have hfails := hobstacle.addRun hsound (contains_iff.mpr (List.mem_of_getLast? hkey)) spec.filters
    total
  rw [Composition.planOutput]
  dsimp only
  rw [hruns, List.foldlM_append, hbetween, Failure.ok_bind, List.foldlM_cons, hfails,
    Failure.error_bind, Failure.error_bind]

/-! ### All outputs -/

variable {specs : List OutputSpec}

/-- Outputs whose runs can be played become parts, one after the other. -/
theorem Holds.planOutputs (h : catalogue.Holds parts) (hsound : timeline.Sound)
    (hplayable : ∀ code ∈ specs.flatMap OutputSpec.runs, timeline.Playable code) :
    ∃ next, specs.foldlM (Composition.planOutput settings timeline directory) catalogue =
        Except.ok next ∧
      next.Holds (parts ++ specs.map (partOf settings timeline directory)) := by
  induction specs generalizing catalogue parts with
  | nil => exact ⟨catalogue, rfl, by simpa using h⟩
  | cons spec specs ih =>
    rw [List.flatMap_cons, List.forall_mem_append] at hplayable
    obtain ⟨between, hbetween, hholds⟩ := h.planOutput hsound hplayable.1
    obtain ⟨next, hnext, hholds⟩ := ih hholds hplayable.2
    refine ⟨next, ?_, by simpa using hholds⟩
    rw [List.foldlM_cons, hbetween, Failure.ok_bind]
    exact hnext

/-- Outputs whose first unplayable run has an obstacle end with it. -/
theorem Holds.planOutputs_of_obstacle (h : catalogue.Holds parts) (hsound : timeline.Sound)
    {before after : List RunCode} (hruns : specs.flatMap OutputSpec.runs = before ++ code :: after)
    (hbefore : ∀ code ∈ before, timeline.Playable code) {failure : Failure}
    (hobstacle : timeline.Obstacle code failure) :
    specs.foldlM (Composition.planOutput settings timeline directory) catalogue =
      Except.error failure := by
  induction specs generalizing catalogue parts before with
  | nil => simp at hruns
  | cons spec specs ih =>
    rw [List.flatMap_cons] at hruns
    rw [List.foldlM_cons]
    rcases List.append_eq_append_iff.mp hruns with ⟨rest, hrest, htail⟩ | ⟨rest, hrest, htail⟩
    · -- The obstacle is in a later output.
      rw [hrest, List.forall_mem_append] at hbefore
      obtain ⟨between, hbetween, hholds⟩ := h.planOutput hsound hbefore.1
      rw [hbetween, Failure.ok_bind]
      exact ih hholds htail hbefore.2
    · cases rest with
      | nil =>
        -- The obstacle is in the first run of the outputs that follow.
        rw [List.append_nil] at hrest
        obtain ⟨between, hbetween, hholds⟩ := h.planOutput hsound (hrest ▸ hbefore)
        rw [hbetween, Failure.ok_bind]
        have htail : specs.flatMap OutputSpec.runs = [] ++ code :: after := htail.symm
        exact ih hholds htail (by simp)
      | cons first rest =>
        obtain ⟨rfl, -⟩ := List.cons.inj htail
        rw [h.planOutput_of_obstacle hsound hrest hbefore hobstacle, Failure.error_bind]

end Montage.Media.Catalogue

namespace Montage.Composition

open Registry Timing Media Media.Catalogue Logged

/-- Either all runs can be played, or there is a first one that cannot. -/
theorem playable_or_exists_obstacle (timeline : Timeline) (codes : List RunCode) :
    (∀ code ∈ codes, timeline.Playable code) ∨
      ∃ before code after failure, codes = before ++ code :: after ∧
        (∀ earlier ∈ before, timeline.Playable earlier) ∧ timeline.Obstacle code failure := by
  induction codes with
  | nil => exact Or.inl (by simp)
  | cons code codes ih =>
    rcases timeline.playable_or_obstacle code with hcode | ⟨failure, hobstacle⟩
    · rcases ih with hcodes | ⟨before, other, after, failure, rfl, hbefore, hobstacle⟩
      · exact Or.inl (List.forall_mem_cons.mpr ⟨hcode, hcodes⟩)
      · exact Or.inr ⟨code :: before, other, after, failure, rfl,
          List.forall_mem_cons.mpr ⟨hcode, hbefore⟩, hobstacle⟩
    · exact Or.inr ⟨[], code, codes, failure, rfl, by simp, hobstacle⟩

theorem outcome_planOutputs (settings : Settings) (timeline : Timeline) (directory : Path)
    (specs : List OutputSpec) :
    (planOutputs settings timeline directory specs).outcome.1 =
      specs.foldlM (planOutput settings timeline directory) {} :=
  (yields_foldlM yields_addOutput specs {}).outcome

/-- Planning gives a catalogue that holds a part for every output, if all runs can be played. -/
theorem planned_of_playable {timeline : Timeline} (hsound : timeline.Sound) (settings : Settings)
    (directory : Path) {specs : List OutputSpec}
    (hplayable : ∀ code ∈ specs.flatMap OutputSpec.runs, timeline.Playable code) :
    ∃ catalogue, (planOutputs settings timeline directory specs).outcome.1 = .ok catalogue ∧
      catalogue.Holds (specs.map (partOf settings timeline directory)) := by
  rw [outcome_planOutputs]
  exact holds_empty.planOutputs hsound hplayable

/-- Planning fails with the obstacle of the first run that cannot be played. -/
theorem planned_of_obstacle {timeline : Timeline} (hsound : timeline.Sound) (settings : Settings)
    (directory : Path) {specs : List OutputSpec} {before after : List RunCode} {code : RunCode}
    {failure : Failure} (hruns : specs.flatMap OutputSpec.runs = before ++ code :: after)
    (hbefore : ∀ earlier ∈ before, timeline.Playable earlier)
    (hobstacle : timeline.Obstacle code failure) :
    (planOutputs settings timeline directory specs).outcome.1 = .error failure := by
  rw [outcome_planOutputs]
  exact holds_empty.planOutputs_of_obstacle hsound hruns hbefore hobstacle

/-- On whatever was read, planning succeeds if and only if every run that an output lists can be
played. Otherwise it fails with the obstacle of the first one that cannot, which is a missing run, a
missing bound or a slot that ends before it starts. -/
theorem planOutputs_succeeds_iff (readings : List Timeline.Reading) (settings : Settings)
    (directory : Path) (specs : List OutputSpec) :
    let timeline := Timeline.after readings
    let planned := (planOutputs settings timeline directory specs).outcome.1
    ((∃ catalogue, planned = .ok catalogue) ↔
        ∀ spec ∈ specs, ∀ code ∈ spec.runs, timeline.Playable code) ∧
      (∀ failure, planned = .error failure ↔
        ∃ before code after, specs.flatMap OutputSpec.runs = before ++ code :: after ∧
          (∀ earlier ∈ before, timeline.Playable earlier) ∧ timeline.Obstacle code failure) ∧
      ∀ failure, planned = .error failure →
        (∃ code, failure = .unknownRun code) ∨
          (∃ code slot missing, failure = .incompleteInterval code slot missing) ∨
          ∃ start stop, stop < start ∧ failure = .invalidBlock (.unordered start stop) := by
  intro timeline planned
  have hsound : timeline.Sound := Timeline.sound_after readings
  have hlisted : (∀ spec ∈ specs, ∀ code ∈ spec.runs, timeline.Playable code) ↔
      ∀ code ∈ specs.flatMap OutputSpec.runs, timeline.Playable code := by
    simp only [List.forall_mem_flatMap]
  have hfails (failure : Failure) : planned = .error failure ↔
      ∃ before code after, specs.flatMap OutputSpec.runs = before ++ code :: after ∧
        (∀ earlier ∈ before, timeline.Playable earlier) ∧ timeline.Obstacle code failure := by
    constructor
    · intro hplanned
      rcases playable_or_exists_obstacle timeline (specs.flatMap OutputSpec.runs) with
        hplayable | ⟨before, code, after, failure', hruns, hbefore, hobstacle⟩
      · obtain ⟨catalogue, hcatalogue, -⟩ := planned_of_playable hsound settings directory hplayable
        cases hplanned.symm.trans hcatalogue
      · cases hplanned.symm.trans
          (planned_of_obstacle hsound settings directory hruns hbefore hobstacle)
        exact ⟨before, code, after, hruns, hbefore, hobstacle⟩
    · rintro ⟨before, code, after, hruns, hbefore, hobstacle⟩
      exact planned_of_obstacle hsound settings directory hruns hbefore hobstacle
  refine ⟨?_, hfails, fun failure hplanned ↦ ?_⟩
  · rw [hlisted]
    constructor
    · rintro ⟨catalogue, hplanned⟩
      rcases playable_or_exists_obstacle timeline (specs.flatMap OutputSpec.runs) with
        hplayable | ⟨before, code, after, failure, hobstacle⟩
      · exact hplayable
      · cases hplanned.symm.trans ((hfails failure).mpr ⟨before, code, after, hobstacle⟩)
    · intro hplayable
      obtain ⟨catalogue, hcatalogue, -⟩ := planned_of_playable hsound settings directory hplayable
      exact ⟨catalogue, hcatalogue⟩
  · obtain ⟨before, code, after, -, -, hobstacle⟩ := (hfails failure).mp hplanned
    cases hobstacle with
    | unknown hrun => exact Or.inl ⟨_, rfl⟩
    | incomplete hrun hslots hbefore hlacks => exact Or.inr (Or.inl ⟨_, _, _, rfl⟩)
    | unordered hrun hcomplete hslots hbefore hbounds hlt =>
      exact Or.inr (Or.inr ⟨_, _, hlt, rfl⟩)

/-- A planned catalogue has one output for every one that the manifest lists, with one block for
every fragment of its runs, and one input for every file that is played. -/
theorem media_of_planOutputs (readings : List Timeline.Reading) (settings : Settings)
    (directory : Path) (specs : List OutputSpec) (catalogue : Catalogue)
    (hplanned : (planOutputs settings (Timeline.after readings) directory specs).outcome.1 =
      .ok catalogue) :
    let timeline := Timeline.after readings
    (∀ spec ∈ specs, ∀ code ∈ spec.runs, ∃ run, timeline.run? code = some run ∧
        timeline.fragments code =
          resolve (run.intro.toList ++ run.checkpoints) timeline.changes) ∧
      List.Forall₂
        (fun spec output ↦
          output.path = directory.join ⟨spec.name ++ "." ++ settings.outputExtension⟩ ∧
            List.Forall₂ (Block.Plays catalogue.inputs spec.filters)
              (spec.runs.flatMap timeline.fragments) output.blocks)
        specs catalogue.outputs.values ∧
      catalogue.inputs.values.map Input.path =
        firstOfEach (recordings
          (specs.flatMap fun spec ↦ spec.runs.flatMap timeline.fragments)) := by
  intro timeline
  have hsound : timeline.Sound := Timeline.sound_after readings
  rcases playable_or_exists_obstacle timeline (specs.flatMap OutputSpec.runs) with
    hplayable | ⟨before, code, after, failure, hruns, hbefore, hobstacle⟩
  · obtain ⟨planned, hcatalogue, hholds⟩ := planned_of_playable hsound settings directory hplayable
    cases hplanned.symm.trans hcatalogue
    refine ⟨fun spec hspec code hcode ↦ ?_, ?_, ?_⟩
    · obtain ⟨run, hrun, -⟩ := hplayable code (List.mem_flatMap.mpr ⟨spec, hspec, hcode⟩)
      refine ⟨run, hrun, ?_⟩
      simp only [Timeline.fragments, hrun, Run.intervals]
    · exact (List.forall₂_map_left_iff.mp hholds.outputs).imp fun spec output hrenders ↦
        ⟨hrenders.path_eq, hrenders.blocks⟩
    · rw [hholds.inputs, List.flatMap_map]
      rfl
  · cases hplanned.symm.trans
      (planned_of_obstacle hsound settings directory hruns hbefore hobstacle)

/-- Two runs of one recording, which is written in two ways, and one run of another. -/
def sampleReadings : List Timeline.Reading :=
  [.text ⟨"in/clip.mp4"⟩ "1=0 ab1cp0a\n2=10 ab1cp0b|ab1cp1a\n3=15 x2\n4=20 ab1cp1b\n",
    .text ⟨"in//clip.mp4"⟩ "30=cd2inta\n40=cd2intb\n", .text ⟨"other.mp4"⟩ "1=ef3cp0a\n2=ef3cp0b\n"]

/-- Two outputs of one name, which share a run. -/
def sampleSpecs : List OutputSpec :=
  [⟨"day", [.transpose 1], [⟨"ef", 3⟩, ⟨"ab", 1⟩]⟩,
    ⟨"day", [], [⟨"ab", 1⟩, ⟨"cd", 2⟩, ⟨"ab", 1⟩]⟩]

/-- The checkpoint that the speed changes in gives two blocks, and each recording one input. -/
theorem media_of_planOutputs_sample :
    ∃ catalogue, (planOutputs {} (Timeline.after sampleReadings) ⟨"out"⟩ sampleSpecs).outcome.1 =
        .ok catalogue ∧
      catalogue.outputs.values.map (fun output ↦ (output.path, output.blocks.length)) =
        [(⟨"out/day.mp4"⟩, 4), (⟨"out/day.mp4"⟩, 7)] ∧
      catalogue.inputs.values.map Input.path = [⟨"other.mp4"⟩, ⟨"in/clip.mp4"⟩] := by
  obtain ⟨catalogue, hplanned⟩ := Failure.exists_eq_ok
    (planOutputs {} (Timeline.after sampleReadings) ⟨"out"⟩ sampleSpecs).outcome.1
    (by decide +kernel)
  obtain ⟨-, houtputs, hinputs⟩ := media_of_planOutputs sampleReadings {} ⟨"out"⟩ sampleSpecs
    catalogue hplanned
  refine ⟨catalogue, hplanned, ?_, hinputs.trans (by decide +kernel)⟩
  have hrows : List.Forall₂ (· = ·)
      (sampleSpecs.map fun spec ↦ (outputPath {} ⟨"out"⟩ spec.name,
        (spec.runs.flatMap (Timeline.after sampleReadings).fragments).length))
      (catalogue.outputs.values.map fun output ↦ (output.path, output.blocks.length)) := by
    rw [List.forall₂_map_left_iff, List.forall₂_map_right_iff]
    exact houtputs.imp fun spec output h ↦ Prod.ext h.1.symm h.2.length_eq
  rw [List.forall₂_eq_eq_eq] at hrows
  exact hrows.symm.trans (by decide +kernel)

end Montage.Composition
