import Montage.Proofs.Render.Pass

/-!
# Dry runs

A dry run makes no files, so in it an output is due exactly if it is due before it. A run whose
commands all succeed and make their outputs (`Runner.MakesOnly`) goes another way at an output that
names the same file as one that was rendered before: the output is skipped, unless files may be
replaced. Hence the commands of such a run are those of the dry run without the later ones of each
file, and the dry run tells the commands and the report of the run exactly if files may be replaced
or the outputs that are due are different files (`predicted_by_dry_run`). Two outputs of one name
are enough to make a difference (`dry_run_repeats`).
-/

set_option autoImplicit false
set_option relaxedAutoImplicit false

namespace Montage

open Media Registry

variable {World : Type}

/-- Whether every command succeeds and makes its output and no other file. Which paths name the same
file is left to the runner. -/
structure Runner.MakesOnly (runner : Runner World) (alike : Path → Path → Bool) : Prop where
  succeeds : ∀ world command, (runner.run world command).failure? = none
  makes : ∀ world command path, runner.pathExists (runner.run world command).world path =
    (runner.pathExists world path || alike command.output path)

/-- In a dry run all commands succeed and make nothing. -/
theorem Runner.makesOnly_dry (pathExists : World → Path → Bool) :
    (Runner.dry pathExists).MakesOnly fun _ _ ↦ false where
  succeeds _ _ := rfl
  makes _ _ _ := (Bool.or_false _).symm

namespace Conversion

/-! ### Repeated items -/

section Repetition

variable {α β : Type}

/-- Items are repeated as often as what they are mapped to. -/
theorem eraseDupsBy_map (f : α → β) (repeats : β → β → Bool) :
    ∀ items : List α, (items.map f).eraseDupsBy repeats =
      (items.eraseDupsBy fun later earlier ↦ repeats (f later) (f earlier)).map f
  | [] => rfl
  | item :: items => by
    rw [List.map_cons, List.eraseDupsBy_cons, List.eraseDupsBy_cons, List.map_cons,
      List.filter_map, eraseDupsBy_map]
    rfl
termination_by items => items.length
decreasing_by exact Nat.lt_succ_of_le (List.length_filter_le _ _)

theorem eraseDupsBy_sublist (repeats : α → α → Bool) :
    ∀ items : List α, (items.eraseDupsBy repeats).Sublist items
  | [] => .slnil
  | item :: items => by
    rw [List.eraseDupsBy_cons]
    exact ((eraseDupsBy_sublist repeats _).trans List.filter_sublist).cons_cons item
termination_by items => items.length
decreasing_by exact Nat.lt_succ_of_le (List.length_filter_le _ _)

/-- A list stays as it is if and only if no item repeats an earlier one. -/
theorem eraseDupsBy_eq_self_iff {repeats : α → α → Bool} {items : List α} :
    items.eraseDupsBy repeats = items ↔
      items.Pairwise fun earlier later ↦ repeats later earlier = false := by
  induction items with
  | nil => simp
  | cons item items ih =>
    rw [List.eraseDupsBy_cons, List.cons.injEq, List.pairwise_cons, ← ih, and_iff_right rfl]
    constructor
    · intro hkept
      have hnone : items.filter (fun later ↦ repeats later item = false) = items := by
        refine List.filter_sublist.eq_of_length_le ?_
        calc items.length
            = ((items.filter fun later ↦ repeats later item = false).eraseDupsBy
                repeats).length := by rw [hkept]
          _ ≤ _ := (eraseDupsBy_sublist repeats _).length_le
      rw [hnone] at hkept
      have hitem := List.filter_eq_self.mp hnone
      exact ⟨fun later hlater ↦ of_decide_eq_true (hitem later hlater), hkept⟩
    · rintro ⟨hitem, hkept⟩
      rw [List.filter_eq_self.mpr fun later hlater ↦ decide_eq_true (hitem later hlater), hkept]

end Repetition

/-! ### Passes that make their outputs -/

section OnePass

/-- Whether an output of the first path keeps one of the second from being rendered after it. -/
def hides (settings : Settings) (alike : Path → Path → Bool) (earlier later : Path) : Bool :=
  !settings.overwriteExisting && alike earlier later

/-- No output keeps a later one from being rendered if files may be replaced or there are no two
outputs of one file. -/
theorem pairwise_hides_iff {settings : Settings} {alike : Path → Path → Bool}
    {outputs : List Output} :
    (outputs.Pairwise fun earlier later ↦ hides settings alike earlier.path later.path = false) ↔
      settings.overwriteExisting = true ∨
        outputs.Pairwise fun earlier later ↦ alike earlier.path later.path = false := by
  cases hoverwrite : settings.overwriteExisting <;>
    simp [hides, hoverwrite, List.pairwise_of_forall]

variable {runner : Runner World} {alike : Path → Path → Bool} {settings : Settings} {world : World}
  {commandOf : Output → Command} {outputs : List Output} {trace : Trace World}

/-- After a command, an output is due if it was due before and the command has not made its file. -/
theorem due_run_iff_not_hides (hruns : runner.MakesOnly alike) (command : Command)
    (output : Output) :
    Due runner settings (runner.run world command).world output ↔
      Due runner settings world output ∧
        hides settings alike command.output output.path = false := by
  rw [Due, Due, hruns.makes, hides]
  cases settings.overwriteExisting <;> simp [and_assoc]

/-- No command of a pass fails, and the outputs that are rendered are those that were due before the
pass, each file once unless files may be replaced. -/
theorem Pass.of_makesOnly (hpass : Pass runner settings commandOf world outputs trace)
    (hruns : runner.MakesOnly alike)
    (hcommand : ∀ output, (commandOf output).output = output.path) :
    trace.failed? = none ∧
      trace.rendered = (outputs.filter (Due runner settings world)).eraseDupsBy
        fun later earlier ↦ hides settings alike earlier.path later.path := by
  induction hpass with
  | done world => exact ⟨rfl, rfl⟩
  | skip hdue _ ih =>
    rw [List.filter_cons_of_neg (by simpa using hdue)]
    exact ih
  | @render world output rest _ hdue _ _ ih =>
    obtain ⟨hfailed, hrendered⟩ := ih
    -- What the command makes is the only difference to the world before it.
    have hrest : rest.filter (Due runner settings (runner.run world (commandOf output)).world) =
        (rest.filter (Due runner settings world)).filter fun later ↦
          hides settings alike output.path later.path = false := by
      rw [List.filter_filter]
      refine List.filter_congr fun later _ ↦ ?_
      rw [← Bool.decide_and, decide_eq_decide, due_run_iff_not_hides hruns, hcommand, and_comm]
    rw [List.filter_cons_of_pos (by simpa using hdue), List.eraseDupsBy_cons, ← hrest]
    exact ⟨hfailed, congrArg (output :: ·) hrendered⟩
  | fail _ hrun => cases (hruns.succeeds _ _).symm.trans hrun

/-- If no output that is due keeps another from being rendered, exactly those that are not due
before the pass are skipped. -/
theorem Pass.skipped_eq (hpass : Pass runner settings commandOf world outputs trace)
    (hruns : runner.MakesOnly alike) (hcommand : ∀ output, (commandOf output).output = output.path)
    (hapart : (outputs.filter (Due runner settings world)).Pairwise fun earlier later ↦
      hides settings alike earlier.path later.path = false) :
    trace.skipped = outputs.filter (¬ Due runner settings world ·) := by
  induction hpass with
  | done world => rfl
  | @skip world output _ _ hdue _ ih =>
    rw [List.filter_cons_of_neg (by simpa using hdue)] at hapart
    rw [List.filter_cons_of_pos (by simpa using hdue)]
    exact congrArg (output :: ·) (ih hapart)
  | @render world output rest _ hdue _ _ ih =>
    rw [List.filter_cons_of_pos (by simpa using hdue), List.pairwise_cons] at hapart
    rw [List.filter_cons_of_neg (by simpa using hdue)]
    -- The command makes no file of an output that is due, so the same outputs are due after it.
    have hsame (later) (hlater : later ∈ rest) :
        Due runner settings (runner.run world (commandOf output)).world later ↔
          Due runner settings world later := by
      rw [due_run_iff_not_hides hruns, hcommand]
      exact and_iff_left_of_imp fun hnow ↦
        hapart.1 later (List.mem_filter.mpr ⟨hlater, decide_eq_true hnow⟩)
    have hdues : rest.filter (Due runner settings (runner.run world (commandOf output)).world) =
        rest.filter (Due runner settings world) :=
      List.filter_congr fun later hlater ↦ decide_eq_decide.mpr (hsame later hlater)
    have hothers :
        rest.filter (¬ Due runner settings (runner.run world (commandOf output)).world ·) =
          rest.filter (¬ Due runner settings world ·) :=
      List.filter_congr fun later hlater ↦ decide_eq_decide.mpr (not_congr (hsame later hlater))
    rw [hdues, hothers] at ih
    exact ih hapart.2
  | fail _ hrun => cases (hruns.succeeds _ _).symm.trans hrun

end OnePass

/-! ### Conversions that make their outputs -/

section Conversions

variable {runner : Runner World} {alike : Path → Path → Bool}

/-- What a conversion does whose commands make their outputs: it issues the commands of the outputs
that are due, one for each file unless files may be replaced, and reports them as converted. If
these outputs are different files, all others are reported as skipped. -/
theorem convert_of_makesOnly (operations : List Catalogue.Operation)
    (hruns : runner.MakesOnly alike) (settings : Settings) (world : World) :
    let catalogue := Catalogue.after operations
    let conversion := catalogue.convert runner settings world
    let due := catalogue.outputs.values.filter (Due runner settings world)
    conversion.commands = (due.map (catalogue.commandFor settings)).eraseDupsBy
        (fun later earlier ↦ hides settings alike earlier.output later.output) ∧
      conversion.report = .ok (conversion.commands.map Command.output, conversion.skipped) ∧
      ((due.Pairwise fun earlier later ↦ hides settings alike earlier.path later.path = false) →
        conversion.skipped =
          (catalogue.outputs.values.filter (¬ Due runner settings world ·)).map Output.path) := by
  intro catalogue conversion due
  obtain ⟨trace, hpass, hafter⟩ := exists_pass_convert operations runner settings world
  obtain ⟨hfailed, hrendered⟩ := hpass.of_makesOnly hruns (Catalogue.output_commandFor _ _)
  have hcommands : conversion.commands = trace.rendered.map (catalogue.commandFor settings) := by
    rw [hafter.commands_eq, Trace.issued, hfailed]
    simp [catalogue]
  refine ⟨?_, ?_, fun hapart ↦ ?_⟩
  · rw [hcommands, hrendered, eraseDupsBy_map]
    rfl
  · rw [report_of_failure?_eq_none (by rw [hafter.failure?_eq, hfailed]; rfl), hafter.converted_eq,
      hcommands, List.map_map]
    rfl
  · rw [hafter.skipped_eq, hpass.skipped_eq hruns (Catalogue.output_commandFor _ _) hapart]
    rfl

/-- A dry run and a run from the same files whose commands make their outputs both return a report,
in which exactly the outputs of their commands are converted. The commands of the run are those of
the dry run, except that of commands for one file only the first is issued unless files may be
replaced. The commands and the reports of the two are the same if and only if files may be replaced
or the outputs that are due are different files. -/
theorem predicted_by_dry_run (operations : List Catalogue.Operation) (runner : Runner World)
    (alike : Path → Path → Bool) (hruns : runner.MakesOnly alike) (settings : Settings)
    (world : World) :
    let catalogue := Catalogue.after operations
    let dry := catalogue.convert (Runner.dry runner.pathExists) settings world
    let real := catalogue.convert runner settings world
    dry.report = .ok (dry.commands.map Command.output, dry.skipped) ∧
      real.report = .ok (real.commands.map Command.output, real.skipped) ∧
      real.commands = dry.commands.eraseDupsBy (fun later earlier ↦
        !settings.overwriteExisting && alike earlier.output later.output) ∧
      (real.commands = dry.commands ∧ real.report = dry.report ↔
        settings.overwriteExisting = true ∨
          (catalogue.outputs.values.filter (Due runner settings world)).Pairwise
            fun earlier later ↦ alike earlier.path later.path = false) := by
  intro catalogue dry real
  obtain ⟨hdry, hdryReport, hdrySkipped⟩ :=
    convert_of_makesOnly operations (Runner.makesOnly_dry runner.pathExists) settings world
  obtain ⟨hreal, hrealReport, hrealSkipped⟩ := convert_of_makesOnly operations hruns settings world
  have hnone (earlier later : Path) : hides settings (fun _ _ ↦ false) earlier later = false :=
    Bool.and_false _
  rw [eraseDupsBy_eq_self_iff.mpr (List.pairwise_of_forall fun _ _ ↦ hnone _ _)] at hdry
  have hcommands : real.commands = dry.commands.eraseDupsBy fun later earlier ↦
      hides settings alike earlier.output later.output := by
    rw [hdry]
    exact hreal
  have hapart : real.commands = dry.commands ↔
      (catalogue.outputs.values.filter (Due runner settings world)).Pairwise fun earlier later ↦
        hides settings alike earlier.path later.path = false := by
    rw [hcommands, eraseDupsBy_eq_self_iff, hdry, List.pairwise_map]
    rfl
  refine ⟨hdryReport, hrealReport, hcommands, ?_⟩
  rw [← pairwise_hides_iff, ← hapart]
  refine ⟨And.left, fun hsame ↦ ⟨hsame, ?_⟩⟩
  have hskipped : real.skipped = dry.skipped :=
    (hrealSkipped (hapart.mp hsame)).trans
      (hdrySkipped (List.pairwise_of_forall fun _ _ ↦ hnone _ _)).symm
  rw [hrealReport, hdryReport, hsame, hskipped]

/-- A runner whose commands succeed and make their outputs. Its world is the list of files. -/
def obliging : Runner (List Path) where
  pathExists files path := decide (path ∈ files)
  run files command := { world := command.output :: files }

theorem makesOnly_obliging : obliging.MakesOnly fun output path ↦ decide (path = output) where
  succeeds _ _ := rfl
  makes files command path := by simp [obliging, Bool.or_comm]

/-- Of four outputs that are due, two are the same file, but files may be replaced. -/
theorem predicted_by_dry_run_sample :
    let settings : Settings := { overwriteExisting := true }
    let dry := (Catalogue.after fiveOutputs).convert (.dry obliging.pathExists) settings []
    let real := (Catalogue.after fiveOutputs).convert obliging settings []
    real.commands = dry.commands ∧ real.report = dry.report ∧ real.commands.map Command.output =
      [⟨"old.mp4"⟩, ⟨"day.mp4"⟩, ⟨"night.mp4"⟩, ⟨"day.mp4"⟩] := by
  obtain ⟨-, -, -, hsame⟩ := predicted_by_dry_run fiveOutputs obliging _ makesOnly_obliging
    { overwriteExisting := true } []
  obtain ⟨hcommands, hreport⟩ := hsame.mpr (Or.inl rfl)
  exact ⟨hcommands, hreport, by decide +kernel⟩

/-- If files may not be replaced, the dry run issues the command of an output again that the run
skips the second time. -/
theorem dry_run_repeats :
    let dry := (Catalogue.after fiveOutputs).convert (.dry obliging.pathExists) {} [⟨"old.mp4"⟩]
    let real := (Catalogue.after fiveOutputs).convert obliging {} [⟨"old.mp4"⟩]
    obliging.MakesOnly (fun output path ↦ decide (path = output)) ∧
      dry.commands.map Command.output = [⟨"day.mp4"⟩, ⟨"night.mp4"⟩, ⟨"day.mp4"⟩] ∧
      real.commands.map Command.output = [⟨"day.mp4"⟩, ⟨"night.mp4"⟩] ∧
      dry.report = .ok ([⟨"day.mp4"⟩, ⟨"night.mp4"⟩, ⟨"day.mp4"⟩],
        [⟨"old.mp4"⟩, ⟨"empty.mp4"⟩]) ∧
      real.report = .ok ([⟨"day.mp4"⟩, ⟨"night.mp4"⟩],
        [⟨"old.mp4"⟩, ⟨"empty.mp4"⟩, ⟨"day.mp4"⟩]) := by
  refine ⟨makesOnly_obliging, ?_⟩
  decide +kernel

end Conversions

end Conversion

end Montage
