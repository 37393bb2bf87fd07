import Mathlib.Data.List.Pairwise
import Montage.Proofs.Render.Pass

/-!
# Converting again

Files that exist are not rendered again unless they may be replaced. So while no file is removed and
every command that succeeds makes its output (`Runner.Delivers`), converting again is safe. An
output whose command is issued did not exist before the pass (`Pass.missing_of_mem_issued`), one
that was rendered exists after it (`Pass.exists_of_mem_rendered`), and after a pass without failure
nothing is left to do (`Pass.settled`): all outputs are settled, and a pass over settled outputs
skips them all (`Pass.eq_of_settled`).

For conversions one after the other (`Attempt.LeadsTo`) this means that no output is rendered twice,
that none is rendered that was there before the first of them, and that after one without failure
nothing more is done (`rendered_once`).
-/

set_option autoImplicit false
set_option relaxedAutoImplicit false

namespace Montage

open Media Registry

variable {World : Type}

/-- Whether commands remove no files and those that succeed make their outputs. What a command that
fails makes is left open. -/
structure Runner.Delivers (runner : Runner World) : Prop where
  keeps : ∀ world command path, runner.pathExists world path = true →
    runner.pathExists (runner.run world command).world path = true
  makes : ∀ world command, (runner.run world command).failure? = none →
    runner.pathExists (runner.run world command).world command.output = true

/-- Whether there is a world that has the first file and not the second. -/
def Runner.TellsApart (runner : Runner World) (path other : Path) : Prop :=
  ∃ world, runner.pathExists world path = true ∧ runner.pathExists world other = false

namespace Conversion

/-! ### One pass -/

section OnePass

/-- Whether nothing is left to do for an output: it has no blocks, or its file exists. -/
def Settled (runner : Runner World) (world : World) (output : Output) : Prop :=
  output.blocks = [] ∨ runner.pathExists world output.path = true

variable {runner : Runner World} {settings : Settings} {world : World}
  {commandOf : Output → Command} {outputs rest : List Output} {trace : Trace World}
  {output : Output} {path : Path}

/-- Unless files may be replaced, what is not due is settled. -/
theorem not_due_iff_settled (hoverwrite : settings.overwriteExisting = false) :
    ¬ Due runner settings world output ↔ Settled runner world output := by
  simp [Due, Settled, hoverwrite, or_iff_not_imp_left]

/-- Unless files may be replaced, an output that is due does not exist. -/
theorem Due.missing (h : Due runner settings world output)
    (hoverwrite : settings.overwriteExisting = false) :
    runner.pathExists world output.path = false :=
  h.2.resolve_left (by simp [hoverwrite])

/-- What is settled stays settled in a world with the same files and more. -/
theorem Settled.mono {later : World} (h : Settled runner world output)
    (hkeeps : ∀ path, runner.pathExists world path = true → runner.pathExists later path = true) :
    Settled runner later output :=
  h.imp_right (hkeeps _)

/-- A pass removes no files. -/
theorem Pass.keeps (hpass : Pass runner settings commandOf world outputs trace)
    (hruns : runner.Delivers) (hpath : runner.pathExists world path = true) :
    runner.pathExists trace.world path = true := by
  induction hpass with
  | done world => exact hpath
  | skip _ _ ih => exact ih hpath
  | render _ _ _ ih => exact ih (hruns.keeps _ _ _ hpath)
  | fail _ _ => exact hruns.keeps _ _ _ hpath

/-- What a pass skips first is settled after it. -/
theorem Pass.settled_of_not_due (hpass : Pass runner settings commandOf world outputs trace)
    (hruns : runner.Delivers) (hoverwrite : settings.overwriteExisting = false)
    (hdue : ¬ Due runner settings world output) : Settled runner trace.world output :=
  ((not_due_iff_settled hoverwrite).mp hdue).mono fun _ ↦ hpass.keeps hruns

/-- What was rendered before a pass exists after it. -/
theorem Pass.exists_of_run
    (hpass : Pass runner settings commandOf (runner.run world (commandOf output)).world outputs
      trace)
    (hruns : runner.Delivers) (hcommand : ∀ output, (commandOf output).output = output.path)
    (hrun : (runner.run world (commandOf output)).failure? = none) :
    runner.pathExists trace.world output.path = true :=
  hpass.keeps hruns (hcommand output ▸ hruns.makes _ _ hrun)

/-- An output whose command is issued did not exist before the pass. -/
theorem Pass.missing_of_mem_issued (hpass : Pass runner settings commandOf world outputs trace)
    (hruns : runner.Delivers) (hoverwrite : settings.overwriteExisting = false)
    (houtput : output ∈ trace.issued) : runner.pathExists world output.path = false := by
  induction hpass with
  | done world => exact absurd houtput List.not_mem_nil
  | skip _ _ ih => exact ih houtput
  | render hdue _ _ ih =>
    rcases List.mem_cons.mp houtput with rfl | hlater
    · exact hdue.missing hoverwrite
    · -- The file was missing after the command, and a command removes no file.
      by_contra hexists
      have hmissing := ih hlater
      rw [hruns.keeps _ _ _ (eq_true_of_ne_false hexists)] at hmissing
      exact Bool.noConfusion hmissing
  | fail hdue _ =>
    obtain rfl := List.mem_singleton.mp houtput
    exact hdue.missing hoverwrite

/-- An output that was rendered exists after the pass. -/
theorem Pass.exists_of_mem_rendered (hpass : Pass runner settings commandOf world outputs trace)
    (hruns : runner.Delivers) (hcommand : ∀ output, (commandOf output).output = output.path)
    (houtput : output ∈ trace.rendered) : runner.pathExists trace.world output.path = true := by
  induction hpass with
  | done world => exact absurd houtput List.not_mem_nil
  | skip _ _ ih => exact ih houtput
  | render _ hrun hrest ih =>
    rcases List.mem_cons.mp houtput with rfl | hlater
    · exact hrest.exists_of_run hruns hcommand hrun
    · exact ih hlater
  | fail _ _ => exact absurd houtput List.not_mem_nil

/-- A world can tell apart any two outputs of a pass: the earlier one existed when the later one was
rendered. -/
theorem Pass.pairwise_rendered (hpass : Pass runner settings commandOf world outputs trace)
    (hruns : runner.Delivers) (hoverwrite : settings.overwriteExisting = false)
    (hcommand : ∀ output, (commandOf output).output = output.path) :
    (trace.rendered.map Output.path).Pairwise runner.TellsApart := by
  induction hpass with
  | done world => exact List.Pairwise.nil
  | skip _ _ ih => exact ih
  | render _ hrun hrest ih =>
    -- The world that tells the two apart is the one in which the first was just rendered.
    refine List.pairwise_cons.mpr ⟨List.forall_mem_map.mpr fun other hother ↦ ?_, ih⟩
    exact ⟨_, hcommand _ ▸ hruns.makes _ _ hrun,
      hrest.missing_of_mem_issued hruns hoverwrite (List.mem_append_left _ hother)⟩
  | fail _ _ => exact List.Pairwise.nil

/-- After a pass without failure, all outputs are settled. -/
theorem Pass.settled (hpass : Pass runner settings commandOf world outputs trace)
    (hruns : runner.Delivers) (hoverwrite : settings.overwriteExisting = false)
    (hcommand : ∀ output, (commandOf output).output = output.path)
    (hfailed : trace.failed? = none) :
    ∀ output ∈ outputs, Settled runner trace.world output := by
  induction hpass with
  | done world => exact fun output houtput ↦ absurd houtput List.not_mem_nil
  | skip hdue hrest ih =>
    exact List.forall_mem_cons.mpr ⟨hrest.settled_of_not_due hruns hoverwrite hdue, ih hfailed⟩
  | render _ hrun hrest ih =>
    exact List.forall_mem_cons.mpr ⟨Or.inr (hrest.exists_of_run hruns hcommand hrun), ih hfailed⟩
  | fail _ _ => cases hfailed

/-- A pass skips the outputs at its beginning that are settled. -/
theorem Pass.skip_settled {before : List Output}
    (hpass : Pass runner settings commandOf world (before ++ rest) trace)
    (hoverwrite : settings.overwriteExisting = false)
    (hsettled : ∀ output ∈ before, Settled runner world output) :
    ∃ later, Pass runner settings commandOf world rest later ∧
      trace = { later with skipped := before ++ later.skipped } := by
  induction before generalizing trace with
  | nil => exact ⟨trace, hpass, rfl⟩
  | cons output before ih =>
    obtain ⟨hhere, hbefore⟩ := List.forall_mem_cons.mp hsettled
    have hdue := (not_due_iff_settled hoverwrite).mpr hhere
    cases hpass with
    | skip _ hrest =>
      obtain ⟨later, hlater, rfl⟩ := ih hrest hbefore
      exact ⟨later, hlater, rfl⟩
    | render hnow _ _ => exact absurd hnow hdue
    | fail hnow _ => exact absurd hnow hdue

/-- A pass over settled outputs skips them all. -/
theorem Pass.eq_of_settled (hpass : Pass runner settings commandOf world outputs trace)
    (hoverwrite : settings.overwriteExisting = false)
    (hsettled : ∀ output ∈ outputs, Settled runner world output) :
    trace = { world, skipped := outputs } := by
  rw [← List.append_nil outputs] at hpass
  obtain ⟨later, hlater, rfl⟩ := hpass.skip_settled hoverwrite hsettled
  cases hlater
  rw [List.append_nil]

end OnePass

/-! ### One conversion -/

section OneConversion

variable {runner : Runner World} {settings : Settings} {path : Path}

/-- A conversion removes no files. -/
theorem keeps_convert (operations : List Catalogue.Operation) (hruns : runner.Delivers)
    (settings : Settings) (world : World) (hpath : runner.pathExists world path = true) :
    runner.pathExists ((Catalogue.after operations).convert runner settings world).world path =
      true := by
  obtain ⟨trace, hpass, hafter⟩ := exists_pass_convert operations runner settings world
  rw [hafter.world_eq]
  exact hpass.keeps hruns hpath

/-- No conversion issues a command whose output existed before. -/
theorem missing_of_mem_commands (operations : List Catalogue.Operation) (hruns : runner.Delivers)
    (hoverwrite : settings.overwriteExisting = false) (world : World) :
    ∀ command ∈ ((Catalogue.after operations).convert runner settings world).commands,
      runner.pathExists world command.output = false := by
  obtain ⟨trace, hpass, hafter⟩ := exists_pass_convert operations runner settings world
  rw [hafter.commands_eq]
  exact List.forall_mem_map.mpr fun output houtput ↦
    hpass.missing_of_mem_issued hruns hoverwrite houtput

/-- What is converted has a command. -/
theorem exists_command_of_mem_converted (operations : List Catalogue.Operation)
    (runner : Runner World) (settings : Settings) (world : World)
    (hpath : path ∈ ((Catalogue.after operations).convert runner settings world).converted) :
    ∃ command ∈ ((Catalogue.after operations).convert runner settings world).commands,
      command.output = path := by
  obtain ⟨trace, hpass, hafter⟩ := exists_pass_convert operations runner settings world
  rw [hafter.converted_eq] at hpath
  obtain ⟨output, houtput, rfl⟩ := List.mem_map.mp hpath
  rw [hafter.commands_eq]
  exact ⟨_, List.mem_map_of_mem (List.mem_append_left _ houtput), rfl⟩

/-- What is converted exists afterwards. -/
theorem exists_of_mem_converted (operations : List Catalogue.Operation) (hruns : runner.Delivers)
    (settings : Settings) (world : World)
    (hpath : path ∈ ((Catalogue.after operations).convert runner settings world).converted) :
    runner.pathExists ((Catalogue.after operations).convert runner settings world).world path =
      true := by
  obtain ⟨trace, hpass, hafter⟩ := exists_pass_convert operations runner settings world
  rw [hafter.converted_eq] at hpath
  obtain ⟨output, houtput, rfl⟩ := List.mem_map.mp hpath
  rw [hafter.world_eq]
  exact hpass.exists_of_mem_rendered hruns (Catalogue.output_commandFor _ _) houtput

theorem pairwise_converted (operations : List Catalogue.Operation) (hruns : runner.Delivers)
    (hoverwrite : settings.overwriteExisting = false) (world : World) :
    ((Catalogue.after operations).convert runner settings world).converted.Pairwise
      runner.TellsApart := by
  obtain ⟨trace, hpass, hafter⟩ := exists_pass_convert operations runner settings world
  rw [hafter.converted_eq]
  exact hpass.pairwise_rendered hruns hoverwrite (Catalogue.output_commandFor _ _)

/-- After a conversion without failure, a conversion that finds its files skips everything. -/
theorem convert_of_report_eq_ok {operations : List Catalogue.Operation} (hruns : runner.Delivers)
    (hoverwrite : settings.overwriteExisting = false) {again : Settings}
    (hagain : again.overwriteExisting = false) {world later : World}
    {reported : List Path × List Path}
    (hreport : ((Catalogue.after operations).convert runner settings world).report = .ok reported)
    (hkeeps : ∀ path, runner.pathExists
      ((Catalogue.after operations).convert runner settings world).world path = true →
        runner.pathExists later path = true) :
    ((Catalogue.after operations).convert runner again later).commands = [] ∧
      ((Catalogue.after operations).convert runner again later).report =
        .ok ([], (Catalogue.after operations).outputs.values.map Output.path) := by
  obtain ⟨trace, hpass, hafter⟩ := exists_pass_convert operations runner settings world
  obtain ⟨trace', hpass', hafter'⟩ := exists_pass_convert operations runner again later
  have hfailed := hafter.failed?_eq_none hreport
  have hsettled (output) (houtput : output ∈ (Catalogue.after operations).outputs.values) :
      Settled runner later output :=
    (hpass.settled hruns hoverwrite (Catalogue.output_commandFor _ _) hfailed output houtput).mono
      (hafter.world_eq ▸ hkeeps)
  rw [hpass'.eq_of_settled hagain hsettled] at hafter'
  exact ⟨hafter'.commands_eq, hafter'.report_eq⟩

end OneConversion

/-! ### Several conversions -/

/-- One conversion of several. -/
structure Attempt (World : Type) where
  /-- The settings. -/
  settings : Settings
  /-- The world in which the conversion starts. -/
  world : World

/-- What becomes of a catalogue in an attempt. -/
def Attempt.conversion (attempt : Attempt World) (catalogue : Catalogue) (runner : Runner World) :
    Conversion World :=
  catalogue.convert runner attempt.settings attempt.world

/-- Whether the later attempt finds all files that the earlier one left. -/
def Attempt.LeadsTo (catalogue : Catalogue) (runner : Runner World)
    (earlier later : Attempt World) : Prop :=
  ∀ path, runner.pathExists (earlier.conversion catalogue runner).world path = true →
    runner.pathExists later.world path = true

section SeveralConversions

variable {operations : List Catalogue.Operation} {runner : Runner World}
  {attempts : List (Attempt World)}

/-- Files are found by all later attempts, not only by the next one. -/
theorem pairwise_leadsTo (hruns : runner.Delivers)
    (hturn : attempts.IsChain (Attempt.LeadsTo (Catalogue.after operations) runner)) :
    attempts.Pairwise (Attempt.LeadsTo (Catalogue.after operations) runner) := by
  let _ : Trans (Attempt.LeadsTo (Catalogue.after operations) runner)
      (Attempt.LeadsTo (Catalogue.after operations) runner)
      (Attempt.LeadsTo (Catalogue.after operations) runner) :=
    ⟨fun hfirst hsecond path hpath ↦
      hsecond path (keeps_convert operations hruns _ _ (hfirst path hpath))⟩
  exact List.isChain_iff_pairwise.mp hturn

/-- A world can tell apart any two outputs that are converted in attempts one after the other. -/
theorem pairwise_flatMap_converted (hruns : runner.Delivers)
    (hoverwrite : ∀ attempt ∈ attempts, attempt.settings.overwriteExisting = false)
    (hturn : attempts.IsChain (Attempt.LeadsTo (Catalogue.after operations) runner)) :
    (attempts.flatMap fun attempt ↦
      (attempt.conversion (Catalogue.after operations) runner).converted).Pairwise
        runner.TellsApart := by
  refine List.pairwise_flatMap.mpr ⟨fun attempt hattempt ↦
    pairwise_converted operations hruns (hoverwrite attempt hattempt) attempt.world, ?_⟩
  refine (pairwise_leadsTo hruns hturn).imp_of_mem ?_
  intro earlier later _ hlater hleads path hpath other hother
  obtain ⟨command, hcommand, rfl⟩ := exists_command_of_mem_converted _ _ _ _ hother
  exact ⟨later.world, hleads path (exists_of_mem_converted operations hruns _ _ hpath),
    missing_of_mem_commands operations hruns (hoverwrite later hlater) _ command hcommand⟩

/-- Conversions one after the other, none of which may replace files and each of which finds all
files that the one before it left, render no output twice, also if it is written in two ways that
name the same file. They issue no command for an output that existed before the first of them. And
after one that did not fail, the later ones issue no command and report all outputs as skipped. -/
theorem rendered_once (operations : List Catalogue.Operation) (runner : Runner World)
    (hruns : runner.Delivers) (attempts : List (Attempt World))
    (hoverwrite : ∀ attempt ∈ attempts, attempt.settings.overwriteExisting = false)
    (hturn : attempts.IsChain (Attempt.LeadsTo (Catalogue.after operations) runner)) :
    let catalogue := Catalogue.after operations
    let converted := attempts.flatMap fun attempt ↦ (attempt.conversion catalogue runner).converted
    (converted.Nodup ∧
        ((∀ world (path other : Path), path.Same other →
            runner.pathExists world path = runner.pathExists world other) →
          converted.Pairwise fun path other ↦ ¬ path.Same other)) ∧
      (∀ first ∈ attempts.head?, ∀ attempt ∈ attempts,
        ∀ command ∈ (attempt.conversion catalogue runner).commands,
          runner.pathExists first.world command.output = false) ∧
      attempts.Pairwise fun earlier later ↦
        ∀ reported, (earlier.conversion catalogue runner).report = .ok reported →
          (later.conversion catalogue runner).commands = [] ∧
            (later.conversion catalogue runner).report =
              .ok ([], catalogue.outputs.values.map Output.path) := by
  intro catalogue converted
  have hapart : converted.Pairwise runner.TellsApart :=
    pairwise_flatMap_converted hruns hoverwrite hturn
  have hleads := pairwise_leadsTo hruns hturn
  refine ⟨⟨?_, fun hsame ↦ ?_⟩, ?_, ?_⟩
  · refine hapart.imp ?_
    rintro path _ ⟨world, hexists, hmissing⟩ rfl
    exact Bool.noConfusion (hexists.symm.trans hmissing)
  · refine hapart.imp ?_
    rintro path other ⟨world, hexists, hmissing⟩ hpath
    exact Bool.noConfusion (hexists.symm.trans ((hsame world path other hpath).trans hmissing))
  · intro first hfirst attempt hattempt command hcommand
    have hmissing := missing_of_mem_commands operations hruns (hoverwrite attempt hattempt) _
      command hcommand
    by_contra hexists
    obtain ⟨rest, rfl⟩ := List.head?_eq_some_iff.mp hfirst
    rcases List.mem_cons.mp hattempt with rfl | hlater
    · exact hexists hmissing
    · have hkept := keeps_convert operations hruns first.settings first.world
        (eq_true_of_ne_false hexists)
      exact Bool.noConfusion (((List.pairwise_cons.mp hleads).1 attempt hlater _ hkept).symm.trans
        hmissing)
  · refine hleads.imp_of_mem fun hearlier hlater hfinds reported hreport ↦ ?_
    exact convert_of_report_eq_ok hruns (hoverwrite _ hearlier) (hoverwrite _ hlater) hreport hfinds

/-- A runner whose commands fail without a trace or succeed as foretold, and succeed when nothing is
foretold. Its world is the list of files and what is foretold. -/
def foretold : Runner (List Path × List Bool) where
  pathExists world path := decide (path ∈ world.1)
  run world command :=
    match world.2 with
    | false :: outcomes =>
      { world := (world.1, outcomes)
        failure? := some (.processFailed command.program "exit status: 1" "") }
    | outcomes => { world := (command.output :: world.1, outcomes.tail) }

theorem delivers_foretold : foretold.Delivers where
  keeps world command path hpath := by
    obtain ⟨files, _ | ⟨_ | _, outcomes⟩⟩ := world <;> simp_all [foretold]
  makes world command hrun := by
    obtain ⟨files, _ | ⟨_ | _, outcomes⟩⟩ := world <;> simp_all [foretold]

/-- The attempt that starts in the world that an attempt left. -/
def Attempt.next (attempt : Attempt World) (catalogue : Catalogue) (runner : Runner World) :
    Attempt World :=
  { attempt with world := (attempt.conversion catalogue runner).world }

theorem leadsTo_next (catalogue : Catalogue) (runner : Runner World) (attempt : Attempt World) :
    Attempt.LeadsTo catalogue runner attempt (attempt.next catalogue runner) :=
  fun _ hpath ↦ hpath

/-- The first of three attempts, in which the second command fails. -/
def firstAttempt : Attempt (List Path × List Bool) := ⟨{}, ([⟨"old.mp4"⟩], [true, false])⟩

/-- The second of three attempts. -/
def secondAttempt : Attempt (List Path × List Bool) :=
  firstAttempt.next (Catalogue.after fiveOutputs) foretold

/-- The last of three attempts. -/
def thirdAttempt : Attempt (List Path × List Bool) :=
  secondAttempt.next (Catalogue.after fiveOutputs) foretold

/-- The first attempt renders one output and fails, the second renders what is left, and the third
finds everything done. -/
theorem rendered_once_sample :
    [firstAttempt, secondAttempt, thirdAttempt].flatMap (fun attempt ↦
        (attempt.conversion (Catalogue.after fiveOutputs) foretold).converted) =
      [⟨"day.mp4"⟩, ⟨"night.mp4"⟩] ∧
    (firstAttempt.conversion (Catalogue.after fiveOutputs) foretold).failure?.isSome ∧
    (thirdAttempt.conversion (Catalogue.after fiveOutputs) foretold).commands = [] ∧
    (thirdAttempt.conversion (Catalogue.after fiveOutputs) foretold).report =
      .ok ([], [⟨"old.mp4"⟩, ⟨"day.mp4"⟩, ⟨"empty.mp4"⟩, ⟨"night.mp4"⟩, ⟨"day.mp4"⟩]) := by
  have hturn : [firstAttempt, secondAttempt, thirdAttempt].IsChain
      (Attempt.LeadsTo (Catalogue.after fiveOutputs) foretold) :=
    .cons_cons (leadsTo_next _ _ firstAttempt)
      (.cons_cons (leadsTo_next _ _ secondAttempt) (.singleton _))
  have hoverwrite : ∀ attempt ∈ [firstAttempt, secondAttempt, thirdAttempt],
      attempt.settings.overwriteExisting = false := by
    simp [firstAttempt, secondAttempt, thirdAttempt, Attempt.next]
  obtain ⟨-, -, hdone⟩ := rendered_once fiveOutputs foretold delivers_foretold _ hoverwrite hturn
  have hlast := (List.pairwise_cons.mp (List.pairwise_cons.mp hdone).2).1 thirdAttempt
    (List.mem_singleton_self _)
  have hsecond : (secondAttempt.conversion (Catalogue.after fiveOutputs) foretold).failure? =
      none := by decide +kernel
  obtain ⟨hcommands, hreport⟩ := hlast _ (report_of_failure?_eq_none hsecond)
  have hpaths : (Catalogue.after fiveOutputs).outputs.values.map Output.path =
      [⟨"old.mp4"⟩, ⟨"day.mp4"⟩, ⟨"empty.mp4"⟩, ⟨"night.mp4"⟩, ⟨"day.mp4"⟩] := by decide +kernel
  rw [hpaths] at hreport
  exact ⟨by decide +kernel, by decide +kernel, hcommands, hreport⟩

end SeveralConversions

end Conversion

end Montage
