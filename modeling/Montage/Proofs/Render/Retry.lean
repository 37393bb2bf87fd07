import Montage.Proofs.Render.Rerun

/-!
# Converting after a failure

A conversion that fails stops at an output whose command failed. Everything before this output is
settled (`Pass.exists_of_failed`), so the next conversion comes to it before it runs anything.
Whether it is rendered then is decided by its file alone: the command is issued again if the failing
command left no file there, and otherwise the output counts as rendered, however little of it there
is (`retried_or_skipped`, `skipped_after_failure`).
-/

set_option autoImplicit false
set_option relaxedAutoImplicit false

namespace Montage.Conversion

open Media Registry

section Retry

variable {World : Type} {runner : Runner World} {settings : Settings} {world : World}
  {commandOf : Output → Command} {outputs rest : List Output} {trace : Trace World}
  {output : Output} {failure : Failure}

/-- Where a pass failed: at an output with blocks, after outputs that are settled. The world it left
is the one that the failing command left. -/
theorem Pass.exists_of_failed (hpass : Pass runner settings commandOf world outputs trace)
    (hruns : runner.Delivers) (hoverwrite : settings.overwriteExisting = false)
    (hcommand : ∀ output, (commandOf output).output = output.path)
    (hfailed : trace.failed? = some (output, failure)) :
    ∃ before rest, outputs = before ++ output :: rest ∧
      (∀ earlier ∈ before, Settled runner trace.world earlier) ∧ output.blocks ≠ [] ∧
      ∃ reached, (runner.run reached (commandOf output)).failure? = some failure ∧
        (runner.run reached (commandOf output)).world = trace.world := by
  induction hpass with
  | done world => cases hfailed
  | @skip world earlier _ _ hdue hrest ih =>
    obtain ⟨before, rest, rfl, hbefore, hwhere⟩ := ih hfailed
    have hskipped := hrest.settled_of_not_due hruns hoverwrite hdue
    exact ⟨earlier :: before, rest, rfl, List.forall_mem_cons.mpr ⟨hskipped, hbefore⟩, hwhere⟩
  | @render world earlier _ _ _ hrun hrest ih =>
    obtain ⟨before, rest, rfl, hbefore, hwhere⟩ := ih hfailed
    have hmade := hrest.exists_of_run hruns hcommand hrun
    exact ⟨earlier :: before, rest, rfl, List.forall_mem_cons.mpr ⟨Or.inr hmade, hbefore⟩, hwhere⟩
  | @fail world _ rest _ hdue hrun =>
    cases hfailed
    exact ⟨[], rest, rfl, by simp, hdue.1, world, hrun, rfl⟩

/-- The command of an output with blocks is the first that is issued if its file is not there and
everything before it is settled. -/
theorem Pass.head?_issued {before : List Output}
    (hpass : Pass runner settings commandOf world (before ++ output :: rest) trace)
    (hoverwrite : settings.overwriteExisting = false)
    (hsettled : ∀ earlier ∈ before, Settled runner world earlier) (hblocks : output.blocks ≠ [])
    (hmissing : runner.pathExists world output.path = false) :
    trace.issued.head? = some output := by
  obtain ⟨onward, honward, rfl⟩ := hpass.skip_settled hoverwrite hsettled
  cases honward with
  | skip hdue _ => exact absurd ⟨hblocks, Or.inr hmissing⟩ hdue
  | render _ _ _ => rfl
  | fail _ _ => rfl

/-- An output whose file is there is skipped if everything before it is settled. -/
theorem Pass.mem_skipped {before : List Output}
    (hpass : Pass runner settings commandOf world (before ++ output :: rest) trace)
    (hoverwrite : settings.overwriteExisting = false)
    (hsettled : ∀ earlier ∈ before, Settled runner world earlier)
    (hexists : runner.pathExists world output.path = true) : output ∈ trace.skipped := by
  obtain ⟨onward, honward, rfl⟩ := hpass.skip_settled hoverwrite hsettled
  have hdue := (not_due_iff_settled hoverwrite).mpr (Or.inr hexists)
  refine List.mem_append_right before ?_
  cases honward with
  | skip _ _ => exact List.mem_cons_self
  | render hnow _ _ => exact absurd hnow hdue
  | fail hnow _ => exact absurd hnow hdue

/-- After a conversion that returned a failure, a conversion that finds its files either begins with
the command that failed or skips its output. It begins with the command if the output is not there,
and skips the output if it is there, without a command for it. -/
theorem retried_or_skipped (operations : List Catalogue.Operation) (runner : Runner World)
    (hruns : runner.Delivers) (settings : Settings)
    (hoverwrite : settings.overwriteExisting = false) (world later : World) (failure : Failure)
    (hreport : ((Catalogue.after operations).convert runner settings world).report =
      .error failure)
    (hkeeps : ∀ path, runner.pathExists
      ((Catalogue.after operations).convert runner settings world).world path = true →
        runner.pathExists later path = true) :
    let first := (Catalogue.after operations).convert runner settings world
    let second := (Catalogue.after operations).convert runner settings later
    ∃ issued command, first.commands = issued ++ [command] ∧
      (∃ reached, (runner.run reached command).failure? = some failure ∧
        (runner.run reached command).world = first.world) ∧
      (runner.pathExists later command.output = false →
        second.commands.head? = some command) ∧
      (runner.pathExists later command.output = true →
        command.output ∈ second.skipped ∧
          ∀ again ∈ second.commands, again.output ≠ command.output) := by
  intro first second
  obtain ⟨trace, hpass, hafter⟩ := exists_pass_convert operations runner settings world
  obtain ⟨trace', hpass', hafter'⟩ := exists_pass_convert operations runner settings later
  obtain ⟨output, hfailed⟩ := hafter.exists_failed hreport
  obtain ⟨before, rest, houtputs, hbefore, hblocks, hreached⟩ :=
    hpass.exists_of_failed hruns hoverwrite (Catalogue.output_commandFor _ _) hfailed
  have hsettled : ∀ earlier ∈ before, Settled runner later earlier := fun earlier hearlier ↦
    (hbefore earlier hearlier).mono (hafter.world_eq ▸ hkeeps)
  rw [houtputs] at hpass'
  refine ⟨trace.rendered.map ((Catalogue.after operations).commandFor settings),
    (Catalogue.after operations).commandFor settings output, ?_, ?_, fun hmissing ↦ ?_,
    fun hexists ↦ ⟨?_, fun again hagain hsame ↦ ?_⟩⟩
  · rw [hafter.commands_eq, Trace.issued, hfailed]
    simp
  · rwa [hafter.world_eq]
  · rw [hafter'.commands_eq, List.nil_append, List.head?_map,
      hpass'.head?_issued hoverwrite hsettled hblocks hmissing]
    rfl
  · rw [hafter'.skipped_eq, List.nil_append]
    exact List.mem_map_of_mem (hpass'.mem_skipped hoverwrite hsettled hexists)
  · have hmissing := missing_of_mem_commands operations hruns hoverwrite later again hagain
    exact Bool.noConfusion (hexists.symm.trans (hsame ▸ hmissing))

/-- The command that failed without a trace is the first that is issued again. -/
theorem retried_or_skipped_sample :
    let first := (Catalogue.after fiveOutputs).convert foretold {} ([⟨"old.mp4"⟩], [true, false])
    let second := (Catalogue.after fiveOutputs).convert foretold {} first.world
    ∃ command, first.commands.getLast? = some command ∧ command.output = ⟨"night.mp4"⟩ ∧
      second.commands.head? = some command := by
  dsimp only
  have hreport : ((Catalogue.after fiveOutputs).convert foretold {}
      ([⟨"old.mp4"⟩], [true, false])).report =
      .error (.processFailed "ffmpeg" "exit status: 1" "") := by decide +kernel
  obtain ⟨issued, command, hcommands, -, hmissing, -⟩ := retried_or_skipped fiveOutputs foretold
    delivers_foretold {} rfl _ _ _ hreport fun _ hpath ↦ hpath
  have houtput : ((Catalogue.after fiveOutputs).convert foretold {}
      ([⟨"old.mp4"⟩], [true, false])).commands.getLast?.map Command.output =
      some ⟨"night.mp4"⟩ := by decide +kernel
  rw [hcommands, List.getLast?_concat] at houtput ⊢
  have hpath : command.output = ⟨"night.mp4"⟩ := Option.some.inj houtput
  refine ⟨command, rfl, hpath, hmissing ?_⟩
  rw [hpath]
  decide +kernel

/-- A runner whose commands fail and leave what they have made so far. Its world is the list of
files. -/
def leavingParts : Runner (List Path) where
  pathExists files path := decide (path ∈ files)
  run files command :=
    { world := command.output :: files
      failure? := some (.processFailed command.program "exit status: 1" "") }

/-- The output whose command fails in a first conversion is skipped in a second one as if it had
been rendered, and the second one goes on with another output. -/
theorem skipped_after_failure :
    let first := (Catalogue.after fiveOutputs).convert leavingParts {} [⟨"old.mp4"⟩]
    let second := (Catalogue.after fiveOutputs).convert leavingParts {} first.world
    first.report = .error (.processFailed "ffmpeg" "exit status: 1" "") ∧
      first.commands.map Command.output = [⟨"day.mp4"⟩] ∧
      second.commands.map Command.output = [⟨"night.mp4"⟩] ∧
      second.skipped = [⟨"old.mp4"⟩, ⟨"day.mp4"⟩, ⟨"empty.mp4"⟩] := by
  decide +kernel

end Retry

end Montage.Conversion
