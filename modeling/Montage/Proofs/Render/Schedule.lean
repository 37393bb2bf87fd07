import Montage.Proofs.Render.Pass

/-!
# The schedule of a conversion

While no command changes which files there are (`Runner.KeepsFiles`), an output is due during a
conversion exactly if it is due before it. The outputs that are due then and their order are the
schedule. A pass issues the commands of the schedule up to and including the first that fails
(`Pass.schedule`). So a conversion either renders the whole schedule and skips all other outputs, or
returns the failure of the first command that fails (`schedule_convert`).
-/

set_option autoImplicit false
set_option relaxedAutoImplicit false

namespace Montage

open Media Registry

namespace Runner

variable {World : Type}

/-- The world after commands were run one after the other. -/
def worldAfter (runner : Runner World) (world : World) (commands : List Command) : World :=
  commands.foldl (fun world command ↦ (runner.run world command).world) world

/-- Why the command at a place fails, if it does, when commands are run one after the other. -/
def failureAt? (runner : Runner World) (world : World) (commands : List Command) (place : Nat) :
    Option Failure :=
  (commands[place]?).bind fun command ↦
    (runner.run (runner.worldAfter world (commands.take place)) command).failure?

/-- Whether there are the same files from a world on, whatever commands are run. -/
def KeepsFiles (runner : Runner World) (world : World) : Prop :=
  ∀ commands path, runner.pathExists (runner.worldAfter world commands) path =
    runner.pathExists world path

variable {runner : Runner World} {world : World}

@[simp]
theorem failureAt?_nil (runner : Runner World) (world : World) (place : Nat) :
    runner.failureAt? world [] place = none := rfl

@[simp]
theorem failureAt?_cons_zero (runner : Runner World) (world : World) (command : Command)
    (commands : List Command) :
    runner.failureAt? world (command :: commands) 0 = (runner.run world command).failure? := rfl

@[simp]
theorem failureAt?_cons_succ (runner : Runner World) (world : World) (command : Command)
    (commands : List Command) (place : Nat) :
    runner.failureAt? world (command :: commands) (place + 1) =
      runner.failureAt? (runner.run world command).world commands place := rfl

theorem KeepsFiles.pathExists_run (h : runner.KeepsFiles world) (command : Command) (path : Path) :
    runner.pathExists (runner.run world command).world path = runner.pathExists world path :=
  h [command] path

/-- Files that are kept from a world on are kept from the world after a command on. -/
theorem KeepsFiles.run (h : runner.KeepsFiles world) (command : Command) :
    runner.KeepsFiles (runner.run world command).world := fun commands path ↦
  (h (command :: commands) path).trans (h.pathExists_run command path).symm

end Runner

namespace Conversion

variable {World : Type} {runner : Runner World} {settings : Settings} {world : World}
  {commandOf : Output → Command} {outputs : List Output} {trace : Trace World}

/-- What is due stays due after a command that keeps the files. -/
theorem due_run_iff (hfiles : runner.KeepsFiles world) (command : Command) (output : Output) :
    Due runner settings (runner.run world command).world output ↔
      Due runner settings world output := by
  rw [Due, Due, hfiles.pathExists_run]

/-- A pass through unchanged files issues the commands of all outputs that are due, in order, or
those up to the first that fails. -/
theorem Pass.schedule (hpass : Pass runner settings commandOf world outputs trace)
    (hfiles : runner.KeepsFiles world) :
    (trace.failed? = none ∧
        (∀ place, runner.failureAt? world
          ((outputs.filter (Due runner settings world)).map commandOf) place = none) ∧
        trace.rendered = outputs.filter (Due runner settings world) ∧
        trace.skipped = outputs.filter (¬ Due runner settings world ·)) ∨
      ∃ place output failure, trace.failed? = some (output, failure) ∧
        runner.failureAt? world
          ((outputs.filter (Due runner settings world)).map commandOf) place = some failure ∧
        (∀ earlier < place, runner.failureAt? world
          ((outputs.filter (Due runner settings world)).map commandOf) earlier = none) ∧
        trace.issued = (outputs.filter (Due runner settings world)).take (place + 1) := by
  induction hpass with
  | done world => exact Or.inl ⟨rfl, Runner.failureAt?_nil runner world, rfl, rfl⟩
  | @skip world output rest trace hdue _ ih =>
    rw [List.filter_cons_of_neg (by simpa using hdue),
      List.filter_cons_of_pos (by simpa using hdue)]
    rcases ih hfiles with ⟨hfailed, hplaces, hrendered, hskipped⟩ | hstops
    · exact Or.inl ⟨hfailed, hplaces, hrendered, congrArg (output :: ·) hskipped⟩
    · exact Or.inr hstops
  | @render world output rest trace hdue hrun _ ih =>
    -- The rest of the schedule is the same in the world after the command.
    have hsame : Due runner settings (runner.run world (commandOf output)).world =
        Due runner settings world :=
      funext fun other ↦ propext (due_run_iff hfiles _ other)
    have hrest := ih (hfiles.run (commandOf output))
    simp only [hsame] at hrest
    rw [List.filter_cons_of_pos (by simpa using hdue),
      List.filter_cons_of_neg (by simpa using hdue), List.map_cons]
    rcases hrest with ⟨hfailed, hplaces, hrendered, hskipped⟩ |
      ⟨place, failing, failure, hfailed, hplace, hearlier, hissued⟩
    · refine Or.inl ⟨hfailed, fun place ↦ ?_, congrArg (output :: ·) hrendered, hskipped⟩
      cases place with
      | zero => rw [Runner.failureAt?_cons_zero, hrun]
      | succ place => rw [Runner.failureAt?_cons_succ, hplaces]
    · refine Or.inr ⟨place + 1, failing, failure, hfailed, ?_, fun earlier hlt ↦ ?_,
        congrArg (output :: ·) hissued⟩
      · rw [Runner.failureAt?_cons_succ, hplace]
      · cases earlier with
        | zero => rw [Runner.failureAt?_cons_zero, hrun]
        | succ earlier =>
          rw [Runner.failureAt?_cons_succ, hearlier earlier (Nat.lt_of_succ_lt_succ hlt)]
  | @fail world output rest failure hdue hrun =>
    rw [List.filter_cons_of_pos (by simpa using hdue), List.map_cons]
    exact Or.inr ⟨0, output, failure, rfl, hrun, fun earlier hlt ↦ absurd hlt (Nat.not_lt_zero _),
      rfl⟩

/-- A conversion through unchanged files issues one command for every output that is due, namely
what the output is compiled to, in the order of registration and up to the first that fails. If none
fails, the outputs that were due are converted and all others are skipped; if one fails, its failure
is returned. There is no other failure. -/
theorem schedule_convert (operations : List Catalogue.Operation) (runner : Runner World)
    (settings : Settings) (world : World) (hfiles : runner.KeepsFiles world) :
    let catalogue := Catalogue.after operations
    let conversion := catalogue.convert runner settings world
    let due := catalogue.outputs.values.filter (Due runner settings world)
    ∃ commands, due.map (fun output ↦ catalogue.compile settings output.key) =
        commands.map Except.ok ∧
      (((∀ place, runner.failureAt? world commands place = none) ∧
          conversion.commands = commands ∧
          conversion.report = .ok (due.map Output.path,
            (catalogue.outputs.values.filter (¬ Due runner settings world ·)).map Output.path)) ∨
        ∃ place failure, runner.failureAt? world commands place = some failure ∧
          (∀ earlier < place, runner.failureAt? world commands earlier = none) ∧
          conversion.commands = commands.take (place + 1) ∧
          conversion.report = .error failure) := by
  intro catalogue conversion due
  obtain ⟨trace, hpass, hafter⟩ := exists_pass_convert operations runner settings world
  refine ⟨due.map (catalogue.commandFor settings), ?_, ?_⟩
  · rw [List.map_map]
    refine List.map_congr_left fun output houtput ↦ ?_
    obtain ⟨hmem, hdue⟩ := List.mem_filter.mp houtput
    exact Catalogue.compile_of_mem operations settings hmem (of_decide_eq_true hdue).1
  · rcases hpass.schedule hfiles with ⟨hfailed, hplaces, hrendered, hskipped⟩ |
      ⟨place, failing, failure, hfailed, hplace, hearlier, hissued⟩
    · refine Or.inl ⟨hplaces, ?_, ?_⟩
      · rw [hafter.commands_eq, Trace.issued, hfailed, hrendered]
        simp [due, catalogue]
      · rw [hafter.report_eq, hfailed, hrendered, hskipped]
    · refine Or.inr ⟨place, failure, hplace, hearlier, ?_, ?_⟩
      · rw [hafter.commands_eq, hissued, List.map_take]
        rfl
      · rw [hafter.report_eq, hfailed]

/-- A runner in whose world there is one file and the second command fails. Its world is the number
of commands that were run. -/
def failingSecond : Runner Nat where
  pathExists _ path := decide (path = ⟨"old.mp4"⟩)
  run count _ :=
    { world := count + 1
      failure? := if count = 1 then some (.processFailed "ffmpeg" "exit status: 1" "") else none }

/-- Of three outputs that are due, the second is the last whose command is issued. -/
theorem schedule_convert_sample :
    failingSecond.KeepsFiles 0 ∧
      ∃ commands : List Command,
        List.map ((Catalogue.after fiveOutputs).compile {}) [⟨"AB"⟩, ⟨"AD"⟩, ⟨"AE"⟩] =
          commands.map Except.ok ∧
        ((Catalogue.after fiveOutputs).convert failingSecond {} 0).commands = commands.take 2 ∧
        ((Catalogue.after fiveOutputs).convert failingSecond {} 0).report =
          .error (.processFailed "ffmpeg" "exit status: 1" "") := by
  have hfiles : failingSecond.KeepsFiles 0 := fun _ _ ↦ rfl
  obtain ⟨commands, hcommands, hoccurs⟩ := schedule_convert fiveOutputs failingSecond {} 0 hfiles
  have hdue : ((Catalogue.after fiveOutputs).outputs.values.filter
      (Due failingSecond {} 0)).map Output.key = [⟨"AB"⟩, ⟨"AD"⟩, ⟨"AE"⟩] := by decide +kernel
  have hkeys : List.map ((Catalogue.after fiveOutputs).compile {}) [⟨"AB"⟩, ⟨"AD"⟩, ⟨"AE"⟩] =
      commands.map Except.ok := by
    rw [← hdue, List.map_map, Function.comp_def]
    exact hcommands
  refine ⟨hfiles, commands, hkeys, ?_⟩
  obtain ⟨first, second, third, rfl⟩ : ∃ first second third, commands = [first, second, third] :=
    List.length_eq_three.mp (by simpa using (congrArg List.length hkeys).symm)
  have hsecond : failingSecond.failureAt? 0 [first, second, third] 1 =
      some (.processFailed "ffmpeg" "exit status: 1" "") := rfl
  rcases hoccurs with ⟨hplaces, -⟩ | ⟨place, failure, hplace, hearlier, hissued, hreport⟩
  · cases hsecond.symm.trans (hplaces 1)
  · obtain rfl : place = 1 := by
      rcases Nat.lt_trichotomy place 1 with hlt | heq | hgt
      · obtain rfl := Nat.lt_one_iff.mp hlt
        cases hplace
      · exact heq
      · cases hsecond.symm.trans (hearlier 1 hgt)
    cases hsecond.symm.trans hplace
    exact ⟨hissued, hreport⟩

end Conversion

end Montage
