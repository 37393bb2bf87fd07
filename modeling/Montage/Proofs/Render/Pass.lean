import Montage.Proofs.Graph.FlatCommand
import Montage.Proofs.Media.Consistency
import Montage.Render.Conversion

/-!
# Passes over outputs

A conversion goes through the outputs of a catalogue once. It comes to each of them in the world
that the commands before have left, and there the output is due or not (`Due`): an output that is
not due is skipped, and the command of one that is due is run and ends the pass if it fails. What a
pass does is told by its trace, and `Pass` says which trace a pass over given outputs has.

An output with blocks always has a command (`compile_of_mem`), so nothing but a command can fail.
Hence one step of a conversion skips or renders (`step_of_not_due`, `step_of_due`), its steps make
up a pass (`exists_pass_steps`), and what a conversion leaves and returns can be read off the trace
(`exists_pass_convert`).
-/

set_option autoImplicit false
set_option relaxedAutoImplicit false

namespace Montage

open Media Registry

/-! ### Commands of outputs -/

namespace Media.Catalogue

/-- The command that renders an output with blocks. -/
def commandFor (catalogue : Catalogue) (settings : Settings) (output : Output) : Command :=
  Graph.flatCommand settings output
    ((Graph.inputOrder output.blocks).map (Graph.pathOf catalogue.inputs))

@[simp]
theorem output_commandFor (catalogue : Catalogue) (settings : Settings) (output : Output) :
    (catalogue.commandFor settings output).output = output.path := rfl

/-- An output of a catalogue with a history is found under its own key. -/
theorem get?_key_of_mem (operations : List Operation) {output : Output}
    (houtput : output ∈ (after operations).outputs.values) :
    (after operations).outputs.get? output.key = some output := by
  rw [← map_snd_entries] at houtput
  obtain ⟨entry, hentry, rfl⟩ := List.mem_map.mp houtput
  rw [(labelled_after operations).outputs entry hentry]
  exact (consistent_after operations).outputs_inStep.get?_eq_some_iff.mpr hentry

/-- An output with blocks is compiled to its command. -/
theorem compile_of_mem (operations : List Operation) (settings : Settings) {output : Output}
    (houtput : output ∈ (after operations).outputs.values) (hblocks : output.blocks ≠ []) :
    (after operations).compile settings output.key =
      .ok ((after operations).commandFor settings output) := by
  rw [compile, get?_key_of_mem operations houtput]
  exact Graph.compileOutput_eq_flatCommand hblocks (wired_after operations output houtput) settings

end Media.Catalogue

namespace Conversion

variable {World : Type}

/-! ### Traces -/

/-- Whether an output is rendered when a conversion comes to it: it has blocks, and its file is not
there or may be replaced. -/
def Due (runner : Runner World) (settings : Settings) (world : World) (output : Output) : Prop :=
  output.blocks ≠ [] ∧
    (settings.overwriteExisting = true ∨ runner.pathExists world output.path = false)

instance (runner : Runner World) (settings : Settings) (world : World) :
    DecidablePred (Due runner settings world) :=
  fun _ ↦ inferInstanceAs (Decidable (_ ∧ _))

/-- What a pass over outputs does. -/
structure Trace (World : Type) where
  /-- The world after the pass. -/
  world : World
  /-- The outputs that were rendered, in order. -/
  rendered : List Output := []
  /-- The outputs that were skipped, in order. -/
  skipped : List Output := []
  /-- The output whose command failed, and why, if one did. -/
  failed? : Option (Output × Failure) := none

/-- The outputs whose commands were run, in order. -/
def Trace.issued (trace : Trace World) : List Output :=
  trace.rendered ++ (trace.failed?.map (·.1)).toList

/-- A pass over outputs from a world on, with its trace. -/
inductive Pass (runner : Runner World) (settings : Settings) (commandOf : Output → Command) :
    World → List Output → Trace World → Prop
  /-- No outputs are left. -/
  | done (world : World) : Pass runner settings commandOf world [] { world }
  /-- An output is not due, and the pass goes on. -/
  | skip {world : World} {output : Output} {rest : List Output} {trace : Trace World} :
      ¬ Due runner settings world output → Pass runner settings commandOf world rest trace →
      Pass runner settings commandOf world (output :: rest)
        { trace with skipped := output :: trace.skipped }
  /-- An output is due and rendered, and the pass goes on in the world that its command leaves. -/
  | render {world : World} {output : Output} {rest : List Output} {trace : Trace World} :
      Due runner settings world output →
      (runner.run world (commandOf output)).failure? = none →
      Pass runner settings commandOf (runner.run world (commandOf output)).world rest trace →
      Pass runner settings commandOf world (output :: rest)
        { trace with rendered := output :: trace.rendered }
  /-- An output is due and its command fails, which ends the pass. -/
  | fail {world : World} {output : Output} {rest : List Output} {failure : Failure} :
      Due runner settings world output →
      (runner.run world (commandOf output)).failure? = some failure →
      Pass runner settings commandOf world (output :: rest)
        { world := (runner.run world (commandOf output)).world, failed? := some (output, failure) }

/-! ### Steps of a conversion -/

variable {runner : Runner World} {settings : Settings} {catalogue : Catalogue}
  {conversion : Conversion World} {output : Output} {outputs : List Output}

/-- An output that is not due is skipped, with one entry or another. -/
theorem step_of_not_due (catalogue : Catalogue)
    (hdue : ¬ Due runner settings conversion.world output) :
    ∃ entry, conversion.step runner settings catalogue output = conversion.skip output entry := by
  unfold step
  split_ifs with hexists hblocks
  · exact ⟨_, rfl⟩
  · exact ⟨_, rfl⟩
  · refine absurd ⟨hblocks, ?_⟩ hdue
    cases hoverwrite : settings.overwriteExisting <;> simp_all

/-- An output that is due is rendered by its command. -/
theorem step_of_due (hdue : Due runner settings conversion.world output)
    (hinputs : ∀ block ∈ output.blocks, catalogue.inputs.contains block.input) :
    conversion.step runner settings catalogue output =
      conversion.render runner output (catalogue.commandFor settings output) := by
  obtain ⟨hblocks, hfile⟩ := hdue
  have hexists : ¬ (!settings.overwriteExisting &&
      runner.pathExists conversion.world output.path) = true := by
    rcases hfile with hoverwrite | hmissing
    · simp [hoverwrite]
    · simp [hmissing]
  have hcompile := Graph.compileOutput_eq_flatCommand hblocks hinputs settings
  rw [step, if_neg hexists, if_neg hblocks, hcompile]
  rfl

/-! ### Whole conversions -/

/-- The second conversion is the first one after a pass with the given trace. -/
structure Continues (commandOf : Output → Command) (before : Conversion World)
    (trace : Trace World) (after : Conversion World) : Prop where
  world_eq : after.world = trace.world
  commands_eq : after.commands = before.commands ++ trace.issued.map commandOf
  converted_eq : after.converted = before.converted ++ trace.rendered.map Output.path
  skipped_eq : after.skipped = before.skipped ++ trace.skipped.map Output.path
  failure?_eq : after.failure? = trace.failed?.map (·.2)

/-- What a conversion returns: the outputs that were rendered and those that were skipped, or why it
failed. -/
def report (conversion : Conversion World) : Except Failure (List Path × List Path) :=
  match conversion.failure? with
  | some failure => .error failure
  | none => .ok (conversion.converted, conversion.skipped)

theorem continues_refl (commandOf : Output → Command) (hgoing : conversion.failure? = none) :
    Continues commandOf conversion { world := conversion.world } conversion := by
  constructor <;> simp [Trace.issued, hgoing]

/-- A skipped output comes first in the trace. -/
theorem Continues.of_skip {commandOf : Output → Command} {entry : LogEntry} {trace : Trace World}
    {after : Conversion World}
    (h : Continues commandOf (conversion.skip output entry) trace after) :
    Continues commandOf conversion { trace with skipped := output :: trace.skipped } after where
  world_eq := h.world_eq
  commands_eq := h.commands_eq
  converted_eq := h.converted_eq
  skipped_eq := by rw [h.skipped_eq, skip, List.map_cons, List.append_assoc, List.singleton_append]
  failure?_eq := h.failure?_eq

/-- A rendered output comes first in the trace. -/
theorem Continues.of_render {commandOf : Output → Command} {trace : Trace World}
    {after : Conversion World}
    (hrun : (runner.run conversion.world (commandOf output)).failure? = none)
    (h : Continues commandOf (conversion.render runner output (commandOf output)) trace after) :
    Continues commandOf conversion { trace with rendered := output :: trace.rendered } after where
  world_eq := h.world_eq
  commands_eq := by
    rw [h.commands_eq, render, List.append_assoc]
    rfl
  converted_eq := by
    rw [h.converted_eq, render, hrun, List.map_cons, List.append_assoc, List.singleton_append]
  skipped_eq := h.skipped_eq
  failure?_eq := h.failure?_eq

/-- An output whose command fails is all of the trace. -/
theorem continues_render {commandOf : Output → Command} {failure : Failure}
    (hrun : (runner.run conversion.world (commandOf output)).failure? = some failure) :
    Continues commandOf conversion
      { world := (runner.run conversion.world (commandOf output)).world
        failed? := some (output, failure) }
      (conversion.render runner output (commandOf output)) := by
  constructor <;> simp [render, hrun, Trace.issued]

/-- A step that does not fail is followed by the other steps, and one that fails is the last. -/
theorem steps_cons (conversion : Conversion World) (output : Output) (outputs : List Output) :
    conversion.steps runner settings catalogue (output :: outputs) =
      if (conversion.step runner settings catalogue output).failure?.isSome then
        conversion.step runner settings catalogue output
      else (conversion.step runner settings catalogue output).steps runner settings catalogue
        outputs := rfl

theorem report_of_failure?_eq_none (h : conversion.failure? = none) :
    conversion.report = .ok (conversion.converted, conversion.skipped) := by
  rw [report, h]

/-- The steps of a conversion that has not failed make up a pass. -/
theorem exists_pass_steps (conversion : Conversion World)
    (hinputs : ∀ output ∈ outputs, ∀ block ∈ output.blocks, catalogue.inputs.contains block.input)
    (hgoing : conversion.failure? = none) :
    ∃ trace, Pass runner settings (catalogue.commandFor settings) conversion.world outputs trace ∧
      Continues (catalogue.commandFor settings) conversion trace
        (conversion.steps runner settings catalogue outputs) := by
  induction outputs generalizing conversion with
  | nil => exact ⟨_, .done conversion.world, continues_refl _ hgoing⟩
  | cons output outputs ih =>
    have hrest := fun other hother ↦ hinputs other (List.mem_cons_of_mem output hother)
    rw [steps_cons]
    by_cases hdue : Due runner settings conversion.world output
    · rw [step_of_due hdue (hinputs output List.mem_cons_self)]
      cases hrun : (runner.run conversion.world
          (catalogue.commandFor settings output)).failure? with
      | some failure =>
        rw [if_pos (by rw [render, hrun, Option.isSome_some])]
        exact ⟨_, .fail hdue hrun, continues_render hrun⟩
      | none =>
        rw [if_neg (by rw [render, hrun, Option.isSome_none]; exact Bool.false_ne_true)]
        obtain ⟨trace, hpass, hafter⟩ := ih (conversion.render runner output
          (catalogue.commandFor settings output)) hrest hrun
        exact ⟨_, .render hdue hrun hpass, hafter.of_render hrun⟩
    · obtain ⟨entry, hstep⟩ := step_of_not_due catalogue hdue
      rw [hstep, if_neg (by rw [skip, hgoing, Option.isSome_none]; exact Bool.false_ne_true)]
      obtain ⟨trace, hpass, hafter⟩ := ih (conversion.skip output entry) hrest hgoing
      exact ⟨_, .skip hdue hpass, hafter.of_skip⟩

/-- The second conversion did what the trace says, and nothing else. -/
theorem Continues.report_eq {commandOf : Output → Command} {world : World} {trace : Trace World}
    {after : Conversion World} (h : Continues commandOf { world } trace after) :
    after.report = match trace.failed? with
      | some (_, failure) => .error failure
      | none => .ok (trace.rendered.map Output.path, trace.skipped.map Output.path) := by
  rw [report, h.failure?_eq]
  cases hfailed : trace.failed? with
  | some failed => rfl
  | none => simp [h.converted_eq, h.skipped_eq]

/-- A conversion that returned a failure is one whose trace ends with it. -/
theorem Continues.exists_failed {commandOf : Output → Command} {world : World}
    {trace : Trace World} {after : Conversion World} {failure : Failure}
    (h : Continues commandOf { world } trace after) (hreport : after.report = .error failure) :
    ∃ output, trace.failed? = some (output, failure) := by
  rw [h.report_eq] at hreport
  cases hfailed : trace.failed? with
  | some failed =>
    rw [hfailed] at hreport
    cases hreport
    exact ⟨failed.1, rfl⟩
  | none =>
    rw [hfailed] at hreport
    cases hreport

/-- In the trace of a conversion that returned a report, no command failed. -/
theorem Continues.failed?_eq_none {commandOf : Output → Command} {world : World}
    {trace : Trace World} {after : Conversion World} {reported : List Path × List Path}
    (h : Continues commandOf { world } trace after) (hreport : after.report = .ok reported) :
    trace.failed? = none := by
  rw [h.report_eq] at hreport
  cases hfailed : trace.failed? with
  | some failed =>
    rw [hfailed] at hreport
    cases hreport
  | none => rfl

/-- Converting a catalogue with a history is one pass over its outputs. -/
theorem exists_pass_convert (operations : List Catalogue.Operation) (runner : Runner World)
    (settings : Settings) (world : World) :
    ∃ trace, Pass runner settings ((Catalogue.after operations).commandFor settings) world
        (Catalogue.after operations).outputs.values trace ∧
      Continues ((Catalogue.after operations).commandFor settings) { world } trace
        ((Catalogue.after operations).convert runner settings world) :=
  exists_pass_steps { world } (Catalogue.wired_after operations) rfl

/-- A history of five outputs: two are the same file, and one has no blocks. -/
def fiveOutputs : List Catalogue.Operation :=
  let block : Block := ⟨⟨"AA"⟩, .zero false, .ofNat 10, .one, []⟩
  [.addInput ⟨"clip.mp4"⟩, .addOutput ⟨"old.mp4"⟩, .addOutput ⟨"day.mp4"⟩,
    .addOutput ⟨"empty.mp4"⟩, .addOutput ⟨"night.mp4"⟩, .addOutput ⟨"day.mp4"⟩,
    .addBlock ⟨"AA"⟩ block, .addBlock ⟨"AB"⟩ block, .addBlock ⟨"AD"⟩ block,
    .addBlock ⟨"AE"⟩ block]

end Conversion

end Montage
