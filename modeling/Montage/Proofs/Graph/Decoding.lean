import Montage.Proofs.Graph.LegTexts
import Montage.Proofs.Media.Consistency

/-!
# Commands that can be told apart

Nothing is lost when an output is compiled: outputs of one catalogue whose commands have the same
words have the same file and the same blocks (`blocks_eq_of_words_eq`). The words settle the files
of the inputs, the text and the file of the output (`flatCommand_inj`). The text is taken apart at
the semicolons, and the legs between them settle the blocks up to the numbers of their inputs
(`content_eq_of_flatText_eq`, `eq_of_content_eq`). The files of the inputs settle what the numbers
stand for, since a catalogue registers no file twice (`inputOrder_eq_of_files_eq`).

Scope. Paths are Unicode texts. Of a path that is none, a word shows replacement characters in place
of what it cannot show, so two such files could not be told apart by their words.
-/

set_option autoImplicit false
set_option relaxedAutoImplicit false

namespace Montage.Graph

open Media Registry Numeric Text

variable {interpolate : Bool} {inputs : Registry Input} {order : List Key}
  {blocks more : List Block}

/-! ### The text -/

theorem map_eq_map_of_mapIdx_eq {α β γ : Type} {f : Nat → α → β} {g : α → γ} {items others : List α}
    (hinj : ∀ k, ∀ a ∈ items, ∀ b ∈ others, f k a = f k b → g a = g b)
    (h : items.mapIdx f = others.mapIdx f) : items.map g = others.map g := by
  refine List.ext_getElem? fun k ↦ ?_
  have hk := congrArg (·[k]?) h
  simp only [List.getElem?_mapIdx] at hk
  rw [List.getElem?_map, List.getElem?_map]
  cases ha : items[k]? with
  | none =>
    cases hb : others[k]? with
    | none => rfl
    | some b => simp [ha, hb] at hk
  | some a =>
    cases hb : others[k]? with
    | none => simp [ha, hb] at hk
    | some b =>
      simp only [ha, hb, Option.map_some, Option.some.injEq] at hk ⊢
      exact hinj k a (List.mem_of_getElem? ha) b (List.mem_of_getElem? hb) hk

/-- The end of the text: all streams are concatenated. -/
def rootText (count : Nat) : String :=
  String.join ((List.range (2 * count)).map fun k ↦ label (k + 1)) ++
    "concat=n=" ++ toString count ++ ":v=1:a=1" ++ label (2 * count + 1) ++ label (2 * count + 2)

theorem avoids_rootText (count : Nat) : Avoids [';'] (rootText count) := by
  have hlabels : Avoids [';']
      (String.join ((List.range (2 * count)).map fun k ↦ label (k + 1))) := by
    rw [← intercalate_empty]
    exact Avoids.intercalate (by decide) (List.forall_mem_map.mpr fun k _ ↦ avoids_label (k + 1))
  simp only [rootText, avoids_append, hlabels, avoids_label, avoids_semicolon, and_true]
  decide

/-- The texts of the legs that play blocks. -/
def legTexts (inputs : Registry Input) (interpolate : Bool) (blocks : List Block) : List String :=
  (legsOf inputs interpolate (inputOrder blocks) blocks).mapIdx fun k leg ↦ leg.body (k + 1)

/-- The text of blocks joins the texts of their legs and of the root. -/
theorem flatText_eq_intercalate (inputs : Registry Input) (interpolate : Bool)
    (blocks : List Block) :
    flatText interpolate blocks =
      ";".intercalate (legTexts inputs interpolate blocks ++ [rootText blocks.length]) := by
  have hterminated : (legTexts inputs interpolate blocks).map (· ++ ";") =
      (legsOf inputs interpolate (inputOrder blocks) blocks).mapIdx
        fun k leg ↦ leg.text (k + 1) := by
    refine List.ext_getElem? fun k ↦ ?_
    simp only [legTexts, List.getElem?_map, List.getElem?_mapIdx, Option.map_map]
    rfl
  rw [← join_terminated, hterminated, flatText, ← join_text_legsOf inputs]
  simp only [rootText, String.append_assoc]

/-- Neither the legs nor the root write a semicolon. -/
theorem notMem_legTexts (inputs : Registry Input) (interpolate : Bool) (blocks : List Block) :
    ∀ text ∈ legTexts inputs interpolate blocks ++ [rootText blocks.length],
      ';' ∉ text.toList := by
  intro text htext
  rcases List.mem_append.mp htext with htext | htext
  · obtain ⟨k, hk, rfl⟩ := List.mem_mapIdx.mp htext
    exact ((legible_of_mem_legsOf (List.getElem_mem hk)).avoids_body (k + 1)).notMem (by decide)
  · rw [List.mem_singleton.mp htext]
    exact (avoids_rootText blocks.length).notMem (by decide)

/-- The text of blocks settles what their legs say. -/
theorem content_eq_of_flatText_eq (inputs : Registry Input)
    (h : flatText interpolate blocks = flatText interpolate more) :
    (legsOf inputs interpolate (inputOrder blocks) blocks).map Leg.content =
      (legsOf inputs interpolate (inputOrder more) more).map Leg.content := by
  rw [flatText_eq_intercalate inputs, flatText_eq_intercalate inputs] at h
  have hpieces := intercalate_inj (rfl : ";".toList = [';'])
    (notMem_legTexts inputs interpolate blocks) (notMem_legTexts inputs interpolate more)
    (by simp) (by simp) h
  refine map_eq_map_of_mapIdx_eq (fun k leg hleg other hother heq ↦ ?_)
    (List.append_inj' hpieces rfl).1
  exact (legible_of_mem_legsOf hleg).content_eq (legible_of_mem_legsOf hother) heq

/-- When inputs are numbered alike, blocks are settled by what their legs say. -/
theorem eq_of_content_eq (hblocks : ∀ block ∈ blocks, block.input ∈ order)
    (h : (legsOf inputs interpolate order blocks).map Leg.content =
      (legsOf inputs interpolate order more).map Leg.content) :
    blocks = more := by
  induction blocks generalizing more with
  | nil =>
    cases more with
    | nil => rfl
    | cons other more => cases h
  | cons block blocks ih =>
    cases more with
    | nil => cases h
    | cons other more =>
      obtain ⟨hblock, hrest⟩ := List.forall_mem_cons.mp hblocks
      obtain ⟨hpicture, htail⟩ := List.cons.inj h
      obtain ⟨hsound, htail⟩ := List.cons.inj htail
      simp only [Leg.content, Leg.ofBlock, map_toText_picture, map_toText_sound, Prod.mk.injEq,
        true_and] at hpicture hsound
      obtain ⟨hstart, hstop, hspeed⟩ := eq_of_soundTexts_eq hsound.2
      have hfilters := filters_eq_of_pictureTexts_eq hstart hstop hspeed hpicture.2
      have hinput : block.input = other.input := (List.idxOf_inj hblock).mp hpicture.1
      rw [ih hrest htail]
      congr 1
      cases block
      cases other
      simp_all

/-! ### Commands -/

/-- The inputs can be told apart from what follows them. -/
theorem inputs_inj {files others : List Path} {rest rest' : List String}
    (h : files.flatMap (fun file ↦ ["-i", file.text]) ++ "-filter_complex" :: rest =
      others.flatMap (fun file ↦ ["-i", file.text]) ++ "-filter_complex" :: rest') :
    files = others ∧ rest = rest' := by
  induction files generalizing others with
  | nil =>
    cases others with
    | nil => exact ⟨rfl, (List.cons.inj h).2⟩
    | cons other others => exact absurd (List.cons.inj h).1 (by decide)
  | cons file files ih =>
    cases others with
    | nil => exact absurd (List.cons.inj h).1 (by decide)
    | cons other others =>
      obtain ⟨hfile, htail⟩ := List.cons.inj (List.cons.inj h).2
      obtain ⟨hfiles, hrest⟩ := ih htail
      cases file
      cases other
      exact ⟨by rw [hfiles]; exact congrArg (Path.mk · :: others) hfile, hrest⟩

/-- The words of a command settle the files, the text and the path of the output. -/
theorem flatCommand_inj {settings : Settings} {output output' : Output} {files files' : List Path}
    (h : (flatCommand settings output files).words = (flatCommand settings output' files').words) :
    files = files' ∧
      flatText settings.motionInterpolation output.blocks =
        flatText settings.motionInterpolation output'.blocks ∧
      output.path.text = output'.path.text := by
  simp only [Command.words, Command.arguments, flatCommand, List.append_assoc, List.cons.injEq,
    true_and, List.cons_append, List.nil_append] at h
  obtain ⟨hfiles, hrest⟩ := inputs_inj (List.append_cancel_left h)
  simp only [List.flatMap_cons, List.flatMap_nil, List.append_nil, List.cons_append,
    List.nil_append, List.cons.injEq, true_and] at hrest
  obtain ⟨htext, -, -, hpath⟩ := hrest
  exact ⟨hfiles, htext, (List.cons.inj (List.append_cancel_left hpath)).1⟩

theorem eq_of_map_eq {α β : Type} {f : α → β} {items others : List α}
    (hinj : ∀ a ∈ items, ∀ b ∈ others, f a = f b → a = b) (h : items.map f = others.map f) :
    items = others := by
  induction items generalizing others with
  | nil => exact (List.map_eq_nil_iff.mp h.symm).symm
  | cons a items ih =>
    obtain ⟨b, rest, rfl, hb, hrest⟩ := List.map_eq_cons_iff.mp h.symm
    rw [hinj a List.mem_cons_self b List.mem_cons_self hb.symm, ih (fun a' ha' b' hb' ↦
      hinj a' (List.mem_cons_of_mem _ ha') b' (List.mem_cons_of_mem _ hb')) hrest.symm]

/-- Registered inputs are settled by their files. -/
theorem inputOrder_eq_of_files_eq {catalogue : Catalogue} (hconsistent : catalogue.Consistent)
    (hblocks : ∀ block ∈ blocks, catalogue.inputs.contains block.input)
    (hmore : ∀ block ∈ more, catalogue.inputs.contains block.input)
    (h : (inputOrder blocks).map (pathOf catalogue.inputs) =
      (inputOrder more).map (pathOf catalogue.inputs)) :
    inputOrder blocks = inputOrder more := by
  have hfiles : filesOf catalogue.inputs blocks = filesOf catalogue.inputs more := by
    rw [filesOf_eq hblocks, filesOf_eq hmore, h]
  refine eq_of_map_eq (fun key hkey other _ hpath ↦ ?_) hfiles
  obtain ⟨block, hblock, rfl⟩ := mem_inputOrder.mp hkey
  exact hconsistent.key_eq_of_path_eq (hblocks block hblock) hpath

/-- Outputs that are compiled to the same words have the same file and the same blocks. Here every
path is a Unicode text, which stands in the words as it is. -/
theorem blocks_eq_of_words_eq (operations : List Catalogue.Operation) (settings : Settings)
    (key other : Key) (output output' : Output) (command command' : Command)
    (houtput : (Catalogue.after operations).outputs.get? key = some output)
    (houtput' : (Catalogue.after operations).outputs.get? other = some output')
    (hcommand : (Catalogue.after operations).compile settings key = .ok command)
    (hcommand' : (Catalogue.after operations).compile settings other = .ok command')
    (hwords : command.words = command'.words) :
    output.path.text = output'.path.text ∧ output.blocks = output'.blocks := by
  have hcompiled {key : Key} {output : Output} {command : Command}
      (houtput : (Catalogue.after operations).outputs.get? key = some output)
      (hcommand : (Catalogue.after operations).compile settings key = .ok command) :
      command = flatCommand settings output
        ((inputOrder output.blocks).map (pathOf (Catalogue.after operations).inputs)) := by
    simp only [Catalogue.compile, houtput] at hcommand
    by_cases hblocks : output.blocks = []
    · rw [Catalogue.compileOutput, ofOutput, if_pos hblocks, Failure.error_bind] at hcommand
      cases hcommand
    · rw [compileOutput_eq_flatCommand hblocks
        ((Catalogue.wired_after operations).of_get? houtput)] at hcommand
      exact (Except.ok.inj hcommand).symm
  rw [hcompiled houtput hcommand, hcompiled houtput' hcommand'] at hwords
  obtain ⟨hfiles, htext, hpath⟩ := flatCommand_inj hwords
  have horder := inputOrder_eq_of_files_eq (Catalogue.consistent_after operations)
    ((Catalogue.wired_after operations).of_get? houtput)
    ((Catalogue.wired_after operations).of_get? houtput') hfiles
  have hcontent := content_eq_of_flatText_eq (Catalogue.after operations).inputs htext
  rw [← horder] at hcontent
  exact ⟨hpath, eq_of_content_eq
    (fun block hblock ↦ mem_inputOrder.mpr ⟨block, hblock, rfl⟩) hcontent⟩

/-- Two outputs of one file, which play the same turned range twice as fast. -/
def sampleOperations : List Catalogue.Operation :=
  let block : Block := ⟨⟨"AA"⟩, .ofNat 1, .ofNat 3, .ofNat 2, [.rotate (.ofNat 90)]⟩
  [.addInput ⟨"clip.mp4"⟩, .addOutput ⟨"out.mp4"⟩, .addOutput ⟨"out.mp4"⟩, .addBlock ⟨"AA"⟩ block,
    .addBlock ⟨"AB"⟩ block]

/-- Their commands have the same words, so their blocks are the same. -/
theorem blocks_eq_of_words_eq_sample :
    ∃ output output' command command',
      (Catalogue.after sampleOperations).outputs.get? ⟨"AA"⟩ = some output ∧
      (Catalogue.after sampleOperations).outputs.get? ⟨"AB"⟩ = some output' ∧
      (Catalogue.after sampleOperations).compile {} ⟨"AA"⟩ = .ok command ∧
      (Catalogue.after sampleOperations).compile {} ⟨"AB"⟩ = .ok command' ∧
      command.words = command'.words ∧ output.blocks.length = 1 ∧
      output.path.text = output'.path.text ∧ output.blocks = output'.blocks := by
  obtain ⟨output, houtput⟩ := Option.isSome_iff_exists.mp
    (by decide +kernel : ((Catalogue.after sampleOperations).outputs.get? ⟨"AA"⟩).isSome)
  obtain ⟨output', houtput'⟩ := Option.isSome_iff_exists.mp
    (by decide +kernel : ((Catalogue.after sampleOperations).outputs.get? ⟨"AB"⟩).isSome)
  obtain ⟨command, hcommand⟩ := Failure.exists_eq_ok
    ((Catalogue.after sampleOperations).compile {} ⟨"AA"⟩) (by decide +kernel)
  obtain ⟨command', hcommand'⟩ := Failure.exists_eq_ok
    ((Catalogue.after sampleOperations).compile {} ⟨"AB"⟩) (by decide +kernel)
  have hlength : ((Catalogue.after sampleOperations).outputs.get? ⟨"AA"⟩).map
      (·.blocks.length) = some 1 := by decide +kernel
  have hwords : ((Catalogue.after sampleOperations).compile {} ⟨"AA"⟩).toOption.map Command.words =
      ((Catalogue.after sampleOperations).compile {} ⟨"AB"⟩).toOption.map Command.words := by
    decide +kernel
  rw [houtput] at hlength
  rw [hcommand, hcommand'] at hwords
  exact ⟨output, output', command, command', houtput, houtput', hcommand, hcommand',
    Option.some.inj hwords, Option.some.inj hlength, blocks_eq_of_words_eq sampleOperations {} _ _
      output output' command command' houtput houtput' hcommand hcommand' (Option.some.inj hwords)⟩

end Montage.Graph
