import Mathlib.Data.List.Induction
import Mathlib.Data.List.Nodup
import Montage.Proofs.Toml.Tables
import Montage.Settings.File

/-!
# Choices of settings

A settings file may leave out any settings. What it gives is a choice (`Choice`), and the settings
of a choice are its values with the defaults for all others. A file can give the same choice in many
orders and shapes: a setting on a line of its own with a key of two parts, a section between braces,
or a section under a header (`Layout`). It may give nothing twice, and a section that is given as a
whole is complete (`Layout.WellFormed`).

The invariant while the statements are put together is that every section has just the settings that
were given for it so far (`Shows`). So the finished tables hold the choice, and the fields read from
them are its settings (`ofStatements?_of_layout`).
-/

set_option autoImplicit false
set_option relaxedAutoImplicit false

namespace Montage.Settings

open Toml

/-! ### Choices -/

/-- Values for some of the settings. -/
structure Choice where
  /-- The rendering program. -/
  program : Option String := none
  /-- Arguments of the rendering program. -/
  qualityFlags : Option (List String) := none
  /-- Whether outputs that exist are rendered again. -/
  overwriteExisting : Option Bool := none
  /-- Whether pictures are interpolated. -/
  motionInterpolation : Option Bool := none
  /-- The extension of timing files. -/
  timingExtension : Option String := none
  /-- The extension of recordings. -/
  sourceExtension : Option String := none
  /-- The extension of outputs. -/
  outputExtension : Option String := none
  /-- The name of the manifest. -/
  manifestName : Option String := none

namespace Choice

/-- The chosen values, and the defaults for all others. -/
def settings (choice : Choice) : Settings :=
  let defaults : Settings := {}
  { program := choice.program.getD defaults.program
    qualityFlags := choice.qualityFlags.getD defaults.qualityFlags
    overwriteExisting := choice.overwriteExisting.getD defaults.overwriteExisting
    motionInterpolation := choice.motionInterpolation.getD defaults.motionInterpolation
    timingExtension := choice.timingExtension.getD defaults.timingExtension
    sourceExtension := choice.sourceExtension.getD defaults.sourceExtension
    outputExtension := choice.outputExtension.getD defaults.outputExtension
    manifestName := choice.manifestName.getD defaults.manifestName }

/-- The choice of all settings. -/
def all (settings : Settings) : Choice where
  program := settings.program
  qualityFlags := settings.qualityFlags
  overwriteExisting := settings.overwriteExisting
  motionInterpolation := settings.motionInterpolation
  timingExtension := settings.timingExtension
  sourceExtension := settings.sourceExtension
  outputExtension := settings.outputExtension
  manifestName := settings.manifestName

@[simp]
theorem settings_all (settings : Settings) : (all settings).settings = settings := rfl

/-- The value that is chosen for the key of a section, if there is one. -/
def value? (choice : Choice) : String × String → Option Value
  | ("ffmpeg", "program") => choice.program.map .text
  | ("ffmpeg", "quality_flags") => choice.qualityFlags.map fun flags ↦ .array (flags.map .text)
  | ("ffmpeg", "overwrite_existing") => choice.overwriteExisting.map .boolean
  | ("graph", "motion_interpolation") => choice.motionInterpolation.map .boolean
  | ("pipeline", "timing_extension") => choice.timingExtension.map .text
  | ("pipeline", "source_extension") => choice.sourceExtension.map .text
  | ("pipeline", "output_extension") => choice.outputExtension.map .text
  | ("pipeline", "manifest_name") => choice.manifestName.map .text
  | _ => none

end Choice

/-! ### Layouts -/

/-- Values with the section and the key that they are for. -/
abbrev Given := List ((String × String) × Value)

/-- A part of a settings file, which is about one section. -/
inductive Part where
  /-- One setting, under a key of two parts. -/
  | dotted (name key : String) (value : Value)
  /-- The whole section, between braces. -/
  | braced (name : String) (entries : Entries)
  /-- The whole section, under a header. -/
  | headed (name : String) (entries : Entries)

namespace Part

/-- The section. -/
def name : Part → String
  | dotted name _ _ | braced name _ | headed name _ => name

/-- The entries of the section that are given. -/
def entries : Part → Entries
  | dotted _ key value => [(key, value)]
  | braced _ entries | headed _ entries => entries

/-- Whether the part is a single setting. -/
def isDotted : Part → Bool
  | dotted _ _ _ => true
  | braced _ _ | headed _ _ => false

/-- Whether the part has a header. -/
def isHeaded : Part → Bool
  | headed _ _ => true
  | dotted _ _ _ | braced _ _ => false

/-- The values that are given. -/
def given (part : Part) : Given := part.entries.map fun entry ↦ ((part.name, entry.1), entry.2)

/-- The statements. -/
def statements : Part → List Statement
  | dotted name key value => [.assignment [name, key] value]
  | braced name entries => [.assignment [name] (.table .braced entries)]
  | headed name entries =>
    .header [name] :: entries.map fun entry ↦ .assignment [entry.1] entry.2

/-- The first part may stand somewhere before the second one: sections with headers come last, and
what is given as a whole is given once. -/
structure MayPrecede (first second : Part) : Prop where
  headed : first.isHeaded → second.isHeaded
  dotted : first.name = second.name → first.isDotted ∧ second.isDotted

end Part

/-- The parts of a settings file, in order. -/
abbrev Layout := List Part

namespace Layout

/-- The values that are given. -/
def given (layout : Layout) : Given := layout.flatMap Part.given

/-- The statements. -/
def statements (layout : Layout) : List Statement := layout.flatMap Part.statements

/-- The parts may stand in their order, and no value is given twice. -/
structure WellFormed (layout : Layout) : Prop where
  order : layout.Pairwise Part.MayPrecede
  keys : (layout.given.map Prod.fst).Nodup

/-- The layout gives what is chosen and nothing else. -/
def Gives (layout : Layout) (choice : Choice) : Prop :=
  ∀ place value, (place, value) ∈ layout.given ↔ choice.value? place = some value

end Layout

/-! ### Tables in the making -/

/-- The tables that hold what the parts of a layout give for a section. -/
inductive Shown (layout : Layout) (name : String) : Option Value → Prop
  /-- Nothing is given. -/
  | missing : (∀ part ∈ layout, part.name ≠ name) → Shown layout name none
  /-- There is a table of what is given. It stays open for more if it is not given as a whole. -/
  | table {form : TableForm} {table : Entries} : (∃ part ∈ layout, part.name = name) →
      ((∀ part ∈ layout, part.name = name → part.isDotted) → form = .dotted) →
      (∀ key, table.lookup key = layout.given.lookup (name, key)) →
      Shown layout name (some (.table form table))

/-- The entries hold a table for each section that the layout gives something for. -/
def Shows (layout : Layout) (entries : Entries) : Prop :=
  ∀ name, Shown layout name (entries.lookup name)

variable {layout : Layout} {part : Part} {name key : String} {value : Value}
  {entries next table : Entries} {form : TableForm}

theorem given_concat (layout : Layout) (part : Part) :
    Layout.given (layout ++ [part]) = layout.given ++ part.given := by
  rw [Layout.given, List.flatMap_append, List.flatMap_singleton]
  rfl

theorem lookup_given_self (part : Part) (key : String) :
    part.given.lookup (part.name, key) = part.entries.lookup key := by
  rw [Part.given]
  induction part.entries with
  | nil => rfl
  | cons entry entries ih =>
    obtain ⟨other, value⟩ := entry
    rw [List.map_cons, lookup_cons, lookup_cons, ih]
    simp only [Prod.mk.injEq, true_and]

theorem lookup_given_of_ne (h : part.name ≠ name) (key : String) :
    part.given.lookup (name, key) = none := by
  rw [lookup_eq_none_iff, Part.given, List.map_map, List.mem_map]
  rintro ⟨entry, -, heq⟩
  exact h (Prod.mk.inj heq).1

theorem lookup_given_eq_none (h : ∀ part ∈ layout, part.name ≠ name) (key : String) :
    layout.given.lookup (name, key) = none := by
  induction layout with
  | nil => rfl
  | cons part layout ih =>
    obtain ⟨hpart, hrest⟩ := List.forall_mem_cons.mp h
    rw [Layout.given, List.flatMap_cons, List.lookup_append, lookup_given_of_ne hpart]
    exact ih hrest

/-- Sections that a part is not about stay as they were. -/
theorem Shown.concat_of_ne {value? : Option Value} (h : Shown layout name value?)
    (hne : part.name ≠ name) : Shown (layout ++ [part]) name value? := by
  cases h with
  | missing hmissing =>
    refine .missing fun other hother ↦ ?_
    rcases List.mem_append.mp hother with hbefore | hlast
    · exact hmissing other hbefore
    · rwa [List.mem_singleton.mp hlast]
  | table hexists hopen hlookup =>
    obtain ⟨other, hother, hname⟩ := hexists
    refine .table ⟨other, List.mem_append_left _ hother, hname⟩ (fun hdotted ↦ ?_) fun key ↦ ?_
    · exact hopen fun other hother ↦ hdotted other (List.mem_append_left _ hother)
    · rw [given_concat, List.lookup_append, lookup_given_of_ne hne, Option.or_none, hlookup]

/-- A part leaves the table of its section, and all others as they were. -/
theorem Shows.concat (h : Shows layout entries)
    (hnext : ∀ other, next.lookup other =
      if other = part.name then some (.table form table) else entries.lookup other)
    (hopen : part.isDotted → form = .dotted)
    (hlookup : ∀ key, table.lookup key =
      (layout.given.lookup (part.name, key)).or (part.entries.lookup key)) :
    Shows (layout ++ [part]) next := by
  intro name
  rw [hnext]
  split_ifs with hname
  · subst hname
    have hmem : part ∈ layout ++ [part] := by simp
    refine .table ⟨part, hmem, rfl⟩ (fun hdotted ↦ hopen (hdotted part hmem rfl)) fun key ↦ ?_
    rw [given_concat, List.lookup_append, lookup_given_self, hlookup]
  · exact (h name).concat_of_ne fun heq ↦ hname heq.symm

/-- There is no table of a section that nothing is given for. -/
theorem Shows.lookup_eq_none (h : Shows layout entries)
    (hname : ∀ part ∈ layout, part.name ≠ name) :
    entries.lookup name = none := by
  have hshown := h name
  cases hentry : entries.lookup name with
  | none => rfl
  | some value =>
    rw [hentry] at hshown
    cases hshown with
    | table hexists _ _ =>
      obtain ⟨part, hpart, heq⟩ := hexists
      exact absurd heq (hname part hpart)

/-! ### Adding parts -/

theorem lookup_concat (h : entries.lookup key = none) (value : Value) (other : String) :
    (entries ++ [(key, value)]).lookup other =
      if other = key then some value else entries.lookup other := by
  rw [List.lookup_append, lookup_cons]
  split_ifs with hother
  · rw [hother, h]
    rfl
  · rw [List.lookup_nil, Option.or_none]

theorem assign_of_lookup_eq_none (h : entries.lookup key = none) (value : Value) :
    assign value [key] entries = some (entries ++ [(key, value)]) := by
  rw [assign, alterEntry_of_lookup_eq_none h]
  rfl

/-- A key of two parts goes to the table of the first part, which is made if it is missing. -/
theorem exists_assign_dotted
    (h : entries.lookup name = none ∧ table = [] ∨
      entries.lookup name = some (.table .dotted table))
    (hkey : table.lookup key = none) (value : Value) :
    ∃ next, assign value [name, key] entries = some next ∧ ∀ other, next.lookup other =
      if other = name then some (.table .dotted (table ++ [(key, value)]))
      else entries.lookup other := by
  have hassign := assign_of_lookup_eq_none hkey value
  rw [assign]
  · refine exists_alterEntry ?_
    rcases h with ⟨hmissing, rfl⟩ | htable
    · rw [hmissing]
      exact congrArg (Option.map (Value.table .dotted)) hassign
    · rw [htable]
      exact congrArg (Option.map (Value.table .dotted)) hassign
  · exact List.cons_ne_nil _ _

/-- A single setting goes to the table of its section, which was not given as a whole. -/
theorem Shows.add_dotted (h : Shows layout entries)
    (hkey : layout.given.lookup (name, key) = none)
    (hdotted : ∀ part ∈ layout, part.name = name → part.isDotted) (value : Value) :
    ∃ next, Draft.add { entries } (.assignment [name, key] value) = some { entries := next } ∧
      Shows (layout ++ [.dotted name key value]) next := by
  obtain ⟨table, htable, hlookup⟩ : ∃ table, (entries.lookup name = none ∧ table = [] ∨
      entries.lookup name = some (.table .dotted table)) ∧
      ∀ key, table.lookup key = layout.given.lookup (name, key) := by
    have hshown := h name
    cases hentry : entries.lookup name with
    | none =>
      rw [hentry] at hshown
      cases hshown with
      | missing hmissing =>
        exact ⟨[], Or.inl ⟨rfl, rfl⟩, fun key ↦ (lookup_given_eq_none hmissing key).symm⟩
    | some old =>
      rw [hentry] at hshown
      cases hshown with
      | @table form table _ hopen hlookup =>
        obtain rfl := hopen hdotted
        exact ⟨table, Or.inr rfl, hlookup⟩
  obtain ⟨next, hnext, hothers⟩ := exists_assign_dotted htable ((hlookup key).trans hkey) value
  refine ⟨next, ?_, h.concat hothers (fun _ ↦ rfl) fun other ↦ ?_⟩
  · exact congrArg (Option.map fun entries ↦ ({ entries } : Draft)) hnext
  · rw [List.lookup_append, hlookup]
    rfl

/-- A section between braces becomes a table. -/
theorem Shows.add_braced (h : Shows layout entries) (hname : ∀ part ∈ layout, part.name ≠ name)
    (table : Entries) :
    ∃ next, Draft.add { entries } (.assignment [name] (.table .braced table)) =
        some { entries := next } ∧ Shows (layout ++ [.braced name table]) next := by
  have hmissing := h.lookup_eq_none hname
  refine ⟨entries ++ [(name, .table .braced table)], ?_, ?_⟩
  · exact congrArg (Option.map fun entries ↦ ({ entries } : Draft))
      (assign_of_lookup_eq_none hmissing _)
  · refine h.concat (lookup_concat hmissing _) (fun hdotted ↦ absurd hdotted Bool.false_ne_true)
      fun key ↦ ?_
    rw [show (Part.braced name table).name = name from rfl, lookup_given_eq_none hname]
    rfl

/-- An assignment under the header of a table goes to this table. -/
theorem add_assignment (h : entries.lookup name = some (.table .headed table))
    (hkey : table.lookup key = none) (value : Value) :
    ∃ next, Draft.add { entries, place := [name] } (.assignment [key] value) =
        some { entries := next, place := [name] } ∧
      ∀ other, next.lookup other =
        if other = name then some (.table .headed (table ++ [(key, value)]))
        else entries.lookup other := by
  obtain ⟨next, hnext, hothers⟩ : ∃ next, within (assign value [key]) [name] entries = some next ∧
      ∀ other, next.lookup other =
        if other = name then some (.table .headed (table ++ [(key, value)]))
        else entries.lookup other := by
    rw [within]
    refine exists_alterEntry ?_
    rw [h]
    exact congrArg (Option.map (Value.table .headed)) (assign_of_lookup_eq_none hkey value)
  refine ⟨next, ?_, hothers⟩
  exact congrArg (Option.map fun entries ↦ ({ entries, place := [name] } : Draft)) hnext

/-- Assignments under the header of a table go to this table. -/
theorem add_assignments {more : Entries}
    (h : entries.lookup name = some (.table .headed table))
    (hkeys : ((table ++ more).map Prod.fst).Nodup) :
    ∃ next, (more.map fun entry ↦ Statement.assignment [entry.1] entry.2).foldlM Draft.add
        { entries, place := [name] } = some { entries := next, place := [name] } ∧
      ∀ other, next.lookup other =
        if other = name then some (.table .headed (table ++ more)) else entries.lookup other := by
  induction more generalizing entries table with
  | nil =>
    refine ⟨entries, rfl, fun other ↦ ?_⟩
    rw [List.append_nil]
    split_ifs with hother
    · rw [hother, h]
    · rfl
  | cons entry more ih =>
    obtain ⟨key, value⟩ := entry
    have hkey : table.lookup key = none := by
      rw [lookup_eq_none_iff]
      rw [List.map_append, List.nodup_append] at hkeys
      exact fun hmem ↦ hkeys.2.2 key hmem key List.mem_cons_self rfl
    obtain ⟨between, hbetween, hothers⟩ := add_assignment h hkey value
    have htable : between.lookup name = some (.table .headed (table ++ [(key, value)])) := by
      rw [hothers, if_pos rfl]
    rw [List.append_cons] at hkeys ⊢
    obtain ⟨next, hnext, hothers'⟩ := ih htable hkeys
    refine ⟨next, ?_, fun other ↦ ?_⟩
    · rw [List.map_cons, List.foldlM_cons, hbetween]
      exact hnext
    · rw [hothers', hothers]
      split_ifs <;> rfl

/-- A section with a header becomes a table. -/
theorem Shows.add_headed (h : Shows layout entries) (hname : ∀ part ∈ layout, part.name ≠ name)
    (hkeys : (table.map Prod.fst).Nodup) (place : List String) :
    ∃ next, (Part.headed name table).statements.foldlM Draft.add { entries, place } =
        some { entries := next, place := [name] } ∧
      Shows (layout ++ [.headed name table]) next := by
  have hmissing := h.lookup_eq_none hname
  have hheader : Draft.add { entries, place } (.header [name]) =
      some { entries := entries ++ [(name, .table .headed [])], place := [name] } :=
    congrArg (Option.map fun entries ↦ ({ entries, place := [name] } : Draft))
      (alterEntry_of_lookup_eq_none hmissing)
  have htable : (entries ++ [(name, Value.table .headed [])]).lookup name =
      some (.table .headed []) := by
    rw [lookup_concat hmissing, if_pos rfl]
  obtain ⟨next, hnext, hothers⟩ := add_assignments htable hkeys
  replace hothers : ∀ other, next.lookup other =
      if other = name then some (.table .headed table) else entries.lookup other := by
    intro other
    rw [hothers, lookup_concat hmissing, List.nil_append]
    split_ifs <;> rfl
  refine ⟨next, ?_, h.concat hothers (fun hdotted ↦ absurd hdotted Bool.false_ne_true)
    fun key ↦ ?_⟩
  · rw [Part.statements, List.foldlM_cons, hheader]
    exact hnext
  · rw [show (Part.headed name table).name = name from rfl, lookup_given_eq_none hname]
    rfl

/-! ### Whole files -/

theorem Layout.WellFormed.keys_concat (h : Layout.WellFormed (layout ++ [part])) :
    (layout.given.map Prod.fst).Nodup ∧ (part.entries.map Prod.fst).Nodup ∧
      ∀ entry ∈ part.entries, layout.given.lookup (part.name, entry.1) = none := by
  have hkeys := h.keys
  rw [given_concat, List.map_append, List.nodup_append] at hkeys
  obtain ⟨hbefore, hpart, hne⟩ := hkeys
  rw [Part.given, List.map_map] at hpart hne
  refine ⟨hbefore, ?_, fun entry hentry ↦ lookup_eq_none_iff.mpr fun hmem ↦ ?_⟩
  · rw [show Prod.fst ∘ (fun entry : String × Value ↦ ((part.name, entry.1), entry.2)) =
      Prod.mk part.name ∘ Prod.fst from rfl, ← List.map_map] at hpart
    exact List.Nodup.of_map _ hpart
  · exact hne _ hmem _ (List.mem_map_of_mem hentry) rfl

/-- The statements of a layout can be put together, and what they make shows the layout. As long as
there is no header, they go to the outermost table. -/
theorem exists_draft_of_wellFormed (h : layout.WellFormed) :
    ∃ draft, layout.statements.foldlM Draft.add {} = some draft ∧ Shows layout draft.entries ∧
      ((∀ part ∈ layout, ¬ part.isHeaded) → draft.place = []) := by
  induction layout using List.reverseRecOn with
  | nil => exact ⟨{}, rfl, fun _ ↦ .missing (List.forall_mem_nil _), fun _ ↦ rfl⟩
  | append_singleton layout part ih =>
    obtain ⟨horder, -, hlast⟩ := List.pairwise_append.mp h.order
    obtain ⟨hbefore, hpart, hnew⟩ := h.keys_concat
    obtain ⟨⟨entries, place⟩, hdraft, hshows, hplace⟩ := ih ⟨horder, hbefore⟩
    replace hlast : ∀ other ∈ layout, other.MayPrecede part :=
      fun other hother ↦ hlast other hother part List.mem_cons_self
    have hname (hpart : ¬ part.isDotted) : ∀ other ∈ layout, other.name ≠ part.name :=
      fun other hother heq ↦ hpart ((hlast other hother).dotted heq).2
    have hroot (hpart : ¬ part.isHeaded) : place = [] :=
      hplace fun other hother hheaded ↦ hpart ((hlast other hother).headed hheaded)
    rw [Layout.statements, List.flatMap_append, List.flatMap_singleton, List.foldlM_append]
    rw [Layout.statements] at hdraft
    rw [hdraft]
    cases part with
    | dotted name key value =>
      obtain rfl := hroot Bool.false_ne_true
      have hkey : (Layout.given layout).lookup (name, key) = none :=
        hnew (key, value) List.mem_cons_self
      obtain ⟨next, hnext, hshows⟩ := hshows.add_dotted hkey
        (fun other hother heq ↦ ((hlast other hother).dotted heq).1) value
      refine ⟨{ entries := next }, ?_, hshows, fun _ ↦ rfl⟩
      rw [Option.bind_eq_bind, Option.bind_some, Part.statements, List.foldlM_cons, hnext]
      rfl
    | braced name table =>
      obtain rfl := hroot Bool.false_ne_true
      obtain ⟨next, hnext, hshows⟩ := hshows.add_braced (hname Bool.false_ne_true) table
      refine ⟨{ entries := next }, ?_, hshows, fun _ ↦ rfl⟩
      rw [Option.bind_eq_bind, Option.bind_some, Part.statements, List.foldlM_cons]
      exact congrArg (· >>= fun draft ↦ [].foldlM Draft.add draft) hnext
    | headed name table =>
      obtain ⟨next, hnext, hshows⟩ := hshows.add_headed (hname Bool.false_ne_true) hpart place
      refine ⟨{ entries := next, place := [name] }, hnext, hshows, fun hheaded ↦ ?_⟩
      exact absurd rfl (hheaded (.headed name table) (by simp))

/-! ### The settings of a choice -/

/-- The value of a field is the one that is given, or the default. -/
theorem Shown.fieldOf_eq {section? : Option Value} (h : Shown layout name section?) {α : Type}
    (field : Field α) (default : α) :
    fieldOf section? field default =
      match layout.given.lookup (name, field.key) with
      | none => some default
      | some value => field.read value := by
  cases h with
  | missing hmissing =>
    rw [lookup_given_eq_none hmissing]
    rfl
  | @table form table _ _ hlookup =>
    rw [← hlookup]
    rfl

/-- What is given for a field is what is chosen for it. -/
theorem Layout.Gives.lookup {choice : Choice} (h : layout.Gives choice)
    (hkeys : (layout.given.map Prod.fst).Nodup) (place : String × String) :
    layout.given.lookup place = choice.value? place := by
  refine Option.ext fun value ↦ ?_
  rw [lookup_eq_some_iff hkeys, h]

theorem texts?_map_text (flags : List String) :
    texts? (.array (flags.map .text)) = some flags := by
  rw [texts?]
  induction flags with
  | nil => rfl
  | cons flag flags ih =>
    rw [List.map_cons, List.mapM_cons, ih]
    rfl

/-- Tables that show what is chosen hold the settings of the choice. -/
theorem Shows.ofEntries?_eq {choice : Choice} (h : Shows layout entries)
    (hgives : layout.Gives choice) (hkeys : (layout.given.map Prod.fst).Nodup) :
    ofEntries? entries = some choice.settings := by
  have hfield {α : Type} (name : String) (field : Field α) (default : α)
      (chosen : Option α) (value : α → Value)
      (hchosen : choice.value? (name, field.key) = chosen.map value)
      (hread : ∀ x, field.read (value x) = some x) :
      fieldOf (entries.lookup name) field default = some (chosen.getD default) := by
    rw [(h name).fieldOf_eq, hgives.lookup hkeys, hchosen]
    cases chosen with
    | none => rfl
    | some x => exact hread x
  have htext (name key : String) (place : Nat) (default : String) (chosen : Option String)
      (hchosen : choice.value? (name, key) = chosen.map .text) :=
    hfield name ⟨key, place, text?⟩ default chosen .text hchosen fun _ ↦ rfl
  have htruth (name key : String) (place : Nat) (default : Bool) (chosen : Option Bool)
      (hchosen : choice.value? (name, key) = chosen.map .boolean) :=
    hfield name ⟨key, place, truth?⟩ default chosen .boolean hchosen fun _ ↦ rfl
  have htexts := hfield "ffmpeg" ⟨"quality_flags", 1, texts?⟩
    ({} : Settings).qualityFlags choice.qualityFlags _ rfl texts?_map_text
  rw [ofEntries?]
  dsimp only
  rw [htext "ffmpeg" "program" 0 _ choice.program rfl, htexts,
    htruth "ffmpeg" "overwrite_existing" 2 _ choice.overwriteExisting rfl,
    htruth "graph" "motion_interpolation" 0 _ choice.motionInterpolation rfl,
    htext "pipeline" "timing_extension" 0 _ choice.timingExtension rfl,
    htext "pipeline" "source_extension" 1 _ choice.sourceExtension rfl,
    htext "pipeline" "output_extension" 2 _ choice.outputExtension rfl,
    htext "pipeline" "manifest_name" 3 _ choice.manifestName rfl]
  rfl

/-- The tables of a layout hold the settings of what it gives. -/
theorem ofEntries?_of_layout {choice : Choice} (h : layout.WellFormed)
    (hgives : layout.Gives choice) :
    (ofStatements? layout.statements).bind ofEntries? = some choice.settings := by
  obtain ⟨draft, hdraft, hshows, -⟩ := exists_draft_of_wellFormed h
  rw [ofStatements?, hdraft]
  exact hshows.ofEntries?_eq hgives h.keys

end Montage.Settings
