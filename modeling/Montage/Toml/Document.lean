import Montage.Toml.Statement

/-!
# Settings files as tables

The statements of a settings file build one table. Headers make the tables above theirs as they are
needed; a table may have one header, also after tables below it had theirs, but a key with several
parts rules out a header for the tables that it makes. Assignments go to the table of the header
before them, where a list of tables stands for its last item.
-/

set_option autoImplicit false
set_option relaxedAutoImplicit false

namespace Montage.Toml

/-- Changes the entries of the table at a place, unless the change fails. Tables on the way are made
when they are missing. -/
def within (change : Entries → Option Entries) : (place : List String) → Entries → Option Entries
  | [] => change
  | part :: place => alterEntry part fun
    | none => (within change place []).map (.table .implied)
    | some (.table .braced _) => none
    | some (.table form entries) => (within change place entries).map (.table form)
    | some (.tables items) => items.getLast?.bind fun entries ↦
        (within change place entries).map fun entries ↦ .tables (items.dropLast ++ [entries])
    | some _ => none

/-- Gives a table its header. -/
def openTable : Option Value → Option Value
  | none => some (.table .headed [])
  | some (.table .implied entries) => some (.table .headed entries)
  | some _ => none

/-- Adds an item to a list of tables. -/
def openItem : Option Value → Option Value
  | none => some (.tables [[]])
  | some (.tables items) => some (.tables (items ++ [[]]))
  | some _ => none

/-- A settings file in the making. -/
structure Draft where
  /-- The entries so far. -/
  entries : Entries := []
  /-- The key of the header that was read last. -/
  place : List String := []

/-- Adds a statement. -/
def Draft.add (draft : Draft) : Statement → Option Draft
  | .header key =>
    (key.getLast?.bind fun last ↦
      within (alterEntry last openTable) key.dropLast draft.entries).map fun entries ↦
        { entries, place := key }
  | .item key =>
    (key.getLast?.bind fun last ↦
      within (alterEntry last openItem) key.dropLast draft.entries).map fun entries ↦
        { entries, place := key }
  | .assignment key value =>
    (within (assign value key) draft.place draft.entries).map fun entries ↦
      { draft with entries }

/-- The table that statements build. -/
def ofStatements? (statements : List Statement) : Option Entries :=
  (statements.foldlM Draft.add {}).map Draft.entries

/-- Reads a settings file. -/
def ofText? (text : String) : Option Entries :=
  (statements? text.toList).bind ofStatements?

end Montage.Toml
