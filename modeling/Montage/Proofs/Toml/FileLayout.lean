import Montage.Proofs.Toml.FileForms
import Montage.Proofs.Toml.TextLayout

/-!
# Written files are well formed

What is written for lists and truth values is a form of them (`valueForm_listChars`,
`valueForm_truthChars`), and a written table is the lines of its header and its assignments
(`linesOf_tableChars`), as long as its keys need no quotes (`IsBare`).
-/

set_option autoImplicit false
set_option relaxedAutoImplicit false

namespace Montage.Toml

variable {name key : String} {value : Value} {written rest : List Char} {more : List Statement}

/-! ### Values -/

theorem spaces_singleton : Spaces [' '] := List.forall_mem_singleton.mpr rfl

/-- Items on lines of their own, each with a comma, up to the closing bracket. -/
theorem itemsForm_lines (items : List (List Char)) :
    ItemsForm items ('\n' ::
      (items.flatMap (fun item ↦ [' ', ' ', ' ', ' '] ++ textChars item ++ [',', '\n']) ++
        [']'])) := by
  induction items with
  | nil => exact .close (.lineEnd .feed .nil)
  | cons item items ih =>
    have hgap : Gap ['\n', ' ', ' ', ' ', ' '] :=
      .lineEnd .feed (.space rfl (.space rfl (.space rfl (.space rfl .nil))))
    have hitem := ItemsForm.next hgap (textForm_textChars item) .nil ih
    simpa only [List.flatMap_cons, List.append_assoc, List.cons_append, List.nil_append] using hitem

theorem valueForm_textChars (text : String) :
    ValueForm (.text text) (textChars text.toList) := by
  have h := ValueForm.text (textForm_textChars text.toList)
  rwa [String.ofList_toList] at h

theorem valueForm_listChars (texts : List String) :
    ValueForm (.array (texts.map .text)) (listChars (texts.map String.toList)) := by
  have hitems : (texts.map String.toList).map (fun item ↦ Value.text (String.ofList item)) =
      texts.map .text := by
    rw [List.map_map]
    exact List.map_congr_left fun text _ ↦ congrArg Value.text String.ofList_toList
  rw [← hitems]
  generalize texts.map String.toList = items
  unfold listChars
  split
  next => exact .list (.close .nil)
  next item => exact .list (.last .nil (textForm_textChars item) .nil)
  next => exact .list (itemsForm_lines _)

theorem valueForm_truthChars (value : Bool) : ValueForm (.boolean value) (truthChars value) := by
  cases value with
  | false => exact .no
  | true => exact .yes

/-! ### Lines -/

/-- The key can be written without quotes. -/
def IsBare (key : String) : Prop := key.toList ≠ [] ∧ key.toList.all isKeyChar

instance (key : String) : Decidable (IsBare key) :=
  inferInstanceAs (Decidable (_ ∧ key.toList.all isKeyChar))

theorem IsBare.partForm (h : IsBare key) : PartForm key key.toList := by
  have hpart := PartForm.bare h.1 (List.all_eq_true.mp h.2)
  rwa [String.ofList_toList] at hpart

theorem IsBare.keyForm (h : IsBare key) {spaces : List Char} (hspaces : Spaces spaces) :
    KeyForm [key] (key.toList ++ spaces) :=
  .last spaces_nil h.partForm hspaces

/-- The line is what is written for an entry. -/
def IsLineOf (entry : String × Value) (line : List Char) : Prop :=
  IsBare entry.1 ∧ ∃ written, ValueForm entry.2 written ∧ line = lineChars entry.1 written

theorem IsLineOf.linesOf {line : List Char} (h : IsLineOf (key, value) line)
    (hrest : LinesOf more rest) : LinesOf (.assignment [key] value :: more) (line ++ rest) := by
  obtain ⟨hkey, written, hvalue, rfl⟩ := h
  have hstatement :=
    StatementForm.assignment (hkey.keyForm spaces_singleton) spaces_singleton hvalue
  have hline := LineOf.statement spaces_nil hstatement (.spaces spaces_nil)
  have hlines := LinesOf.next hline .feed hrest
  simpa only [lineChars, List.append_assoc, List.cons_append, List.nil_append, List.append_nil]
    using hlines

theorem linesOf_flatten {entries : Entries} {lines : List (List Char)}
    (h : List.Forall₂ IsLineOf entries lines) (hrest : LinesOf more rest) :
    LinesOf (entries.map (fun entry ↦ Statement.assignment [entry.1] entry.2) ++ more)
      (lines.flatten ++ rest) := by
  induction h with
  | nil => exact hrest
  | cons hline _ ih =>
    rw [List.flatten_cons, List.append_assoc]
    exact hline.linesOf ih

/-- A table is written as its header and its assignments. -/
theorem linesOf_tableChars (hname : IsBare name) {entries : Entries} {lines : List (List Char)}
    (h : List.Forall₂ IsLineOf entries lines) (hrest : LinesOf more rest) :
    LinesOf (.header [name] ::
        (entries.map (fun entry ↦ Statement.assignment [entry.1] entry.2) ++ more))
      (tableChars name lines ++ rest) := by
  have hstatement := StatementForm.header (hname.keyForm spaces_nil)
  have hline := LineOf.statement spaces_nil hstatement (.spaces spaces_nil)
  have hlines := LinesOf.next hline .feed (linesOf_flatten h hrest)
  simpa only [tableChars, List.append_assoc, List.cons_append, List.nil_append, List.append_nil]
    using hlines

/-- An empty line says nothing. -/
theorem linesOf_emptyLine (hrest : LinesOf more rest) : LinesOf more ('\n' :: rest) :=
  .next (.blank (.spaces spaces_nil)) .feed hrest

/-- There may be nothing after the last line end. -/
theorem linesOf_nil : LinesOf [] [] := .last (.blank (.spaces spaces_nil))

end Montage.Toml
