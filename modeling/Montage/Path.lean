import Montage.Text.Pieces

/-!
# Paths

A path is kept as it was written. Two paths name the same file when they have the same components
(`Path.Same`): repeated separators, a separator at the end and a `.` that is not first do not count,
while `..` and a `.` in front of a relative path do.

Scope. Only paths of Unicode text are modelled. A file system may allow others. In the words of a
command they are shown with replacement characters, so that two of them could look alike.
-/

set_option autoImplicit false
set_option relaxedAutoImplicit false

namespace Montage

/-- A path, as written. -/
structure Path where
  /-- The text of the path. -/
  text : String
deriving DecidableEq, Repr

namespace Path

/-- One step on the way that a path describes. -/
inductive Component where
  /-- The root of an absolute path. -/
  | root
  /-- The `.` in front of a relative path. -/
  | here
  /-- A `..`. -/
  | parent
  /-- A file or directory by name. -/
  | name (text : String)
deriving DecidableEq, Repr

/-- The step that a piece between separators stands for, if it counts. -/
def Component.ofPiece? (piece : List Char) : Option Component :=
  if piece = [] ∨ piece = ['.'] then none
  else if piece = ['.', '.'] then some .parent
  else some (.name (String.ofList piece))

/-- The pieces between the separators of a path. -/
def pieces (p : Path) : List (List Char) := Text.cut (· == '/') p.text.toList

/-- A path from the root. -/
def isAbsolute (p : Path) : Bool := p.text.toList.head? == some '/'

/-- The steps that a path describes. -/
def components (p : Path) : List Component :=
  let first := if p.isAbsolute then [.root] else if p.pieces.head? = some ['.'] then [.here] else []
  first ++ p.pieces.filterMap Component.ofPiece?

/-- Two paths are the same when they describe the same steps. -/
def Same (p q : Path) : Prop := p.components = q.components

instance (p q : Path) : Decidable (p.Same q) := inferInstanceAs (Decidable (_ = _))

theorem Same.refl (p : Path) : p.Same p := rfl

theorem Same.symm {p q : Path} (h : p.Same q) : q.Same p := Eq.symm h

theorem Same.trans {p q r : Path} (hpq : p.Same q) (hqr : q.Same r) : p.Same r := Eq.trans hpq hqr

/-- A step, as it is written. -/
def Component.text : Component → String
  | root => "/"
  | here => "."
  | parent => ".."
  | name text => text

/-- The path `q`, seen from the directory `p`. An absolute `q` stays as it is. -/
def join (p q : Path) : Path :=
  if q.isAbsolute then q
  else if p.text.isEmpty ∨ p.text.toList.getLast? = some '/' then ⟨p.text ++ q.text⟩
  else ⟨p.text ++ "/" ++ q.text⟩

/-- The path that describes these steps and is written without anything that does not count. -/
def ofComponents (components : List Component) : Path :=
  components.foldl (fun path component ↦ path.join ⟨component.text⟩) ⟨""⟩

/-- The path without anything that does not count. -/
def plain (p : Path) : Path := ofComponents p.components

/-- The paths from the given one up to its first step, each without the last step of the one before
it. The first is left as it was written. The root and a path without steps are not among them. -/
def ancestors (p : Path) : List Path :=
  let starts := (List.range' 1 p.components.length).map p.components.take
  match (starts.filter (· ≠ [.root])).reverse with
  | [] => []
  | _ :: shorter => p :: shorter.map ofComponents

/-- The name of the file that a path ends in, unless it ends in `..` or in no step at all. -/
def fileName? (p : Path) : Option (List Char) :=
  match p.components.getLast? with
  | some (.name text) => some text.toList
  | _ => none

/-- A file name, cut at its last point unless that is its first character. -/
def cutExtension (fileName : List Char) : List Char × Option (List Char) :=
  let extension := (fileName.reverse.takeWhile (· != '.')).reverse
  let stem := fileName.take (fileName.length - extension.length - 1)
  if stem = [] ∨ extension.length = fileName.length then (fileName, none)
  else (stem, some extension)

/-- The part of the file name after its last point. -/
def extension? (p : Path) : Option String :=
  (p.fileName?.bind fun fileName ↦ (cutExtension fileName).2).map String.ofList

/-- The length of what stands behind the last piece that counts: the pieces after it, each with the
separator in front of it. -/
def lengthBehind (p : Path) : Nat :=
  let behind := p.pieces.reverse.takeWhile fun piece ↦ (Component.ofPiece? piece).isNone
  (behind.flatMap ('/' :: ·)).length

/-- The path with another extension, or with none if the new one is empty. The new extension must
not contain a separator, and takes the place of everything behind the stem of the file name. A path
whose last piece is two points and the old extension only keeps the points. -/
def withExtension? (p : Path) (extension : String) : Option Path :=
  if '/' ∈ extension.toList then none
  else
    let old := p.extension?.getD ""
    let bare : Path := ⟨String.ofList (p.text.toList.take (p.text.length - old.length))⟩
    match bare.fileName? with
    | none => some bare
    | some fileName =>
      let stem := (cutExtension fileName).1
      let lengthBehindStem := fileName.length - stem.length + bare.lengthBehind
      let kept := bare.text.toList.take (bare.text.length - lengthBehindStem)
      some ⟨String.ofList kept ++ if extension.isEmpty then "" else "." ++ extension⟩

end Path

end Montage
