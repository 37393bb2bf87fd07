import Montage.Failure

/-!
# Stores of files

A store is a tree of directories and files, seen from a working directory. It is kept as a list of
the places that hold something, each the list of names that leads to it from the root; the root
itself is always a directory. A path is followed step by step from the working directory or the
root: every step but the last has to lead to a directory, and a separator at the end asks for a
directory too.

Scope. There are no links, owners or times. A file is executable or not, and otherwise everything
may be read and written.
-/

set_option autoImplicit false
set_option relaxedAutoImplicit false

namespace Montage

namespace Store

/-- The names that lead from the root to a place. -/
abbrev Location := List String

/-- What a place holds. -/
inductive Entry where
  /-- A directory. -/
  | directory
  /-- A file. -/
  | file (content : ByteArray) (executable : Bool)

/-- The longest name of a file, in bytes. -/
def maxNameLength : Nat := 255

/-- The length from which a path is too long, in bytes. -/
def maxPathLength : Nat := 4096

end Store

open Store

/-- A tree of directories and files. -/
structure Store where
  /-- What is in the tree, apart from its root. -/
  entries : List (Location × Entry) := []
  /-- The directory from which relative paths are seen. -/
  workingDirectory : Location := []

namespace Store

/-- What a place holds. -/
def entryAt? (store : Store) (place : Location) : Option Entry :=
  if place = [] then some .directory else store.entries.lookup place

/-- Puts an entry in a place, in the place of any entry there. -/
def put (store : Store) (place : Location) (entry : Entry) : Store :=
  { store with entries := (place, entry) :: store.entries.filter (·.1 ≠ place) }

/-- Empties a place and everything below it. -/
def clear (store : Store) (place : Location) : Store :=
  { store with entries := store.entries.filter fun (other, _) ↦ !place.isPrefixOf other }

/-- Follows one piece of a path from a place, which has to be a directory. -/
def step (store : Store) (place : Location) (piece : List Char) : Except FileFault Location :=
  match store.entryAt? place with
  | none => .error .notFound
  | some (.file ..) => .error .notDirectory
  | some .directory =>
    if piece = [] ∨ piece = ['.'] then .ok place
    else if piece = ['.', '.'] then .ok place.dropLast
    else if maxNameLength < (String.ofList piece).utf8ByteSize then .error .nameTooLong
    else .ok (place ++ [String.ofList piece])

/-- Follows pieces of a path. -/
def follow (store : Store) (path : Path) (pieces : List (List Char)) :
    Except FileFault Location :=
  if path.text.isEmpty then .error .notFound
  else if path.text.contains '\x00' then .error .unusableName
  else if maxPathLength ≤ path.text.utf8ByteSize then .error .nameTooLong
  else pieces.foldlM store.step (if path.isAbsolute then [] else store.workingDirectory)

/-- The place that a path leads to, which may be empty. -/
def locate (store : Store) (path : Path) : Except FileFault Location :=
  store.follow path path.pieces

/-- The place of an entry to be made at a path. Separators at the end do not count. -/
def locateNew (store : Store) (path : Path) : Except FileFault Location :=
  store.follow path (path.pieces.reverse.dropWhile (· = [])).reverse

/-- What a path leads to. -/
def find (store : Store) (path : Path) : Except FileFault Entry := do
  let place ← store.locate path
  match store.entryAt? place with
  | some entry => return entry
  | none => throw .notFound

/-- Whether a path leads to anything. -/
def pathExists (store : Store) (path : Path) : Bool := (store.find path).isOk

/-- Whether a path leads to a file. -/
def isFile (store : Store) (path : Path) : Bool :=
  match store.find path with
  | .ok (.file ..) => true
  | _ => false

/-- Whether a path leads to a directory. -/
def isDirectory (store : Store) (path : Path) : Bool :=
  match store.find path with
  | .ok .directory => true
  | _ => false

/-- Whether a path leads to a file that is executable. -/
def isExecutable (store : Store) (path : Path) : Bool :=
  match store.find path with
  | .ok (.file _ executable) => executable
  | _ => false

/-- The bytes of a file. -/
def readBytes (store : Store) (path : Path) : Except FileFault ByteArray := do
  match ← store.find path with
  | .file content _ => return content
  | .directory => throw .isDirectory

/-- The text of a file. -/
def readText (store : Store) (path : Path) : Except FileFault String := do
  match String.fromUTF8? (← store.readBytes path) with
  | some text => return text
  | none => throw .notText

/-- The names in a directory. -/
def namesIn (store : Store) (path : Path) : Except FileFault (List String) := do
  let place ← store.locate path
  match store.entryAt? place with
  | none => throw .notFound
  | some (.file ..) => throw .notDirectory
  | some .directory =>
    return store.entries.filterMap fun (other, _) ↦
      if other.dropLast = place then other.getLast? else none

/-- Writes a file. The new content is made from the old one, which is empty for a new file. A path
that ends in a separator never names a file. -/
def write (store : Store) (path : Path) (content : ByteArray → ByteArray) :
    Except FileFault Store := do
  let place ← store.locateNew path
  if path.text.toList.getLast? = some '/' then throw .isDirectory
  match store.entryAt? place with
  | some .directory => throw .isDirectory
  | some (.file old executable) => return store.put place (.file (content old) executable)
  | none =>
    match store.entryAt? place.dropLast with
    | some .directory => return store.put place (.file (content .empty) false)
    | some (.file ..) => throw .notDirectory
    | none => throw .notFound

/-- Makes a file executable or not. -/
def setExecutable (store : Store) (path : Path) (executable : Bool) : Except FileFault Store := do
  let place ← store.locate path
  match store.entryAt? place with
  | some (.file content _) => return store.put place (.file content executable)
  | some .directory => return store
  | none => throw .notFound

/-- Removes what a path leads to, with everything below it. -/
def remove (store : Store) (path : Path) : Except FileFault Store := do
  let place ← store.locateNew path
  match store.entryAt? place with
  | some _ => return store.clear place
  | none => throw .notFound

/-- Makes a directory. -/
def makeDirectory (store : Store) (path : Path) : Except FileFault Store := do
  let place ← store.locateNew path
  match store.entryAt? place, store.entryAt? place.dropLast with
  | some _, _ => throw .alreadyExists
  | none, some .directory => return store.put place .directory
  | none, some (.file ..) => throw .notDirectory
  | none, none => throw .notFound

/-- Makes the first of several directories, each of which lies in the next one, after those of the
others that are missing. A directory that is there already is left as it is. -/
def makeNested (store : Store) : List Path → Except FileFault Store
  | [] => .ok store
  | path :: above =>
    match store.makeDirectory path with
    | .error .notFound => do
      let store ← makeNested store above
      match store.makeDirectory path with
      | .error .alreadyExists => if store.isDirectory path then .ok store else .error .alreadyExists
      | made => made
    | .error .alreadyExists => if store.isDirectory path then .ok store else .error .alreadyExists
    | made => made

/-- Makes a directory and the directories above it that are missing. -/
def makeDirectories (store : Store) (path : Path) : Except FileFault Store :=
  store.makeNested path.ancestors

end Store

end Montage
