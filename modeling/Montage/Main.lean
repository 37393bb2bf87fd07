import Montage.CommandLine.Session

/-!
# The command line

The files that a session may need are read into a store: the settings, the rendering program, and
the input and output directories. After the session, the files that it wrote are written back, its
lines go to the output and its report to the messages.

Scope. Large files are recordings; they only have to be there, so their bytes are not read.
-/

set_option autoImplicit false
set_option relaxedAutoImplicit false

namespace Montage.CommandLine

/-- The size from which files are recordings. -/
def recordingSize : UInt64 := 16777216

/-- What is found in a file with these bytes. It can be executed if it names its interpreter. -/
def entryOf (content : ByteArray) : Store.Entry :=
  .file content (content.data[0]? == some 35 && content.data[1]? == some 33)

/-- The place that a path leads to, whatever is there. -/
def placeOf (workingDirectory : Store.Location) (path : Path) : Store.Location :=
  path.components.foldl
    (fun place component ↦ match component with
      | .root => []
      | .here => place
      | .parent => place.dropLast
      | .name text => place ++ [text])
    workingDirectory

/-- Puts an entry and the directories above it into a store. -/
def placeEntry (store : Store) (place : Store.Location) (entry : Store.Entry) : Store :=
  let above := (List.range place.length).map fun length ↦ place.take length
  (above.foldl (fun store directory ↦ store.put directory .directory) store).put place entry

/-- Reads a file into a store. -/
def readFile (store : Store) (place : Store.Location) (path : String) : IO Store := do
  let file ← IO.FS.realPath path
  if (← file.metadata).byteSize < recordingSize then
    return placeEntry store place (entryOf (← IO.FS.readBinFile file))
  else return placeEntry store place (.file .empty false)

/-- Reads what a path leads to into a store: a file, or a directory with the files in it. -/
def readPath (store : Store) (path : Path) : IO Store := do
  let place := placeOf store.workingDirectory path
  try
    let file ← IO.FS.realPath path.text
    if ← file.isDir then
      let found ← file.readDir
      found.foldlM
        (fun store item ↦ do
          let inside := place ++ [item.fileName]
          if ← item.path.isDir then return placeEntry store inside .directory
          else readFile store inside item.path.toString)
        (placeEntry store place .directory)
    else readFile store place path.text
  catch _ => return store

/-- Writes an entry of a store back unless it was there before. -/
def writeBack (before : Store) (place : Store.Location) (entry : Store.Entry) : IO Unit := do
  let name := "/" ++ "/".intercalate place
  match entry, before.entryAt? place with
  | .directory, some .directory => return
  | .directory, _ => IO.FS.createDirAll name
  | .file content _, some (.file old _) =>
    if content != old then IO.FS.writeBinFile name content
  | .file content _, _ => IO.FS.writeBinFile name content

/-- The paths that a request is about, apart from the rendering program. -/
def Request.paths : Request → List Path
  | .composition input output settings _ => input :: output.toList ++ settings.toList
  | _ => []

end Montage.CommandLine

open Montage Montage.CommandLine in
/-- Runs a session on the files around the program. -/
def main (arguments : List String) : IO UInt32 := do
  let here : Path := ⟨(← IO.currentDir).toString⟩
  let empty : Store := { workingDirectory := placeOf [] here }
  let requested ← match Request.ofArguments arguments with
    | .ok request =>
      request.paths.foldlM readPath (placeEntry empty empty.workingDirectory .directory)
    | .error _ => pure empty
  let store ← match Request.ofArguments arguments with
    | .ok (.composition _ _ settings? _) =>
      match Session.readSettings requested settings? with
      | .ok settings => readPath requested ⟨settings.program⟩
      | .error _ => pure requested
    | _ => pure requested
  let session := Session.run store arguments
  for line in session.lines do IO.println line
  IO.eprint session.report
  for (place, entry) in session.store.entries.reverse do writeBack store place entry
  return UInt32.ofNat session.status
