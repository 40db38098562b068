import DirectiveIndex.FileSystem.Resolve
import DirectiveIndex.Index

namespace DirectiveIndex

/-- The directories from which display texts are given. -/
structure Frame where
  base : Path
  root : Path
deriving DecidableEq, Repr

namespace FileSystem

/-- The path from a directory to a file at or below it, if it is there. A path that no file system can
take lies below nothing. -/
def pathFrom? (fs : FileSystem) (directory path : Path) : Except AccessError (Option Path) :=
  let relative : Except AccessError (Option Path) := do
    let path ← fs.resolve path
    let directory ← fs.resolve directory
    return path.relativeTo? directory
  match relative with
  | .error .nulCharacter => .ok none
  | outcome => outcome

/-- The text under which a report names a file: its path from the base, or else from the root of the search, or else the
path itself, with slashes for backslashes. -/
def display (fs : FileSystem) (frame : Frame) (path : Path) : Except AccessError Text := do
  let shown ←
    match ← fs.pathFrom? frame.base path with
    | some shown => pure shown
    | none =>
      match ← fs.pathFrom? frame.root path with
      | some shown => pure shown
      | none => pure path
  return Text.replaceChar '\\' '/' shown.text

end FileSystem

/-- The metadata of files under their display texts, and the display texts of the files that could not
be read, in order by code points. -/
structure Report where
  files : OrderedMap Text Metadata
  failures : List Text
deriving DecidableEq, Repr

/-- Reports on an index with display texts of one's own making. Files with one display text become one member, in the
place of the first and with the metadata of the last. -/
def Index.report (index : Index) (includeEmpty : Bool) (name : Path → Text) : Report :=
  ⟨.ofList ((index.listed includeEmpty).map fun entry => (name entry.1, entry.2)),
    Text.sort (index.failures.map name)⟩

/-- Reports on an index with the display texts of its files. -/
def Report.ofIndex (fs : FileSystem) (frame : Frame) (includeEmpty : Bool) (index : Index) :
    Except AccessError Report := do
  let files ← (index.listed includeEmpty).mapM fun entry => do
    return (← fs.display frame entry.1, entry.2)
  let failures ← index.failures.mapM (fs.display frame)
  return ⟨.ofList files, Text.sort failures⟩

end DirectiveIndex
