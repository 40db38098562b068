import DirectiveIndex.Discovery
import DirectiveIndex.Index
import DirectiveIndex.Notice

namespace DirectiveIndex

/-- The files that a target stands for: those found in a directory, and of anything else the target itself, whatever its
suffix. -/
def FileSystem.filesOf (fs : FileSystem) (selection : Selection) (target : Path) :
    Except AccessError (List Path) := do
  if ← fs.isDirectory target then
    fs.sources selection target
  else
    return [← fs.resolve target]

/-- An index under construction, with the notices so far. -/
structure Indexing where
  index : Index
  notices : List Notice

namespace Indexing

/-- Reads a file and enters it into the index, with a notice about it. -/
def addFile (fs : FileSystem) (indexing : Indexing) (path : Path) : Indexing :=
  match fs.readSource path with
  | .error reason =>
    ⟨indexing.index.addFailure path, indexing.notices ++ [.skipped path reason]⟩
  | .ok source =>
    let metadata := extract source
    ⟨indexing.index.add path metadata,
      indexing.notices ++ [.scanned path metadata.imports.length metadata.solidity.length]⟩

/-- Enters files one after the other into an empty index. -/
def ofFiles (fs : FileSystem) (paths : List Path) : Indexing :=
  paths.foldl (addFile fs) ⟨.empty, []⟩

/-- Enters the files of all targets in order. -/
def ofTargets (fs : FileSystem) (selection : Selection) (targets : List Path) :
    Except AccessError Indexing := do
  let files ← targets.mapM (fs.filesOf selection)
  return ofFiles fs files.flatten

end Indexing

end DirectiveIndex
