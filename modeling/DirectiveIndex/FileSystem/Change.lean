import DirectiveIndex.FileSystem.Lookup

namespace DirectiveIndex.FileSystem

/-- The file system that holds nothing but its root directory. -/
def empty : FileSystem :=
  ⟨[], []⟩

/-- Makes the directory that a path leads to, unless it is there already; the one above it must be
there. -/
def makeDirectory (fs : FileSystem) (path : Path) : Except AccessError FileSystem :=
  match fs.locate path with
  | .error cause => .error (.refused cause path)
  | .ok place =>
    match fs.node? place.location with
    | none => .ok (fs.put place.location ⟨.directory, false⟩)
    | some node => if node.isDirectory then .ok fs else .error (.refused .notDirectory path)

/-- Makes a directory and those above it that are missing. -/
def makeDirectories (fs : FileSystem) (path : Path) : Except AccessError FileSystem :=
  (List.range (path.names.length + 1)).foldlM
    (fun fs count => fs.makeDirectory ⟨path.root, path.names.take count⟩) fs

/-- Makes a link with a target at a place in a directory. -/
def makeLink (fs : FileSystem) (directory : Path) (name target : Text) : Except AccessError FileSystem :=
  match fs.locate directory with
  | .error cause => .error (.refused cause directory)
  | .ok place => .ok (fs.put (place.location ++ [name]) ⟨.link target, false⟩)

/-- Denies access to what a path leads to. -/
def deny (fs : FileSystem) (path : Path) : Except AccessError FileSystem :=
  match fs.lookup path with
  | .error cause => .error (.refused cause path)
  | .ok (place, node) => .ok (fs.put place.location { node with denied := true })

end DirectiveIndex.FileSystem
