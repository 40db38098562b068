import DirectiveIndex.Path
import DirectiveIndex.Text.Quoted

namespace DirectiveIndex

/-- A place in the tree of a file system, by the names that lead to it from the root without links or double dots. -/
abbrev Location := List Text

/-- What a file system may hold at a location. -/
inductive Content where
  | file (bytes : List UInt8)
  | directory
  | link (target : Text)
deriving DecidableEq, Repr

/-- What a file system holds at a location, and whether access to it is denied: a denied file cannot be opened, and
nothing can be listed, found or opened in a denied directory. -/
structure Node where
  content : Content
  denied : Bool
deriving DecidableEq, Repr

/-- Whether a node is a directory. -/
def Node.isDirectory (node : Node) : Bool :=
  node.content == .directory

/-- The target of a node that is a symbolic link. -/
def Node.target? (node : Node) : Option Text :=
  match node.content with
  | .link target => some target
  | _ => none

/-- A finite file system with a current directory. -/
structure FileSystem where
  entries : List (Location × Node)
  current : Location
deriving DecidableEq, Repr

/-- Why an access to a file system fails. -/
inductive Cause where
  | notFound
  | denied
  | notDirectory
  | isDirectory
  | tooManyLinks
deriving DecidableEq, Repr

/-- The number and the wording that operating systems give to a cause. -/
def Cause.message : Cause → Text
  | notFound => "[Errno 2] No such file or directory".toList
  | denied => "[Errno 13] Permission denied".toList
  | notDirectory => "[Errno 20] Not a directory".toList
  | isDirectory => "[Errno 21] Is a directory".toList
  | tooManyLinks => "[Errno 40] Too many levels of symbolic links".toList

/-- A failed access: a refusal at a path, a path that is a link to itself, or a path that holds a NUL
character, which no file system can take. -/
inductive AccessError where
  | refused (cause : Cause) (path : Path)
  | linkLoop (path : Path)
  | nulCharacter
deriving DecidableEq, Repr

/-- The wording of a failed access. -/
def AccessError.message : AccessError → Text
  | refused cause path => cause.message ++ [':', ' '] ++ Text.quoted path.text
  | linkLoop path => "Symlink loop from ".toList ++ Text.quoted path.text
  | nulCharacter => "embedded null byte".toList

namespace FileSystem

/-- The directory at the root, which every file system has. -/
def rootNode : Node :=
  ⟨.directory, false⟩

/-- What is found at a location. -/
def node? (fs : FileSystem) (location : Location) : Option Node :=
  if location = [] then some rootNode else fs.entries.lookup location

/-- The target of the link at a location, if there is one. -/
def target? (fs : FileSystem) (location : Location) : Option Text :=
  (fs.node? location).bind Node.target?

/-- The greatest number of names on the way to a location that holds something. -/
def height (fs : FileSystem) : Nat :=
  fs.entries.foldr (fun entry height => max entry.1.length height) 0

/-- The names found in a directory. -/
def namesIn (fs : FileSystem) (location : Location) : List Text :=
  fs.entries.filterMap fun entry =>
    if entry.1.dropLast = location then entry.1.getLast? else none

/-- Puts a node at a location, in place of whatever is there. -/
def put (fs : FileSystem) (location : Location) (node : Node) : FileSystem :=
  { fs with entries := (location, node) :: fs.entries.filter (·.1 != location) }

theorem length_le_height {fs : FileSystem} {location : Location} {node : Node}
    (h : fs.node? location = some node) : location.length ≤ fs.height := by
  unfold node? at h
  split at h
  · simp_all
  · unfold height
    generalize fs.entries = entries at h
    induction entries with
    | nil => simp at h
    | cons entry entries ih =>
      obtain ⟨key, value⟩ := entry
      simp only [List.lookup_cons] at h
      simp only [List.foldr_cons]
      split at h
      · rename_i heq
        have : location = key := by simpa using heq
        subst this
        omega
      · have := ih h
        omega

end FileSystem

end DirectiveIndex
