import DirectiveIndex.Text.Basic

namespace DirectiveIndex

/-- Where the names of a path start: at the current directory, or at the root of the file system,
written with one slash or, as a form of its own, with exactly two. -/
inductive Path.Root where
  | relative
  | absolute
  | doubleSlash
deriving DecidableEq, Repr

/-- A path, not interpreted by any file system. -/
structure Path where
  root : Path.Root
  names : List Text
deriving DecidableEq, Repr

/-- The name of the directory itself. -/
def Path.selfName : Text := ['.']

/-- The name of the directory above. -/
def Path.parentName : Text := ['.', '.']

namespace Path

/-- A root as it is written. -/
def Root.text : Root → Text
  | relative => []
  | absolute => ['/']
  | doubleSlash => ['/', '/']

/-- The root of a written path, by the number of slashes at its start. -/
def rootOf (text : Text) : Root :=
  match (text.takeWhile (· == '/')).length with
  | 0 => .relative
  | 2 => .doubleSlash
  | _ => .absolute

/-- Reads a path from a text. Empty names and single dots are dropped; double dots are kept, since only the file
system can interpret them. -/
def ofText (text : Text) : Path :=
  ⟨rootOf text, (Text.split '/' text).filter fun name => name != [] && name != selfName⟩

/-- A path as it is written; the relative path without names is a dot. -/
def text (path : Path) : Text :=
  if path.root = .relative ∧ path.names = [] then
    selfName
  else
    path.root.text ++ Text.join ['/'] path.names

/-- The path of a name below another path. -/
def child (path : Path) (name : Text) : Path :=
  ⟨path.root, path.names ++ [name]⟩

/-- Whether a path holds a NUL character, which no file system can take. -/
def holdsNul (path : Path) : Bool :=
  path.names.any (·.contains '\x00')

/-- The parts by which paths are compared: the root, if there is one, and the names. -/
def parts (path : Path) : List Text :=
  if path.root = .relative then path.names else path.root.text :: path.names

/-- Whether one list of parts comes before or at another: the first difference decides by code
points, and a proper beginning comes first. -/
def partsLe : List Text → List Text → Bool
  | [], _ => true
  | _ :: _, [] => false
  | a :: as, b :: bs => if a = b then partsLe as bs else Text.le a b

/-- Whether one path comes before or at another, name by name: what lies below `a` comes before a sibling such as
`a-b`. -/
def le (a b : Path) : Bool :=
  partsLe a.parts b.parts

/-- Sorts paths part by part. -/
def sort (paths : List Path) : List Path :=
  paths.mergeSort le

/-- The suffix of a name: its last dot and what follows it, if something follows and something comes
before. -/
def suffixOf (name : Text) : Text :=
  let after := name.reverse.takeWhile (· != '.')
  match name.reverse.dropWhile (· != '.') with
  | _ :: _ :: _ => if after = [] then [] else '.' :: after.reverse
  | _ => []

/-- The suffix of the last name of a path. -/
def suffix (path : Path) : Text :=
  match path.names.getLast? with
  | none => []
  | some name => suffixOf name

/-- What is left of a path after a path above it, if it lies below that path or is the same. -/
def relativeTo? (path above : Path) : Option Path :=
  if path.root = above.root ∧ above.names.isPrefixOf path.names then
    some ⟨.relative, path.names.drop above.names.length⟩
  else
    none

end Path

end DirectiveIndex
