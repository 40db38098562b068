import DirectiveIndex.FileSystem.Resolve
import DirectiveIndex.Text.Lowercase

namespace DirectiveIndex

/-- What to look for in a directory: the suffixes of files, the names of directories to leave out,
and how many directories to go down. A name to leave out that starts with stars stands for every name
that ends with the rest. -/
structure Selection where
  suffixes : List Text
  excluded : List Text
  maxDepth : Option Int
deriving DecidableEq, Repr

namespace Selection

/-- The suffixes looked for unless others are given. -/
def defaultSuffixes : List Text :=
  [".sol".toList]

/-- The directories left out unless others are given: those of version control, of dependencies and
of tools, and what builds leave behind. -/
def defaultExcluded : List Text :=
  [".git", ".hg", ".svn", "node_modules", "__pycache__", "venv", ".venv", ".idea", ".vscode", "artifacts",
    "cache", "out", "build", "dist"].map String.toList

/-- Whether directories that many levels down are left out. -/
def isTooDeep (selection : Selection) (depth : Nat) : Bool :=
  selection.maxDepth.any fun greatest => (depth : Int) > greatest

/-- Whether a directory of that name is left out. -/
def excludes (selection : Selection) (name : Text) : Bool :=
  selection.excluded.contains name ||
    selection.excluded.any fun pattern =>
      pattern.head? == some '*' && (pattern.dropWhile (· == '*')).isSuffixOf name

/-- Whether a file is looked for. Suffixes are compared in lower case. -/
def wants (selection : Selection) (file : Path) : Bool :=
  selection.suffixes.contains (Text.lower file.suffix)

end Selection

namespace FileSystem

/-- Going down to something either uses up a link or leaves fewer names below it. -/
theorem enter_measure_lt {fs : FileSystem} {place next : Place} {name : Text} {node : Node}
    (hentered : fs.enter place name = .ok next) (hfound : fs.node? next.location = some node) :
    next.linksLeft < place.linksLeft ∨
      (next.linksLeft = place.linksLeft ∧
        fs.height - next.location.length < fs.height - place.location.length) := by
  rcases enter_descends hentered with h | ⟨hleft, hlocation⟩
  · exact Or.inl h
  · have hle := length_le_height hfound
    rw [hlocation, List.length_append, List.length_singleton] at hle
    refine Or.inr ⟨hleft, ?_⟩
    rw [hlocation, List.length_append, List.length_singleton]
    omega

mutual

/-- The files looked for in the directory at a place, which the path leads to. A directory that may not be listed
holds none. Links to directories are followed; the walk ends all the same, because every way down either uses up one
of the links that a look-up may follow or goes one name further into a finite tree. -/
def sourcesBelow (fs : FileSystem) (selection : Selection) (path : Path) (place : Place) (depth : Nat) :
    Except AccessError (List Path) :=
  if selection.isTooDeep depth then
    .ok []
  else
    match fs.search place.location with
    | .error .denied => .ok []
    | .error cause => .error (.refused cause path)
    | .ok () => sourcesAmong fs selection path place depth (Text.sort (fs.namesIn place.location))
termination_by (place.linksLeft, fs.height - place.location.length, 1, 0)
decreasing_by exact Prod.Lex.right _ (Prod.Lex.right _ (Prod.Lex.left _ _ (by decide)))

/-- The files looked for among some names of a directory. -/
def sourcesAmong (fs : FileSystem) (selection : Selection) (path : Path) (place : Place) (depth : Nat) :
    List Text → Except AccessError (List Path)
  | [] => .ok []
  | name :: names =>
    match _entered : fs.enter place name with
    | .error .denied => .error (.refused .denied (path.child name))
    | .error _ => sourcesAmong fs selection path place depth names
    | .ok next =>
      match _found : fs.node? next.location with
      | none => sourcesAmong fs selection path place depth names
      | some node =>
        if node.isDirectory then
          if selection.excludes name then
            sourcesAmong fs selection path place depth names
          else do
            let below ← sourcesBelow fs selection (path.child name) next (depth + 1)
            let others ← sourcesAmong fs selection path place depth names
            return below ++ others
        else if selection.wants (path.child name) then do
          let others ← sourcesAmong fs selection path place depth names
          return path.child name :: others
        else
          sourcesAmong fs selection path place depth names
termination_by names => (place.linksLeft, fs.height - place.location.length, 0, names.length)
decreasing_by
  · exact Prod.Lex.right _ (Prod.Lex.right _ (Prod.Lex.right _ (by simp)))
  · exact Prod.Lex.right _ (Prod.Lex.right _ (Prod.Lex.right _ (by simp)))
  · exact Prod.Lex.right _ (Prod.Lex.right _ (Prod.Lex.right _ (by simp)))
  · rcases enter_measure_lt _entered _found with h | ⟨heq, h⟩
    · exact Prod.Lex.left _ _ h
    · exact heq ▸ Prod.Lex.right _ (Prod.Lex.left _ _ h)
  all_goals exact Prod.Lex.right _ (Prod.Lex.right _ (Prod.Lex.right _ (by simp)))

end

/-- The files looked for in a directory and below it, in the order of their paths. -/
def sources (fs : FileSystem) (selection : Selection) (root : Path) : Except AccessError (List Path) := do
  let path ← fs.resolve root
  if selection.isTooDeep 0 then
    return []
  match fs.lookup path with
  | .error .denied => return []
  | .error cause => throw (.refused cause path)
  | .ok (place, _) => fs.sourcesBelow selection path place 0

end FileSystem

end DirectiveIndex
