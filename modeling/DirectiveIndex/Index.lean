import DirectiveIndex.Metadata
import DirectiveIndex.OrderedMap
import DirectiveIndex.Path
import DirectiveIndex.Text.Blank

namespace DirectiveIndex

/-- The metadata of the files that could be read, in the order in which they were added, and the files that could not.
-/
structure Index where
  entries : OrderedMap Path Metadata
  failures : List Path
deriving Repr

namespace Index

/-- The index without files. -/
def empty : Index :=
  ⟨[], []⟩

/-- Records the metadata of a file, which is no failure any more. -/
def add (index : Index) (path : Path) (metadata : Metadata) : Index :=
  ⟨index.entries.put path metadata, index.failures.filter (· != path)⟩

/-- Records that a file could not be read, whose metadata, if any, are dropped. -/
def addFailure (index : Index) (path : Path) : Index :=
  ⟨index.entries.erase path, path :: index.failures.filter (· != path)⟩

/-- The metadata of a file, which is empty for a file that has none. -/
def get (index : Index) (path : Path) : Metadata :=
  (index.entries.lookup path).getD .empty

/-- Whether a file has metadata. -/
def contains (index : Index) (path : Path) : Bool :=
  (index.entries.lookup path).isSome

/-- The number of files with metadata. -/
def size (index : Index) : Nat :=
  index.entries.length

/-- The files with metadata, in order. -/
def paths (index : Index) : List Path :=
  index.entries.keys

/-- The files with metadata, in order; those without directives only if they are asked for. -/
def listed (index : Index) (includeEmpty : Bool) : List (Path × Metadata) :=
  index.entries.filter fun entry => includeEmpty || !entry.2.isEmpty

/-- All imported paths, each once, in order by code points. -/
def allImports (index : Index) : List Text :=
  Text.sortDistinct (index.entries.flatMap (·.2.imports))

/-- All `solidity` pragma values without the white space at their ends, each once, in order by code
points. -/
def allSolidity (index : Index) : List Text :=
  Text.sortDistinct (index.entries.flatMap fun entry => entry.2.solidity.map Text.strip)

/-- The number of imports of all files together. -/
def importCount (index : Index) : Nat :=
  (index.entries.flatMap (·.2.imports)).length

/-- The number of `solidity` pragmas of all files together. -/
def solidityCount (index : Index) : Nat :=
  (index.entries.flatMap (·.2.solidity)).length

/-- An index as messages show it, by its counts. -/
def description (index : Index) : Text :=
  "MetadataIndex(files=".toList ++ Text.ofNat index.size ++ ", imports=".toList ++
    Text.ofNat index.importCount ++ ", solidity=".toList ++ Text.ofNat index.solidityCount ++
    ", failures=".toList ++ Text.ofNat index.failures.length ++ [')']

end Index

end DirectiveIndex
