import DirectiveIndex.Indexing
import DirectiveIndex.Proofs.OrderedMaps

namespace DirectiveIndex

namespace Index

variable {index : Index} {path other : Path} {metadata : Metadata}

/-- An added path has its metadata. -/
theorem lookup_add_self : (index.add path metadata).entries.lookup path = some metadata :=
  OrderedMap.lookup_put_self

/-- Adding a path leaves the metadata of the others. -/
theorem lookup_add_of_ne (h : other ≠ path) :
    (index.add path metadata).entries.lookup other = index.entries.lookup other :=
  OrderedMap.lookup_put_of_ne h

/-- An added path has not failed any more. -/
theorem mem_failures_add : other ∈ (index.add path metadata).failures ↔ other ∈ index.failures ∧ other ≠ path := by
  rw [add, List.mem_filter, bne_iff_ne]

/-- A failed path has no metadata. -/
theorem lookup_addFailure_self : (index.addFailure path).entries.lookup path = none :=
  OrderedMap.lookup_erase_self

/-- A failure leaves the metadata of the other paths. -/
theorem lookup_addFailure_of_ne (h : other ≠ path) :
    (index.addFailure path).entries.lookup other = index.entries.lookup other :=
  OrderedMap.lookup_erase_of_ne h

/-- A failed path is among the failures. -/
theorem mem_failures_addFailure : other ∈ (index.addFailure path).failures ↔ other = path ∨ other ∈ index.failures := by
  rw [addFailure, List.mem_cons, List.mem_filter, bne_iff_ne]
  by_cases h : other = path
  · simp [h]
  · simp [h]

/-- The paths of an index are those with metadata. -/
theorem mem_paths_iff : path ∈ index.paths ↔ ∃ metadata, index.entries.lookup path = some metadata :=
  OrderedMap.mem_keys_iff

/-- A path that is added again keeps its place. -/
theorem paths_add_of_mem (h : path ∈ index.paths) : (index.add path metadata).paths = index.paths :=
  OrderedMap.keys_put_of_mem h

/-- A new path comes last. -/
theorem paths_add_of_not_mem (h : path ∉ index.paths) : (index.add path metadata).paths = index.paths ++ [path] := by
  rw [paths, add, OrderedMap.put_of_not_mem h, OrderedMap.keys, List.map_append]
  rfl

/-- A failure takes its path out and leaves the order of the others. -/
theorem paths_addFailure : (index.addFailure path).paths = index.paths.filter (· != path) :=
  OrderedMap.keys_erase

/-- Adding a path adds it to those of the index. -/
theorem mem_paths_add : other ∈ (index.add path metadata).paths ↔ other ∈ index.paths ∨ other = path := by
  by_cases h : path ∈ index.paths
  · rw [paths_add_of_mem h]
    exact ⟨.inl, fun hor => hor.elim id fun heq => heq ▸ h⟩
  · rw [paths_add_of_not_mem h, List.mem_append, List.mem_singleton]

/-- A failure takes its path out of those of the index. -/
theorem mem_paths_addFailure : other ∈ (index.addFailure path).paths ↔ other ∈ index.paths ∧ other ≠ path := by
  rw [paths_addFailure, List.mem_filter, bne_iff_ne]

/-- A path that fails and is added again moves to the end. -/
theorem paths_addFailure_add :
    ((index.addFailure path).add path metadata).paths = index.paths.filter (· != path) ++ [path] := by
  have hnot : path ∉ (index.addFailure path).paths := fun h => (mem_paths_addFailure.1 h).2 rfl
  rw [paths_add_of_not_mem hnot, paths_addFailure]

/-- Adding a path leaves the failures distinct. -/
theorem nodup_failures_add (h : index.failures.Nodup) : (index.add path metadata).failures.Nodup :=
  h.filter _

/-- A path that fails again is not listed twice. -/
theorem nodup_failures_addFailure (h : index.failures.Nodup) : (index.addFailure path).failures.Nodup := by
  refine List.nodup_cons.2 ⟨fun hmem => ?_, h.filter _⟩
  exact bne_iff_ne.1 (List.mem_filter.1 hmem).2 rfl

/-- An index with different paths is its paths with their metadata. -/
theorem map_paths_get (h : index.paths.Nodup) : index.paths.map (fun path => (path, index.get path)) = index.entries :=
  OrderedMap.map_keys_lookup h .empty

/-- What the entries of an index have together is what its paths have one after the other. -/
theorem flatMap_entries (h : index.paths.Nodup) (part : Metadata → List Text) :
    (index.entries.flatMap fun entry => part entry.2) = index.paths.flatMap fun path => part (index.get path) := by
  rw [← map_paths_get h, List.flatMap_map]

end Index

/-- The metadata of the source at a path, if it can be read. -/
def FileSystem.metadataOf? (fs : FileSystem) (path : Path) : Option Metadata :=
  (fs.readSource path).toOption.map extract

namespace Indexing

/-- Whether an index has, for each of some files, the metadata of its source or else a failure, and nothing for any
other path. -/
structure Accounts (fs : FileSystem) (paths : List Path) (index : Index) : Prop where
  lookup : ∀ path, index.entries.lookup path = if path ∈ paths then fs.metadataOf? path else none
  mem_failures : ∀ path, path ∈ index.failures ↔ path ∈ paths ∧ fs.metadataOf? path = none

variable {fs : FileSystem} {paths : List Path} {indexing : Indexing}

/-- Before anything is read, an empty index accounts for everything. -/
theorem accounts_empty : Accounts fs [] .empty :=
  ⟨fun _ => rfl, fun _ => by simp [Index.empty]⟩

/-- Reading a file adds it or records its failure. -/
theorem index_addFile (fs : FileSystem) (indexing : Indexing) (path : Path) :
    (indexing.addFile fs path).index =
      match fs.metadataOf? path with
      | some metadata => indexing.index.add path metadata
      | none => indexing.index.addFailure path := by
  unfold addFile FileSystem.metadataOf?
  cases fs.readSource path <;> rfl

/-- Reading one more file accounts for it as well. -/
theorem Accounts.addFile (h : Accounts fs paths indexing.index) (path : Path) :
    Accounts fs (paths ++ [path]) (indexing.addFile fs path).index := by
  rw [index_addFile]
  cases hmetadata : fs.metadataOf? path with
  | none =>
    refine ⟨fun other => ?_, fun other => ?_⟩
    · by_cases hother : other = path
      · rw [hother, Index.lookup_addFailure_self, hmetadata, ite_self]
      · rw [Index.lookup_addFailure_of_ne hother, h.lookup]
        simp [hother]
    · rw [Index.mem_failures_addFailure, h.mem_failures]
      by_cases hother : other = path
      · simp [hother, hmetadata]
      · simp [hother]
  | some metadata =>
    refine ⟨fun other => ?_, fun other => ?_⟩
    · by_cases hother : other = path
      · rw [hother, Index.lookup_add_self, hmetadata, if_pos List.mem_concat_self]
      · rw [Index.lookup_add_of_ne hother, h.lookup]
        simp [hother]
    · rw [Index.mem_failures_add, h.mem_failures]
      by_cases hother : other = path
      · simp [hother, hmetadata]
      · simp [hother]

/-- The index accounts for the files as they are read, one after the other. -/
theorem Accounts.foldl {read : List Path} (h : Accounts fs read indexing.index) (paths : List Path) :
    Accounts fs (read ++ paths) (paths.foldl (Indexing.addFile fs) indexing).index := by
  induction paths generalizing read indexing with
  | nil => rwa [List.append_nil]
  | cons path paths ih =>
    rw [List.foldl_cons, List.append_cons]
    exact ih (h.addFile path)

/-- The index made by reading files accounts for exactly these. -/
theorem accounts_ofFiles (fs : FileSystem) (paths : List Path) : Accounts fs paths (ofFiles fs paths).index := by
  have hempty : Accounts fs [] (⟨.empty, []⟩ : Indexing).index := accounts_empty
  exact hempty.foldl paths

end Indexing

end DirectiveIndex
