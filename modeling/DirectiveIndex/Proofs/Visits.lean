import Mathlib
import DirectiveIndex.Proofs.Resolving
import DirectiveIndex.Proofs.Targets

namespace DirectiveIndex

section FirstOccurrences

variable {α : Type} [BEq α] [LawfulBEq α]

theorem nodup_eraseDups : (list : List α) → list.eraseDups.Nodup
  | [] => List.nodup_nil
  | a :: list => by
    rw [List.eraseDups_cons, List.nodup_cons, List.mem_eraseDups, List.mem_filter]
    exact ⟨fun hmem => by simp at hmem, nodup_eraseDups _⟩
termination_by list => list.length
decreasing_by exact Nat.lt_succ_of_le (List.length_filter_le _ _)

/-- Choosing elements and dropping later occurrences can be done in either order. -/
theorem eraseDups_filter (keep : α → Bool) : (list : List α) → (list.filter keep).eraseDups = list.eraseDups.filter keep
  | [] => rfl
  | a :: list => by
    have ih := eraseDups_filter keep (list.filter fun b => !b == a)
    rw [List.eraseDups_cons]
    by_cases ha : keep a = true
    · rw [List.filter_cons_of_pos ha, List.filter_cons_of_pos ha, List.eraseDups_cons, ← ih, List.filter_filter,
        List.filter_filter]
      simp only [Bool.and_comm]
    · rw [List.filter_cons_of_neg ha, List.filter_cons_of_neg ha, ← ih, List.filter_filter]
      refine congrArg List.eraseDups (List.filter_congr fun b _ => ?_)
      by_cases hb : b = a
      · simp [hb, ha]
      · simp [hb]
termination_by list => list.length
decreasing_by exact Nat.lt_succ_of_le (List.length_filter_le _ _)

/-- What occurs in a first list is dropped behind it. -/
theorem eraseDups_append_eq (first second : List α) :
    (first ++ second).eraseDups = first.eraseDups ++ second.eraseDups.filter fun a => !first.elem a := by
  rw [List.eraseDups_append, List.removeAll, eraseDups_filter]

end FirstOccurrences

/-- Whether a source can be read. -/
def FileSystem.isReadable (fs : FileSystem) (path : Path) : Bool :=
  (fs.readSource path).isOk

/-- The files that can be read are those with metadata. -/
theorem FileSystem.isReadable_eq (fs : FileSystem) (path : Path) :
    fs.isReadable path = (fs.metadataOf? path).isSome := by
  unfold isReadable metadataOf?
  cases fs.readSource path <;> rfl

/-- Whether a target stands for some files: those found in it if it is a directory, or else only itself, under its
resolved path. -/
def FileSystem.StandsFor (fs : FileSystem) (selection : Selection) (target : Path) (files : List Path) : Prop :=
  fs.isDirectory target = .ok true ∧ fs.sources selection target = .ok files ∨
    fs.isDirectory target = .ok false ∧ ∃ path, fs.resolve target = .ok path ∧ files = [path]

/-- What a target stands for is what is collected for it. -/
theorem FileSystem.standsFor_iff {fs : FileSystem} {selection : Selection} {target : Path} {files : List Path} :
    fs.StandsFor selection target files ↔ fs.filesOf selection target = .ok files := by
  rw [StandsFor]
  rcases @isDirectory_cases fs target with ⟨-, hdirectory⟩ | ⟨-, answer, hdirectory⟩
  · have hfiles : fs.filesOf selection target = .error (.refused .denied target) := by rw [filesOf, hdirectory]; rfl
    simp [hdirectory, hfiles]
  · rw [filesOf_eq hdirectory, hdirectory]
    cases answer with
    | true => simp
    | false =>
      rw [if_neg Bool.false_ne_true, map_eq_ok_iff]
      simp [eq_comm (a := files)]

namespace Indexing

variable {fs : FileSystem} {selection : Selection} {targets visited others : List Path} {indexing : Indexing}
  {index : Index} {path : Path}

/-- The files visited that can be read, each once, in the order of their first visits. -/
def readable (fs : FileSystem) (visited : List Path) : List Path :=
  (visited.filter fs.isReadable).eraseDups

/-- The readable files are those of the visited ones that can be read. -/
theorem mem_readable :
    path ∈ readable fs visited ↔ path ∈ visited ∧ ∃ metadata, fs.metadataOf? path = some metadata := by
  rw [readable, List.mem_eraseDups, List.mem_filter, FileSystem.isReadable_eq, Option.isSome_iff_exists]

/-- Files that are visited later are added behind those that have not been read before. -/
theorem readable_append (fs : FileSystem) (visited others : List Path) :
    readable fs (visited ++ others) =
      readable fs visited ++ (readable fs others).filter fun path => !(readable fs visited).elem path := by
  rw [readable, List.filter_append, eraseDups_append_eq]
  refine congrArg (readable fs visited ++ ·) (List.filter_congr fun path _ => ?_)
  simp [readable]

/-- One visited file is readable or not. -/
theorem readable_singleton (fs : FileSystem) (path : Path) :
    readable fs [path] = if fs.isReadable path then [path] else [] := by
  by_cases hread : fs.isReadable path = true
  · simp [readable, hread, List.eraseDups_cons]
  · simp [readable, hread]

/-- Another visit adds a path at the end if it can be read and has not been visited. -/
theorem readable_concat_of_some {metadata : Metadata} (h : fs.metadataOf? path = some metadata) :
    readable fs (visited ++ [path]) =
      if path ∈ readable fs visited then readable fs visited else readable fs visited ++ [path] := by
  have hread : fs.isReadable path = true := by rw [FileSystem.isReadable_eq, h]; rfl
  rw [readable_append, readable_singleton, if_pos hread]
  by_cases hmem : path ∈ readable fs visited
  · simp [hmem]
  · simp [hmem]

/-- A file that cannot be read adds nothing to the readable ones. -/
theorem readable_concat_of_none (h : fs.metadataOf? path = none) :
    readable fs (visited ++ [path]) = readable fs visited := by
  have hread : ¬ fs.isReadable path = true := by rw [FileSystem.isReadable_eq, h]; exact nofun
  rw [readable_append, readable_singleton, if_neg hread, List.filter_nil, List.append_nil]

/-- One more visited file is added to what the others have left. -/
theorem ofFiles_concat (fs : FileSystem) (visited : List Path) (path : Path) :
    ofFiles fs (visited ++ [path]) = (ofFiles fs visited).addFile fs path := by
  rw [ofFiles, List.foldl_append]
  rfl

/-- The entries come in the order of the first visits. -/
theorem paths_ofFiles (fs : FileSystem) (visited : List Path) :
    (ofFiles fs visited).index.paths = readable fs visited := by
  induction visited using List.reverseRecOn with
  | nil => rfl
  | append_singleton visited path ih =>
    rw [ofFiles_concat, index_addFile]
    cases hmetadata : fs.metadataOf? path with
    | none =>
      have hnot : path ∉ readable fs visited := by simp [mem_readable, hmetadata]
      rw [readable_concat_of_none hmetadata, Index.paths_addFailure, ih]
      exact List.filter_eq_self.2 fun other hother => bne_iff_ne.2 fun heq => hnot (heq ▸ hother)
    | some metadata =>
      rw [readable_concat_of_some hmetadata, ← ih]
      by_cases hmem : path ∈ (ofFiles fs visited).index.paths
      · rw [if_pos hmem]
        exact Index.paths_add_of_mem hmem
      · rw [if_neg hmem]
        exact Index.paths_add_of_not_mem hmem

/-- No file has failed twice. -/
theorem nodup_failures_ofFiles (fs : FileSystem) (visited : List Path) : (ofFiles fs visited).index.failures.Nodup := by
  induction visited using List.reverseRecOn with
  | nil => exact List.nodup_nil
  | append_singleton visited path ih =>
    rw [ofFiles_concat, index_addFile]
    cases fs.metadataOf? path with
    | none => exact Index.nodup_failures_addFailure ih
    | some metadata => exact Index.nodup_failures_add ih

/-- No file has two entries. -/
theorem nodup_paths_ofFiles (fs : FileSystem) (visited : List Path) : (ofFiles fs visited).index.paths.Nodup := by
  rw [paths_ofFiles]
  exact nodup_eraseDups _

/-- The entries are the visited files that can be read, with their metadata. -/
theorem mem_entries_ofFiles {entry : Path × Metadata} :
    entry ∈ (ofFiles fs visited).index.entries ↔ entry.1 ∈ visited ∧ fs.metadataOf? entry.1 = some entry.2 := by
  rw [OrderedMap.mem_iff_lookup (nodup_paths_ofFiles fs visited), (accounts_ofFiles fs visited).lookup]
  by_cases hvisited : entry.1 ∈ visited
  · simp [hvisited]
  · simp [hvisited]

/-- What an index says of the files that have been visited. -/
structure Summarizes (fs : FileSystem) (visited : List Path) (index : Index) : Prop where
  /-- The entries are the files that can be read, each once and in the order of the first visits. -/
  paths_eq : index.paths = (visited.filter fs.isReadable).eraseDups
  nodup_paths : index.paths.Nodup
  get_eq : ∀ path ∈ index.paths, ∃ source, fs.readSource path = .ok source ∧ index.get path = extract source
  /-- The failures are the files that cannot be read. -/
  mem_failures : ∀ path, path ∈ index.failures ↔ path ∈ visited ∧ ∃ reason, fs.readSource path = .error reason
  nodup_failures : index.failures.Nodup

/-- The index of some files summarizes them. -/
theorem summarizes_ofFiles (fs : FileSystem) (visited : List Path) :
    Summarizes fs visited (ofFiles fs visited).index where
  paths_eq := paths_ofFiles fs visited
  nodup_paths := nodup_paths_ofFiles fs visited
  get_eq path hpath := by
    obtain ⟨metadata, hfound⟩ := Index.mem_paths_iff.1 hpath
    have hlookup := (accounts_ofFiles fs visited).lookup path
    rw [paths_ofFiles, mem_readable] at hpath
    rw [if_pos hpath.1, FileSystem.metadataOf?, hfound] at hlookup
    obtain ⟨source, hsource, hmetadata⟩ := Option.map_eq_some_iff.1 hlookup.symm
    refine ⟨source, ?_, ?_⟩
    · cases hread : fs.readSource path with
      | error reason => rw [hread] at hsource; cases hsource
      | ok text => rw [hread] at hsource; exact congrArg Except.ok (Option.some.inj hsource)
    · rw [Index.get, hfound, Option.getD_some, hmetadata]
  mem_failures path := by
    rw [(accounts_ofFiles fs visited).mem_failures, FileSystem.metadataOf?]
    cases fs.readSource path <;> simp [Except.toOption]
  nodup_failures := nodup_failures_ofFiles fs visited

/-- Two indexes of the same visited files differ in their order only. -/
theorem perm_ofFiles (h : ∀ path, path ∈ others ↔ path ∈ visited) :
    (ofFiles fs others).index.entries.Perm (ofFiles fs visited).index.entries ∧
      (ofFiles fs others).index.failures.Perm (ofFiles fs visited).index.failures := by
  constructor
  · refine OrderedMap.perm_of_lookup_eq (nodup_paths_ofFiles fs others) (nodup_paths_ofFiles fs visited) fun path => ?_
    rw [(accounts_ofFiles fs others).lookup, (accounts_ofFiles fs visited).lookup]
    simp only [h]
  · refine (List.perm_ext_iff_of_nodup (nodup_failures_ofFiles fs others) (nodup_failures_ofFiles fs visited)).2 ?_
    intro path
    rw [(accounts_ofFiles fs others).mem_failures, (accounts_ofFiles fs visited).mem_failures, h]

/-- The index of targets depends on the files that they stand for, in the order of the first visits. Targets in another
order or with other repetitions give the same entries and failures, in another order at most; and two lists of targets
together give the entries and failures of both, those of the first list first. -/
theorem ofTargets_summarizes (h : ofTargets fs selection targets = .ok indexing) :
    (∃ files, List.Forall₂ (fs.StandsFor selection) targets files ∧ Summarizes fs files.flatten indexing.index) ∧
      (∀ others, (∀ target, target ∈ others ↔ target ∈ targets) →
        ∃ reordered, ofTargets fs selection others = .ok reordered ∧
          reordered.index.entries.Perm indexing.index.entries ∧
          reordered.index.failures.Perm indexing.index.failures) ∧
      ∀ others apart, ofTargets fs selection others = .ok apart →
        ∃ together, ofTargets fs selection (targets ++ others) = .ok together ∧
          together.index.paths = indexing.index.paths ++
            apart.index.paths.filter (fun path => !indexing.index.paths.elem path) ∧
          (∀ entry, entry ∈ together.index.entries ↔ entry ∈ indexing.index.entries ∨ entry ∈ apart.index.entries) ∧
          ∀ path, path ∈ together.index.failures ↔ path ∈ indexing.index.failures ∨ path ∈ apart.index.failures := by
  rw [ofTargets_eq] at h
  obtain ⟨files, hfiles, rfl⟩ := map_eq_ok_iff.1 h
  refine ⟨⟨files, ?_, summarizes_ofFiles fs files.flatten⟩, fun others hsame => ?_, fun others apart hapart => ?_⟩
  · have hstands := mapM_eq_ok_iff.1 hfiles
    rw [← List.forall₂_eq_eq_eq, List.forall₂_map_left_iff, List.forall₂_map_right_iff] at hstands
    exact hstands.imp fun _ _ heq => FileSystem.standsFor_iff.2 heq
  · have haccessible := exists_mapM_eq_ok_iff.1 ⟨files, hfiles⟩
    obtain ⟨found, hfound⟩ :=
      exists_mapM_eq_ok_iff.2 fun target htarget => haccessible target ((hsame target).1 htarget)
    refine ⟨ofFiles fs found.flatten, by rw [ofTargets_eq, hfound]; rfl, perm_ofFiles fun path => ?_⟩
    rw [mem_flatten_of_mapM_eq_ok hfound, mem_flatten_of_mapM_eq_ok hfiles]
    simp only [hsame]
  · rw [ofTargets_eq] at hapart
    obtain ⟨found, hfound, rfl⟩ := map_eq_ok_iff.1 hapart
    have htogether : (targets ++ others).mapM (fs.filesOf selection) = .ok (files ++ found) := by
      rw [mapM_eq_ok_iff, List.map_append, List.map_append, mapM_eq_ok_iff.1 hfiles, mapM_eq_ok_iff.1 hfound]
    refine ⟨ofFiles fs (files ++ found).flatten, by rw [ofTargets_eq, htogether]; rfl, ?_, fun entry => ?_,
      fun path => ?_⟩
    · rw [List.flatten_append, paths_ofFiles, paths_ofFiles, paths_ofFiles, readable_append]
    · rw [List.flatten_append, mem_entries_ofFiles, mem_entries_ofFiles, mem_entries_ofFiles, List.mem_append,
        or_and_right]
    · rw [List.flatten_append, (accounts_ofFiles fs _).mem_failures, (accounts_ofFiles fs _).mem_failures,
        (accounts_ofFiles fs _).mem_failures, List.mem_append, or_and_right]

/-- A directory with a source, a file that is no text, and a file that is not looked for. -/
def mixedDirectory : FileSystem :=
  ⟨[([['d']], ⟨.directory, false⟩), ([['d'], "a.sol".toList], ⟨.file (Utf8.encode "import 'p';".toList), false⟩),
    ([['d'], "b.sol".toList], ⟨.file [0xFF], false⟩), ([['d'], ['c']], ⟨.file [], false⟩)], []⟩

/-- Everything with the usual suffix. -/
def solSelection : Selection :=
  ⟨Selection.defaultSuffixes, [], none⟩

theorem resolve_mixedDirectory (path : Path) (h : path.root = .absolute ∧ path.holdsNul = false ∧
    FileSystem.collapse [] path.names = path.names) : mixedDirectory.resolve path = .ok path := by
  have hlinks : mixedDirectory.HasNoLinks := by decide
  exact hlinks.resolve_eq_self h.1 h.2.1 h.2.2

theorem sources_mixedDirectory :
    mixedDirectory.sources solSelection ⟨.absolute, [['d']]⟩ =
      .ok [⟨.absolute, [['d'], "a.sol".toList]⟩, ⟨.absolute, [['d'], "b.sol".toList]⟩] := by
  have hresolve := resolve_mixedDirectory ⟨.absolute, [['d']]⟩ (by decide)
  have hlookup : mixedDirectory.lookup ⟨.absolute, [['d']]⟩ = .ok (⟨[['d']], 40⟩, ⟨.directory, false⟩) := by cbv
  have hsearch : mixedDirectory.search [['d']] = .ok () := by cbv
  rw [FileSystem.sources_eq hresolve, hlookup]
  dsimp only
  rw [if_neg (by decide), FileSystem.sourcesBelow_of_open rfl hsearch]
  cbv

/-- A file and the directory that holds it; then the directory twice with the file between. -/
theorem ofTargets_summarizes_mixedDirectory :
    ∃ indexing,
      ofTargets mixedDirectory solSelection [⟨.absolute, [['d'], ['c']]⟩, ⟨.absolute, [['d']]⟩] = .ok indexing ∧
      (∃ files, List.Forall₂ (mixedDirectory.StandsFor solSelection)
          [⟨.absolute, [['d'], ['c']]⟩, ⟨.absolute, [['d']]⟩] files ∧
        Summarizes mixedDirectory files.flatten indexing.index) ∧
      ∃ reordered, ofTargets mixedDirectory solSelection
          [⟨.absolute, [['d']]⟩, ⟨.absolute, [['d'], ['c']]⟩, ⟨.absolute, [['d']]⟩] = .ok reordered ∧
        reordered.index.entries.Perm indexing.index.entries ∧
        reordered.index.failures.Perm indexing.index.failures := by
  have hfile : mixedDirectory.isDirectory ⟨.absolute, [['d'], ['c']]⟩ = .ok false := by cbv
  have hdirectory : mixedDirectory.isDirectory ⟨.absolute, [['d']]⟩ = .ok true := by cbv
  have hresolve := resolve_mixedDirectory ⟨.absolute, [['d'], ['c']]⟩ (by decide)
  have hindexing : ∃ indexing,
      ofTargets mixedDirectory solSelection [⟨.absolute, [['d'], ['c']]⟩, ⟨.absolute, [['d']]⟩] = .ok indexing := by
    rw [ofTargets_eq, List.mapM_cons, List.mapM_cons, FileSystem.filesOf_eq hfile, FileSystem.filesOf_eq hdirectory,
      hresolve, if_pos rfl, sources_mixedDirectory]
    exact ⟨_, rfl⟩
  obtain ⟨indexing, h⟩ := hindexing
  obtain ⟨hsummary, hreordered, -⟩ := ofTargets_summarizes h
  exact ⟨indexing, h, hsummary, hreordered _ (by simp)⟩

end Indexing

end DirectiveIndex
