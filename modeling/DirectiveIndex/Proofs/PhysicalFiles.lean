import DirectiveIndex.Proofs.LinkFree
import DirectiveIndex.Proofs.Sources
import DirectiveIndex.Proofs.Visits

namespace DirectiveIndex

/-- The paths in an index, those of the failures included. -/
def Index.allPaths (index : Index) : List Path :=
  index.paths ++ index.failures

namespace FileSystem

variable {fs : FileSystem} {selection : Selection} {target path other : Path} {location : Location} {names : List Text}
  {files : List Path} {place next : Place} {text : Text}

/-- Whether two paths resolve to the same one. -/
def SameFile (fs : FileSystem) (path other : Path) : Prop :=
  ∃ resolved, fs.resolve path = .ok resolved ∧ fs.resolve other = .ok resolved

/-- Being the same file is symmetric. -/
theorem SameFile.symm (h : fs.SameFile path other) : fs.SameFile other path := by
  obtain ⟨resolved, hpath, hother⟩ := h
  exact ⟨resolved, hother, hpath⟩

/-- Whether a path from the root leads through a link that can be seen. -/
def LeadsThroughLink (fs : FileSystem) (path : Path) : Prop :=
  ∃ count, (fs.visibleTarget? (path.names.take count)).isSome

/-- Without links, no path leads through one. -/
theorem HasNoLinks.not_leadsThroughLink (hlinks : fs.HasNoLinks) (path : Path) : ¬ fs.LeadsThroughLink path := by
  rintro ⟨count, hlink⟩
  rw [hlinks.visibleTarget?_eq_none] at hlink
  cases hlink

/-- Whether a path starts at the root and has names only that something in a directory can have. -/
structure IsAbsolute (path : Path) : Prop where
  root : path.root = .absolute
  names : IsOrdinary path.names

namespace IsAbsolute

variable (hpath : IsAbsolute path)
include hpath

/-- An absolute path holds no NUL. -/
theorem holdsNul : path.holdsNul = false :=
  Path.holdsNul_eq_false fun name hname => (hpath.names name hname).2.2.2

/-- An absolute path starts at the root. -/
theorem startOf (fs : FileSystem) : fs.startOf path = [] := by
  rw [FileSystem.startOf, hpath.root]
  rfl

end IsAbsolute

/-- An absolute path leads through no link if its names are free of them. -/
theorem not_leadsThroughLink_iff : ¬ fs.LeadsThroughLink path ↔ fs.IsLinkFree path.names := by
  simp only [LeadsThroughLink, not_exists, Option.not_isSome_iff_eq_none]
  constructor
  · intro h directory hdirectory
    rw [List.prefix_iff_eq_take.1 hdirectory]
    exact h directory.length
  · exact fun h count => h _ (List.take_prefix count path.names)

/-- A path that leads through no link resolves to itself. -/
theorem resolve_of_not_leadsThroughLink (hpath : IsAbsolute path) (hlinks : ¬ fs.LeadsThroughLink path) :
    fs.resolve path = .ok path := by
  obtain ⟨root, names⟩ := path
  obtain ⟨rfl, hnames⟩ : root = .absolute ∧ IsOrdinary names := ⟨hpath.root, hpath.names⟩
  have hfree : fs.IsLinkFree names := not_leadsThroughLink_iff.1 hlinks
  have hfollowed : fs.followed ⟨.absolute, names⟩ = .arrived ⟨none, names⟩ :=
    follow_of_isLinkFree (.inl rfl) hnames hfree
  refine resolve_eq_ok_iff.2 ⟨hpath.holdsNul, rfl, ?_, IsReal.root.walk_ne_tooManyLinks hfree hnames linkLimit⟩
  rw [hfollowed]
  rfl

/-- Of two different paths of the same file, one leads through a link. -/
theorem SameFile.leadsThroughLink (h : fs.SameFile path other) (hpath : IsAbsolute path) (hother : IsAbsolute other)
    (hne : path ≠ other) : fs.LeadsThroughLink path ∨ fs.LeadsThroughLink other := by
  by_contra hlinks
  obtain ⟨hlinks, hlinks'⟩ := not_or.1 hlinks
  obtain ⟨resolved, hresolve, hresolve'⟩ := h
  rw [resolve_of_not_leadsThroughLink hpath hlinks] at hresolve
  rw [resolve_of_not_leadsThroughLink hother hlinks'] at hresolve'
  exact hne ((Except.ok.inj hresolve).trans (Except.ok.inj hresolve').symm)

/-- Where a path leads that can be looked up, it resolves to the path of that place. -/
theorem resolve_of_isAbsolute (hpath : IsAbsolute path) (hlocate : fs.locate path = .ok place) :
    fs.resolve path = .ok (pathOf place.location) := by
  refine resolve_of_locate hlocate ?_ hpath.holdsNul
  rw [hpath.startOf]
  exact .root

/-- Two paths that can be looked up are the same file if and only if they lead to the same location. -/
theorem sameFile_iff (hpath : IsAbsolute path) (hother : IsAbsolute other) (hplace : fs.locate path = .ok place)
    (hnext : fs.locate other = .ok next) : fs.SameFile path other ↔ place.location = next.location := by
  rw [SameFile, resolve_of_isAbsolute hpath hplace, resolve_of_isAbsolute hother hnext]
  constructor
  · rintro ⟨resolved, heq, heq'⟩
    exact congrArg Path.names ((Except.ok.inj heq).trans (Except.ok.inj heq').symm)
  · intro heq
    exact ⟨pathOf place.location, rfl, by rw [heq]⟩

/-- What can be read can be looked up, and whatever else leads to the same location reads the same. -/
theorem exists_locate_of_readSource (h : fs.readSource path = .ok text) :
    ∃ place, fs.locate path = .ok place ∧
      ∀ other next, fs.locate other = .ok next → next.location = place.location → fs.readSource other = .ok text := by
  cases hlookup : fs.lookup path with
  | error cause =>
    rw [readSource, readBytes, hlookup] at h
    cases h
  | ok found =>
    obtain ⟨place, node⟩ := found
    obtain ⟨hplace, hnode⟩ := lookup_eq_ok_iff.1 hlookup
    refine ⟨place, hplace, fun other next hnext heq => ?_⟩
    have hthere : fs.lookup other = .ok (next, node) := lookup_eq_ok_iff.2 ⟨hnext, heq ▸ hnode⟩
    rw [readSource, readBytes, hlookup] at h
    rw [readSource, readBytes, hthere]
    dsimp only at h ⊢
    cases hdenied : node.denied with
    | true =>
      rw [hdenied, if_pos rfl] at h
      cases h
    | false =>
      rw [hdenied, if_neg Bool.false_ne_true] at h
      rw [if_neg Bool.false_ne_true]
      obtain ⟨content, denied⟩ := node
      cases content with
      | file bytes => exact h
      | directory => cases h
      | link target => cases h

/-- All files that a target stands for have absolute paths. -/
theorem isAbsolute_of_mem_filesOf (htree : fs.IsTree) (h : fs.filesOf selection target = .ok files)
    (hpath : path ∈ files) : IsAbsolute path := by
  rcases standsFor_iff.2 h with ⟨-, hsources⟩ | ⟨-, resolved, hresolve, rfl⟩
  · obtain ⟨root, hresolve, -⟩ := bind_eq_ok_iff.1 hsources
    obtain ⟨place, -, names, last, name, hdescends, -, hholds, rfl⟩ := (mem_sources_iff hresolve hsources).1 hpath
    have hroot : root.root = .absolute := root_of_resolve hresolve
    refine ⟨hroot, List.forall_mem_append.2 ⟨htree.isOrdinary_of_resolve hresolve, ?_⟩⟩
    exact (hdescends.isOrdinary htree).child (htree.isOrdinary_of_mem_namesIn hholds.mem)
  · rw [List.mem_singleton.1 hpath]
    exact ⟨root_of_resolve hresolve, htree.isOrdinary_of_resolve hresolve⟩

end FileSystem

namespace Indexing

open FileSystem

variable {fs : FileSystem} {selection : Selection} {targets visited : List Path} {indexing : Indexing} {path : Path}

/-- An index holds the files visited. -/
theorem mem_allPaths_ofFiles : path ∈ (ofFiles fs visited).index.allPaths ↔ path ∈ visited := by
  rw [Index.allPaths, List.mem_append, paths_ofFiles, mem_readable, (accounts_ofFiles fs visited).mem_failures,
    ← and_or_left, and_iff_left_iff_imp]
  intro _
  cases fs.metadataOf? path with
  | none => exact .inr rfl
  | some metadata => exact .inl ⟨metadata, rfl⟩

/-- No path is in an index twice, nor both as an entry and as a failure. -/
theorem nodup_allPaths_ofFiles (fs : FileSystem) (visited : List Path) :
    (ofFiles fs visited).index.allPaths.Nodup := by
  refine List.nodup_append.2 ⟨nodup_paths_ofFiles fs visited, nodup_failures_ofFiles fs visited, ?_⟩
  rintro path hpath _ hfailure rfl
  rw [paths_ofFiles, mem_readable] at hpath
  obtain ⟨-, metadata, hmetadata⟩ := hpath
  rw [(accounts_ofFiles fs visited).mem_failures, hmetadata] at hfailure
  cases hfailure.2

/-- Whether no two paths in an index are the same file. -/
def HoldsFilesOnce (fs : FileSystem) (index : Index) : Prop :=
  index.allPaths.Pairwise fun path other => ¬ fs.SameFile path other

/-- An index that holds its files once holds no two paths of one file. -/
theorem HoldsFilesOnce.eq_of_sameFile {index : Index} {other : Path} (honce : HoldsFilesOnce fs index)
    (hpath : path ∈ index.allPaths) (hother : other ∈ index.allPaths) (hsame : fs.SameFile path other) :
    path = other := by
  by_contra hne
  have hsymm : Std.Symm fun path other => ¬ fs.SameFile path other := ⟨fun _ _ hnot h => hnot h.symm⟩
  exact honce.forall hpath hother hne hsame

/-- What the paths in an index say of the files that they lead to. -/
structure Identifies (fs : FileSystem) (index : Index) : Prop where
  nodup : index.allPaths.Nodup
  /-- Without links on the way, different paths are different files. -/
  leadsThroughLink : ∀ path ∈ index.allPaths, ∀ other ∈ index.allPaths, fs.SameFile path other → path ≠ other →
    fs.LeadsThroughLink path ∨ fs.LeadsThroughLink other
  /-- Entries are the same file if they lead to the same location, and then they have the same metadata. -/
  sameFile_iff : ∀ path ∈ index.paths, ∀ other ∈ index.paths, ∃ place next, fs.locate path = .ok place ∧
    fs.locate other = .ok next ∧ (fs.SameFile path other ↔ place.location = next.location) ∧
    (fs.SameFile path other → index.get path = index.get other)

/-- The index of absolute paths identifies their files. -/
theorem identifies_ofFiles (habsolute : ∀ path ∈ visited, IsAbsolute path) :
    Identifies fs (ofFiles fs visited).index where
  nodup := nodup_allPaths_ofFiles fs visited
  leadsThroughLink path hpath other hother hsame hne := by
    rw [mem_allPaths_ofFiles] at hpath hother
    exact hsame.leadsThroughLink (habsolute path hpath) (habsolute other hother) hne
  sameFile_iff path hpath other hother := by
    have hget := (summarizes_ofFiles fs visited).get_eq
    obtain ⟨text, htext, hmetadata⟩ := hget path hpath
    obtain ⟨text', htext', hmetadata'⟩ := hget other hother
    obtain ⟨next, hnext, -⟩ := exists_locate_of_readSource htext'
    obtain ⟨place, hplace, hread⟩ := exists_locate_of_readSource htext
    have hpath' := habsolute path (mem_allPaths_ofFiles.1 (List.mem_append_left _ hpath))
    have hother' := habsolute other (mem_allPaths_ofFiles.1 (List.mem_append_left _ hother))
    have hsame := FileSystem.sameFile_iff hpath' hother' hplace hnext
    refine ⟨place, next, hplace, hnext, hsame, fun h => ?_⟩
    have heq := (hread other next hnext (hsame.1 h).symm).symm.trans htext'
    rw [hmetadata, hmetadata', Except.ok.inj heq]

/-- Two different paths in an index are the same file only if one of them leads through a link, and entries of the same
file have the same metadata. So an index holds each file once if and only if no path in it that leads through a link is
the same file as another one, and it always does so in a file system without links. -/
theorem ofTargets_identifies (htree : fs.IsTree) (h : ofTargets fs selection targets = .ok indexing) :
    Identifies fs indexing.index ∧
      (HoldsFilesOnce fs indexing.index ↔ ∀ path ∈ indexing.index.allPaths, fs.LeadsThroughLink path →
        ∀ other ∈ indexing.index.allPaths, fs.SameFile path other → path = other) ∧
      (fs.HasNoLinks → HoldsFilesOnce fs indexing.index) := by
  rw [ofTargets_eq] at h
  obtain ⟨files, hfiles, rfl⟩ := map_eq_ok_iff.1 h
  have habsolute : ∀ path ∈ files.flatten, IsAbsolute path := by
    intro path hpath
    obtain ⟨target, -, found, hfound, hmem⟩ := (mem_flatten_of_mapM_eq_ok hfiles).1 hpath
    exact isAbsolute_of_mem_filesOf htree hfound hmem
  have hidentifies : Identifies fs (ofFiles fs files.flatten).index := identifies_ofFiles habsolute
  have honce : HoldsFilesOnce fs (ofFiles fs files.flatten).index ↔
      ∀ path ∈ (ofFiles fs files.flatten).index.allPaths, fs.LeadsThroughLink path →
        ∀ other ∈ (ofFiles fs files.flatten).index.allPaths, fs.SameFile path other → path = other := by
    constructor
    · exact fun honce path hpath _ other hother hsame => honce.eq_of_sameFile hpath hother hsame
    · intro hlinks
      refine hidentifies.nodup.pairwise_of_forall_ne fun path hpath other hother hne hsame => ?_
      rcases hidentifies.leadsThroughLink path hpath other hother hsame hne with hlink | hlink
      · exact hne (hlinks path hpath hlink other hother hsame)
      · exact hne (hlinks other hother hlink path hpath hsame.symm).symm
  refine ⟨hidentifies, honce, fun hnone => honce.2 fun path _ hlink => ?_⟩
  exact absurd hlink (hnone.not_leadsThroughLink path)

/-- The index of the directory with a link. -/
theorem ofTargets_linkedTree :
    ofTargets linkedTree usualSelection [⟨.absolute, [['r']]⟩] =
      .ok (ofFiles linkedTree [⟨.absolute, [['r'], ['a'], "x.sol".toList]⟩, ⟨.absolute, [['r'], "a-b.sol".toList]⟩,
        ⟨.absolute, [['r'], ['l'], "x.sol".toList]⟩]) := by
  have hdirectory : linkedTree.isDirectory ⟨.absolute, [['r']]⟩ = .ok true := by cbv
  rw [ofTargets_eq, List.mapM_cons, filesOf_eq hdirectory, if_pos rfl, sources_linkedTree]
  rfl

/-- The file in the directory and the same file come to by the link. -/
theorem sameFile_linkedTree :
    linkedTree.SameFile ⟨.absolute, [['r'], ['a'], "x.sol".toList]⟩ ⟨.absolute, [['r'], ['l'], "x.sol".toList]⟩ := by
  have hfile : linkedTree.locate ⟨.absolute, [['r'], ['a'], "x.sol".toList]⟩ =
      .ok ⟨[['r'], ['a'], "x.sol".toList], 40⟩ := by cbv
  have hlink : linkedTree.locate ⟨.absolute, [['r'], ['l'], "x.sol".toList]⟩ =
      .ok ⟨[['r'], ['a'], "x.sol".toList], 39⟩ := by cbv
  exact (FileSystem.sameFile_iff ⟨rfl, by decide⟩ ⟨rfl, by decide⟩ hfile hlink).2 rfl

/-- A directory that holds a link to another directory in it: what lies there is in the index twice. -/
theorem ofTargets_holds_linked_twice :
    linkedTree.IsTree ∧ ∃ indexing, ofTargets linkedTree usualSelection [⟨.absolute, [['r']]⟩] = .ok indexing ∧
      ¬ HoldsFilesOnce linkedTree indexing.index := by
  refine ⟨by decide, _, ofTargets_linkedTree, fun honce => ?_⟩
  have heq := honce.eq_of_sameFile (mem_allPaths_ofFiles.2 (by decide)) (mem_allPaths_ofFiles.2 (by decide))
    sameFile_linkedTree
  revert heq
  decide

/-- There the two paths of the file differ in that one of them leads through the link; in a directory without links each
file has one path. -/
theorem ofTargets_identifies_linkedTree :
    (linkedTree.IsTree ∧ ∃ indexing, ofTargets linkedTree usualSelection [⟨.absolute, [['r']]⟩] = .ok indexing ∧
      Identifies linkedTree indexing.index ∧
      (HoldsFilesOnce linkedTree indexing.index ↔ ∀ path ∈ indexing.index.allPaths, linkedTree.LeadsThroughLink path →
        ∀ other ∈ indexing.index.allPaths, linkedTree.SameFile path other → path = other)) ∧
      mixedDirectory.HasNoLinks ∧ ∃ indexing,
        ofTargets mixedDirectory solSelection [⟨.absolute, [['d']]⟩] = .ok indexing ∧
          HoldsFilesOnce mixedDirectory indexing.index := by
  have htree : linkedTree.IsTree := by decide
  have hmixed : mixedDirectory.IsTree := by decide
  have hnone : mixedDirectory.HasNoLinks := by decide
  have hdirectory : mixedDirectory.isDirectory ⟨.absolute, [['d']]⟩ = .ok true := by cbv
  have hindexing : ∃ indexing, ofTargets mixedDirectory solSelection [⟨.absolute, [['d']]⟩] = .ok indexing := by
    rw [ofTargets_eq, List.mapM_cons, filesOf_eq hdirectory, if_pos rfl, sources_mixedDirectory]
    exact ⟨_, rfl⟩
  obtain ⟨hidentifies, honce, -⟩ := ofTargets_identifies htree ofTargets_linkedTree
  obtain ⟨indexing, hindexing⟩ := hindexing
  exact ⟨⟨htree, _, ofTargets_linkedTree, hidentifies, honce⟩, hnone, indexing, hindexing,
    (ofTargets_identifies hmixed hindexing).2.2 hnone⟩

end Indexing

end DirectiveIndex
