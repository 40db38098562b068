import DirectiveIndex.Proofs.Indexes
import DirectiveIndex.Proofs.Resolving
import DirectiveIndex.Proofs.Walk

namespace DirectiveIndex

namespace FileSystem

variable {fs : FileSystem} {selection : Selection} {target : Path}

/-- A target that leads through a closed directory cannot even be looked at; all others can. -/
theorem isDirectory_cases :
    fs.lookup target = .error .denied ∧ fs.isDirectory target = .error (.refused .denied target) ∨
      fs.lookup target ≠ .error .denied ∧ ∃ answer, fs.isDirectory target = .ok answer := by
  unfold isDirectory find
  cases hlookup : fs.lookup target with
  | error cause =>
    by_cases hdenied : cause = .denied
    · rw [hdenied]
      exact .inl ⟨rfl, rfl⟩
    · refine .inr ⟨fun h => hdenied (Except.error.inj h), ?_⟩
      split
      · rename_i h
        exact absurd (Except.error.inj h) hdenied
      · exact ⟨_, rfl⟩
      · exact ⟨_, rfl⟩
  | ok found => exact .inr ⟨nofun, _, rfl⟩

/-- Whether the sources of the directory at a resolved path can be found: nothing is looked for so far down, or the
path leads through a closed directory, where nothing is found, or it leads to a directory that a walk gets through. -/
def IsSearchable (fs : FileSystem) (selection : Selection) (path : Path) : Prop :=
  selection.isTooDeep 0 = true ∨ fs.lookup path = .error .denied ∨
    ∃ place node, fs.lookup path = .ok (place, node) ∧ fs.IsWalkable selection place 0

/-- Whether a target can be looked at and resolved and, if it is a directory, searched. -/
def IsAccessible (fs : FileSystem) (selection : Selection) (target : Path) : Prop :=
  fs.lookup target ≠ .error .denied ∧ ∃ path, fs.resolve target = .ok path ∧
    (fs.isDirectory target = .ok true → fs.IsSearchable selection path)

/-- What is found in a directory, from the resolved form of its path. -/
theorem sources_eq {path : Path} (hresolve : fs.resolve target = .ok path) :
    fs.sources selection target =
      if selection.isTooDeep 0 then .ok []
      else match fs.lookup path with
        | .error cause => if cause = .denied then .ok [] else .error (.refused cause path)
        | .ok (place, _) => fs.sourcesBelow selection path place 0 := by
  unfold sources
  rw [hresolve]
  cases hdepth : selection.isTooDeep 0 with
  | true => rfl
  | false =>
    cases hlookup : fs.lookup path with
    | error cause =>
      cases cause <;> simp [hlookup, bind, Except.bind, pure, Except.pure, throw, throwThe, MonadExceptOf.throw]
    | ok found => simp [bind, Except.bind, hlookup]

/-- A search succeeds if what is searched can be gone through. -/
theorem exists_sources_iff {path : Path} (hresolve : fs.resolve target = .ok path) :
    (∃ files, fs.sources selection target = .ok files) ↔ fs.IsSearchable selection path := by
  rw [sources_eq hresolve, IsSearchable]
  by_cases hdepth : selection.isTooDeep 0 = true
  · rw [if_pos hdepth]
    exact ⟨fun _ => .inl hdepth, fun _ => ⟨[], rfl⟩⟩
  · rw [if_neg hdepth, or_iff_right hdepth]
    cases hlookup : fs.lookup path with
    | error cause =>
      by_cases hdenied : cause = .denied
      · simp [hdenied]
      · simp [hdenied]
    | ok found =>
      obtain ⟨place, node⟩ := found
      simp [exists_sourcesBelow_iff]

/-- The files that a target stands for, once it is known whether it is a directory. -/
theorem filesOf_eq {answer : Bool} (hdirectory : fs.isDirectory target = .ok answer) :
    fs.filesOf selection target =
      if answer then fs.sources selection target else (fs.resolve target).map ([·]) := by
  unfold filesOf
  rw [hdirectory]
  cases answer <;> rfl

/-- A target stands for files if it can be accessed. -/
theorem exists_filesOf_iff :
    (∃ files, fs.filesOf selection target = .ok files) ↔ fs.IsAccessible selection target := by
  rcases isDirectory_cases with ⟨hlookup, hdirectory⟩ | ⟨hlookup, answer, hdirectory⟩
  · unfold filesOf
    rw [hdirectory]
    exact ⟨fun ⟨_, h⟩ => (nomatch h), fun h => absurd hlookup h.1⟩
  · rw [filesOf_eq hdirectory, IsAccessible, hdirectory, and_iff_right hlookup]
    cases hresolve : fs.resolve target with
    | error error =>
      have hsources : fs.sources selection target = .error error := by
        rw [sources, hresolve]
        rfl
      rw [hsources]
      refine ⟨fun ⟨_, h⟩ => ?_, fun ⟨_, h, _⟩ => (nomatch h)⟩
      cases answer <;> cases h
    | ok path =>
      refine Iff.trans ?_ ⟨fun h => ⟨path, rfl, h⟩, fun ⟨_, heq, h⟩ => Except.ok.inj heq ▸ h⟩
      cases answer with
      | true => simp [exists_sources_iff hresolve]
      | false => exact ⟨fun _ => nofun, fun _ => ⟨[path], rfl⟩⟩

end FileSystem

namespace Indexing

open FileSystem

variable {fs : FileSystem} {selection : Selection} {targets : List Path}

/-- The targets are collected first and read then. -/
theorem ofTargets_eq :
    ofTargets fs selection targets =
      (targets.mapM (fs.filesOf selection)).map fun files => ofFiles fs files.flatten := by
  unfold ofTargets
  cases targets.mapM (fs.filesOf selection) <;> rfl

/-- A target that is no directory is among the files read, under its resolved path. -/
theorem exists_mem_flatten {files : List (List Path)} (h : targets.mapM (fs.filesOf selection) = .ok files)
    {target : Path} (htarget : target ∈ targets) (hfile : fs.isDirectory target = .ok false) :
    ∃ path, fs.resolve target = .ok path ∧ path ∈ files.flatten := by
  obtain ⟨found, hfound⟩ := exists_mapM_eq_ok_iff.1 ⟨files, h⟩ target htarget
  have hmem := mem_of_mapM_eq_ok h htarget hfound
  rw [filesOf_eq hfile, if_neg Bool.false_ne_true] at hfound
  obtain ⟨path, hresolve, rfl⟩ := map_eq_ok_iff.1 hfound
  exact ⟨path, hresolve, List.mem_flatten.2 ⟨[path], hmem, List.mem_singleton_self path⟩⟩

/-- Indexing targets gives an index if and only if all of them are accessible, whatever files there are that cannot be
read; and then each target that is no directory is in the index under its resolved path, with the metadata of its source
or as a failure. -/
theorem ofTargets_accounts (fs : FileSystem) (selection : Selection) (targets : List Path) :
    ((∃ indexing, ofTargets fs selection targets = .ok indexing) ↔
        ∀ target ∈ targets, fs.IsAccessible selection target) ∧
      ∀ indexing, ofTargets fs selection targets = .ok indexing →
        ∀ target ∈ targets, fs.isDirectory target = .ok false →
          ∃ path, fs.resolve target = .ok path ∧
            ((∃ source, fs.readSource path = .ok source ∧ path ∉ indexing.index.failures ∧
                indexing.index.entries.lookup path = some (extract source)) ∨
              ∃ reason, fs.readSource path = .error reason ∧ path ∈ indexing.index.failures ∧
                indexing.index.entries.lookup path = none) := by
  constructor
  · rw [ofTargets_eq, exists_map_eq_ok_iff, exists_mapM_eq_ok_iff]
    simp only [exists_filesOf_iff]
  · intro indexing hindexing target htarget hfile
    rw [ofTargets_eq] at hindexing
    obtain ⟨files, hfiles, rfl⟩ := map_eq_ok_iff.1 hindexing
    obtain ⟨path, hresolve, hpath⟩ := exists_mem_flatten hfiles htarget hfile
    have haccounts := accounts_ofFiles fs files.flatten
    refine ⟨path, hresolve, ?_⟩
    rw [haccounts.lookup, haccounts.mem_failures, if_pos hpath, and_iff_right hpath]
    cases hsource : fs.readSource path with
    | error reason => exact .inr ⟨reason, rfl, by simp [metadataOf?, hsource, Except.toOption]⟩
    | ok source => exact .inl ⟨source, rfl, by simp [metadataOf?, hsource, Except.toOption]⟩

/-- A link to itself. -/
def selfLink : FileSystem :=
  ⟨[([['x']], ⟨.link ['x'], false⟩)], []⟩

/-- A look-up of a link to itself uses up all the links that it may follow. -/
theorem walk_selfLink (linksLeft : Nat) : selfLink.walk linksLeft [] [['x']] = .error .tooManyLinks := by
  induction linksLeft with
  | zero =>
    rw [walk]
    rfl
  | succ left ih =>
    rw [walk]
    exact ih

/-- Where the link is met again, the names so far are all there is. -/
theorem follow_selfLink : selfLink.follow [] ⟨none, []⟩ [['x']] = .looped [['x']] := by
  have htarget : (Spot.child (⟨none, []⟩ : Spot selfLink) ['x']).target? = some ['x'] := by
    have hreveals : selfLink.reveals [] [['x']] = true := by
      rw [reveals, show [['x']].dropLast = ([] : Location) from rfl, walk]
      rfl
    exact if_pos hreveals
  have hentered : selfLink.follow [⟨none, [['x']]⟩] ⟨none, []⟩ [['x']] = .looped [['x']] :=
    follow_of_mem (by decide) htarget (by decide)
  exact follow_of_looped (by decide) htarget List.not_mem_nil hentered

/-- A link to itself is no directory, and there is no index for it as a target. -/
theorem ofTargets_selfLink :
    selfLink.isDirectory ⟨.absolute, [['x']]⟩ = .ok false ∧
      ofTargets selfLink ⟨Selection.defaultSuffixes, Selection.defaultExcluded, none⟩ [⟨.absolute, [['x']]⟩] =
        .error (.linkLoop ⟨.absolute, [['x']]⟩) := by
  have hlocate : selfLink.locate ⟨.absolute, [['x']]⟩ = .error .tooManyLinks := walk_selfLink linkLimit
  have hdirectory : selfLink.isDirectory ⟨.absolute, [['x']]⟩ = .ok false := by
    rw [isDirectory, find, lookup, hlocate]
    rfl
  have hresolve : selfLink.resolve ⟨.absolute, [['x']]⟩ = .error (.linkLoop ⟨.absolute, [['x']]⟩) := by
    have hfollow : selfLink.follow [] (.ofPath selfLink ⟨.absolute, [['x']]⟩) [['x']] = .looped [['x']] := follow_selfLink
    have hlocation : (Resolution.looped [['x']] : Resolution selfLink).location = [['x']] := rfl
    rw [resolve, if_neg (by decide), hfollow]
    dsimp only
    rw [hlocation, walk_selfLink]
    rfl
  refine ⟨hdirectory, ?_⟩
  rw [ofTargets_eq, List.mapM_cons, filesOf_eq hdirectory, hresolve]
  rfl

end Indexing

end DirectiveIndex
