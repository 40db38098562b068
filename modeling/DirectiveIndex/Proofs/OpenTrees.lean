import DirectiveIndex.Program
import DirectiveIndex.Proofs.DisplayTexts
import DirectiveIndex.Proofs.Targets
import DirectiveIndex.Proofs.Trees

namespace DirectiveIndex

namespace FileSystem

variable {fs : FileSystem} {selection : Selection} {path target : Path} {location : Location} {names : List Text}
  {node : Node}

/-- Without links, a path cannot be resolved only if no file system can take it. -/
theorem HasNoLinks.eq_nulCharacter_of_resolve (hlinks : fs.HasNoLinks) {failure : AccessError}
    (h : fs.resolve path = .error failure) : failure = .nulCharacter := by
  cases hnul : path.holdsNul with
  | true =>
    rw [resolve, if_pos hnul] at h
    exact (Except.error.inj h).symm
  | false =>
    rw [hlinks.resolve_eq hnul] at h
    cases h

/-- A file system without links and closed directories, whose current directory has an ordinary location. Files may be
closed. -/
structure IsOpen (fs : FileSystem) : Prop where
  links : fs.HasNoLinks
  directories : ∀ entry ∈ fs.entries, entry.2.isDirectory = true → entry.2.denied = false
  current : ∀ name ∈ fs.current, Path.IsOrdinary name

namespace IsOpen

variable (hopen : fs.IsOpen)
include hopen

/-- In an open tree, no directory is denied. -/
theorem denied_eq_false (hnode : fs.node? location = some node) (hdirectory : node.isDirectory = true) :
    node.denied = false := by
  by_cases hlocation : location = []
  · rw [node?, if_pos hlocation] at hnode
    rw [← Option.some.inj hnode]
    rfl
  · exact hopen.directories _ (mem_entries_of_node? hlocation hnode) hdirectory

/-- In an open tree, every directory can be searched. -/
theorem search_eq_ok (hdirectory : (fs.node? location).any Node.isDirectory = true) : fs.search location = .ok () := by
  obtain ⟨node, hnode, hdirectory⟩ := (Option.any_eq_true _ _).1 hdirectory
  simp [search, hnode, hdirectory, hopen.denied_eq_false hnode hdirectory]

/-- In an open tree, no search is denied. -/
theorem search_ne_denied (location : Location) : fs.search location ≠ .error .denied := by
  unfold search
  split
  · exact nofun
  · rename_i node hnode
    split
    · exact nofun
    · rename_i hdirectory
      rw [hopen.denied_eq_false hnode (by simpa using hdirectory)]
      exact nofun

/-- In an open tree, no walk is denied. -/
theorem walk_ne_denied (linksLeft : Nat) (location : Location) (names : List Text) :
    fs.walk linksLeft location names ≠ .error .denied := by
  intro h
  rcases walk_error_cases h with ⟨closed, hsearch⟩ | ⟨hcause, -⟩
  · exact hopen.search_ne_denied closed hsearch
  · cases hcause

/-- In an open tree, no lookup is denied. -/
theorem lookup_ne_denied (path : Path) : fs.lookup path ≠ .error .denied := by
  have hwalk := hopen.walk_ne_denied linkLimit (fs.startOf path) (stepsOf path)
  unfold lookup locate
  split
  · rename_i cause hlocate
    rintro h
    exact hwalk (Except.error.inj h ▸ hlocate)
  · split <;> exact nofun

/-- Everything can be looked at. -/
theorem exists_find (path : Path) : ∃ found?, fs.find path = .ok found? := by
  have hlookup := hopen.lookup_ne_denied path
  unfold find
  split
  · rename_i hdenied
    exact absurd hdenied hlookup
  · exact ⟨none, rfl⟩
  · exact ⟨_, rfl⟩

/-- In an open tree, whether something exists can be told. -/
theorem exists_doesExist (path : Path) : ∃ answer, fs.doesExist path = .ok answer :=
  exists_map_eq_ok_iff.2 (hopen.exists_find path)

/-- In an open tree, whether something is a directory can be told. -/
theorem exists_isDirectory (path : Path) : ∃ answer, fs.isDirectory path = .ok answer :=
  exists_map_eq_ok_iff.2 (hopen.exists_find path)

/-- Every path that a file system can take has a resolved form, which is resolved already. -/
theorem exists_resolve (hnul : path.holdsNul = false) :
    ∃ resolved, fs.resolve path = .ok resolved ∧ fs.resolve resolved = .ok resolved := by
  have hstart : ∀ name ∈ fs.startOf path, Path.IsOrdinary name := by
    unfold startOf
    split
    · exact hopen.current
    · exact nofun
  have hordinary := collapse_isOrdinary hstart (Path.not_mem_of_holdsNul hnul)
  refine ⟨_, hopen.links.resolve_eq hnul, hopen.links.resolve_eq_self rfl ?_ ?_⟩
  · exact Path.holdsNul_eq_false fun name hname => (hordinary name hname).2.2.2
  · exact collapse_eq_append hordinary

/-- The current directory can be resolved. -/
theorem exists_resolve_current : ∃ resolved, fs.resolve (pathOf fs.current) = .ok resolved := by
  have hnul : (pathOf fs.current).holdsNul = false :=
    Path.holdsNul_eq_false fun name hname => (hopen.current name hname).2.2.2
  obtain ⟨resolved, hresolve, -⟩ := hopen.exists_resolve hnul
  exact ⟨resolved, hresolve⟩

/-- A walk passes through every directory. -/
theorem isPassable {place : Place} (hdirectory : (fs.node? place.location).any Node.isDirectory = true) :
    fs.IsPassable place := by
  refine .inr ⟨hopen.search_eq_ok hdirectory, fun name _ => ?_⟩
  rw [enter, hopen.links.target?_eq_none]
  simp

end IsOpen

/-- Where a walk comes from a directory, there is a directory. -/
theorem Descends.isDirectory {place last : Place} (h : fs.Descends selection place names last)
    (hplace : (fs.node? place.location).any Node.isDirectory = true) :
    (fs.node? last.location).any Node.isDirectory = true := by
  induction h with
  | here place => exact hplace
  | down hstep hrest ih => exact ih hstep.isDirectory

/-- A directory is found at its place. -/
theorem lookup_of_isDirectory (h : fs.isDirectory path = .ok true) :
    ∃ place node, fs.lookup path = .ok (place, node) ∧ (fs.node? place.location).any Node.isDirectory = true := by
  obtain ⟨found?, hfind, hany⟩ := map_eq_ok_iff.1 h
  unfold find at hfind
  split at hfind
  · cases hfind
  · cases hfind
    cases hany
  · rename_i place node hlookup
    cases hfind
    refine ⟨place, node, hlookup, ?_⟩
    unfold lookup at hlookup
    split at hlookup
    · cases hlookup
    · split at hlookup
      · cases hlookup
      · rename_i hnode
        cases hlookup
        rw [hnode]
        exact hany

/-- A resolved path can be looked at and searched. -/
theorem IsOpen.isAccessible (hopen : fs.IsOpen) (hself : fs.resolve target = .ok target) :
    fs.IsAccessible selection target := by
  refine ⟨hopen.lookup_ne_denied target, target, hself, fun hdirectory => .inr (.inr ?_)⟩
  obtain ⟨place, node, hlookup, hplace⟩ := lookup_of_isDirectory hdirectory
  refine ⟨place, node, hlookup, fun names last hdescends _ => ?_⟩
  exact hopen.isPassable (hdescends.isDirectory hplace)

/-- Resolved targets are indexed, whatever files cannot be read. -/
theorem IsOpen.exists_ofTargets (hopen : fs.IsOpen) (selection : Selection) {targets : List Path}
    (h : ∀ target ∈ targets, fs.resolve target = .ok target) :
    ∃ indexing, Indexing.ofTargets fs selection targets = .ok indexing := by
  rw [Indexing.ofTargets_eq, exists_map_eq_ok_iff, exists_mapM_eq_ok_iff]
  exact fun target htarget => exists_filesOf_iff.2 (hopen.isAccessible (h target htarget))

namespace HasNoLinks

variable {frame : Frame} (hlinks : fs.HasNoLinks)
include hlinks

/-- In an open tree, every path can be displayed. -/
theorem exists_display (frame : Frame) (path : Path) : ∃ text, fs.display frame path = .ok text :=
  Frame.exists_display_eq_ok fun _ _ _ hfailure => hlinks.eq_nulCharacter_of_resolve hfailure

/-- In an open tree, every index can be reported. -/
theorem exists_report (frame : Frame) (includeEmpty : Bool) (index : Index) :
    ∃ report, Report.ofIndex fs frame includeEmpty index = .ok report := by
  have hname (path : Path) := hlinks.exists_display frame path
  choose name hname using hname
  exact ⟨_, Report.ofIndex_eq_of_listed fun path _ => hname path⟩

/-- In an open tree, every index can be outlined. -/
theorem exists_outline (frame : Frame) (style : OutlineStyle) (includeEmpty : Bool) (index : Index) :
    ∃ text, index.outline fs frame style includeEmpty = .ok text := by
  have hfiles : ∃ texts, (index.listed includeEmpty).mapM (fun entry => do
      let name ← fs.display frame entry.1
      return Text.join ['\n'] (name :: style.connectors.attach entry.2.leaves)) = .ok texts := by
    refine exists_mapM_eq_ok_iff.2 fun entry _ => ?_
    obtain ⟨name, hname⟩ := hlinks.exists_display frame entry.1
    exact ⟨_, bind_eq_ok_iff.2 ⟨name, hname, rfl⟩⟩
  have hfailures : ∃ texts, (Path.sort index.failures).mapM (fun path => do
      return (← fs.display frame path) ++ unreadableMark) = .ok texts := by
    refine exists_mapM_eq_ok_iff.2 fun path _ => ?_
    obtain ⟨name, hname⟩ := hlinks.exists_display frame path
    exact ⟨_, bind_eq_ok_iff.2 ⟨name, hname, rfl⟩⟩
  obtain ⟨files, hfiles⟩ := hfiles
  obtain ⟨failures, hfailures⟩ := hfailures
  exact ⟨_, bind_eq_ok_iff.2 ⟨files, hfiles, bind_eq_ok_iff.2 ⟨failures, hfailures, rfl⟩⟩⟩

/-- Every index can be rendered. -/
theorem exists_render (frame : Frame) (settings : Settings) (index : Index) :
    ∃ text, index.render fs frame settings = .ok text := by
  unfold Index.render
  cases settings.format with
  | ascii => exact hlinks.exists_outline frame settings.style _ index
  | json =>
    obtain ⟨report, hreport⟩ := hlinks.exists_report frame (!settings.hideEmpty) index
    exact ⟨_, bind_eq_ok_iff.2 ⟨report, hreport, rfl⟩⟩
  | yaml =>
    obtain ⟨report, hreport⟩ := hlinks.exists_report frame (!settings.hideEmpty) index
    exact ⟨_, bind_eq_ok_iff.2 ⟨report, hreport, rfl⟩⟩

end HasNoLinks

end FileSystem

end DirectiveIndex
