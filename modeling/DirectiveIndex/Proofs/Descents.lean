import DirectiveIndex.Proofs.Trees
import DirectiveIndex.Proofs.Walk

namespace DirectiveIndex

namespace Path

variable {path : Path} {name other : Text}

/-- The parts of a path below another one. -/
theorem parts_below (path : Path) (names : List Text) : (path.below names).parts = path.parts ++ names := by
  unfold parts below
  split <;> rfl

/-- The suffix of a path is that of its last name. -/
theorem suffix_child (path : Path) (name : Text) : (path.child name).suffix = suffixOf name := by
  rw [suffix, child, List.getLast?_concat]

/-- Below a path, the names that come first decide. -/
theorem le_below (hle : Text.le name other = true) (hne : name ≠ other) (names others : List Text) :
    (path.below (name :: names)).le (path.below (other :: others)) = true := by
  rw [le, parts_below, parts_below, partsLe_append_left, partsLe, if_neg hne]
  exact hle

end Path

namespace FileSystem

variable {fs : FileSystem} {selection : Selection} {path file : Path} {place next last : Place} {depth : Nat}
  {name : Text} {names : List Text} {files : List Path}

theorem descends_nil_iff : fs.Descends selection place [] last ↔ last = place := by
  constructor
  · rintro ⟨⟩
    rfl
  · rintro rfl
    exact .here _

/-- A descent goes down to its first name and on from there. -/
theorem descends_cons_iff :
    fs.Descends selection place (name :: names) last ↔
      ∃ next, fs.GoesDown selection place name next ∧ fs.Descends selection next names last := by
  constructor
  · rintro (_ | ⟨hstep, hrest⟩)
    exact ⟨_, hstep, hrest⟩
  · rintro ⟨next, hstep, hrest⟩
    exact .down hstep hrest

/-- A descent goes down to its last name at its end. -/
theorem descends_concat_iff :
    fs.Descends selection place (names ++ [name]) next ↔
      ∃ last, fs.Descends selection place names last ∧ fs.GoesDown selection last name next := by
  induction names generalizing place with
  | nil =>
    simp only [List.nil_append, descends_cons_iff, descends_nil_iff]
    exact ⟨fun ⟨_, hstep, heq⟩ => ⟨place, rfl, heq ▸ hstep⟩, fun ⟨_, heq, hstep⟩ => ⟨next, heq ▸ hstep, rfl⟩⟩
  | cons first names ih =>
    simp only [List.cons_append, descends_cons_iff, ih]
    constructor
    · rintro ⟨mid, hfirst, last, hrest, hstep⟩
      exact ⟨last, ⟨mid, hfirst, hrest⟩, hstep⟩
    · rintro ⟨last, ⟨mid, hfirst, hrest⟩, hstep⟩
      exact ⟨mid, hfirst, last, hrest, hstep⟩

/-- Whether a walk finds a file that is looked for in a directory, under the given name. -/
structure HoldsSource (fs : FileSystem) (selection : Selection) (place : Place) (name : Text) : Prop where
  search : fs.search place.location = .ok ()
  mem : name ∈ fs.namesIn place.location
  found : ∃ next node, fs.enter place name = .ok next ∧ fs.node? next.location = some node ∧ node.isDirectory = false
  wants : Text.lower (Path.suffixOf name) ∈ selection.suffixes

/-- A name leads down to one place. -/
theorem GoesDown.unique (h : fs.GoesDown selection place name next) (h' : fs.GoesDown selection place name last) :
    next = last :=
  Except.ok.inj (h.enter.symm.trans h'.enter)

/-- What a walk goes down into is no file. -/
theorem GoesDown.not_holdsSource (h : fs.GoesDown selection place name next) :
    ¬ fs.HoldsSource selection place name := by
  rintro ⟨-, -, ⟨entered, node, henter, hnode, hfile⟩, -⟩
  have hdirectory := h.isDirectory
  rw [Except.ok.inj (h.enter.symm.trans henter), hnode, Option.any_some, hfile] at hdirectory
  cases hdirectory

/-- A file is wanted for the suffix of its name, in lower case. -/
theorem wants_child_iff : selection.wants (path.child name) = true ↔
    Text.lower (Path.suffixOf name) ∈ selection.suffixes := by
  rw [Selection.wants, Path.suffix_child, List.contains_iff_mem]

section Searched

variable (hsearch : fs.search place.location = .ok ()) (hname : name ∈ fs.namesIn place.location)
include hsearch hname

/-- A name is that of a source if it leads to a file whose suffix is wanted. -/
theorem holdsSource_iff (path : Path) : fs.HoldsSource selection place name ↔
    (∃ next node, fs.enter place name = .ok next ∧ fs.node? next.location = some node ∧ node.isDirectory = false) ∧
      selection.wants (path.child name) = true := by
  rw [wants_child_iff]
  exact ⟨fun h => ⟨h.found, h.wants⟩, fun ⟨hfound, hwants⟩ => ⟨hsearch, hname, hfound, hwants⟩⟩

/-- A name leads down if it leads to a directory and is not excluded. -/
theorem goesDown_iff : fs.GoesDown selection place name next ↔
    fs.enter place name = .ok next ∧ (∃ node, fs.node? next.location = some node ∧ node.isDirectory = true) ∧
      selection.excludes name = false := by
  rw [← Option.any_eq_true]
  exact ⟨fun h => ⟨h.enter, h.isDirectory, h.excludes⟩,
    fun ⟨henter, hdirectory, hexcludes⟩ => ⟨hsearch, hname, henter, hdirectory, hexcludes⟩⟩

/-- What is found under one name: what is found in the directory of that name, or the file of that name, or nothing. -/
theorem sourcesAt_cases {found : List Path} (h : fs.sourcesAt selection path place depth name = .ok found) :
    (∃ next, fs.GoesDown selection place name next ∧
        fs.sourcesBelow selection (path.child name) next (depth + 1) = .ok found) ∨
      fs.HoldsSource selection place name ∧ found = [path.child name] ∨
      ¬ fs.HoldsSource selection place name ∧ (∀ next, ¬ fs.GoesDown selection place name next) ∧ found = [] := by
  rw [holdsSource_iff hsearch hname path]
  simp only [goesDown_iff hsearch hname]
  unfold sourcesAt at h
  cases henter : fs.enter place name with
  | error cause =>
    rw [henter] at h
    dsimp only at h
    split at h
    · cases h
    · simpa using h.symm
  | ok entered =>
    rw [henter] at h
    dsimp only at h
    cases hnode : fs.node? entered.location with
    | none =>
      rw [hnode] at h
      simpa [hnode] using h.symm
    | some node =>
      rw [hnode] at h
      dsimp only at h
      by_cases hdirectory : node.isDirectory = true
      · rw [if_pos hdirectory] at h
        by_cases hexcluded : selection.excludes name = true
        · rw [if_pos hexcluded] at h
          simpa [hnode, hdirectory, hexcluded] using h.symm
        · rw [if_neg hexcluded] at h
          simp [hnode, hdirectory, hexcluded, h]
      · rw [if_neg hdirectory] at h
        by_cases hwanted : selection.wants (path.child name) = true
        · rw [if_pos hwanted] at h
          simpa [hnode, hdirectory, hwanted] using h.symm
        · rw [if_neg hwanted] at h
          simpa [hnode, hdirectory, hwanted] using h.symm

/-- What is found at a name is the source of that name, or lies below it. -/
theorem mem_sourcesAt_iff {found : List Path} (h : fs.sourcesAt selection path place depth name = .ok found) :
    file ∈ found ↔ fs.HoldsSource selection place name ∧ file = path.child name ∨
      ∃ next below, fs.GoesDown selection place name next ∧
        fs.sourcesBelow selection (path.child name) next (depth + 1) = .ok below ∧ file ∈ below := by
  rcases sourcesAt_cases hsearch hname h with ⟨next, hgoes, heq⟩ | ⟨hholds, rfl⟩ | ⟨hnot, hnone, rfl⟩
  · constructor
    · exact fun hfile => .inr ⟨next, found, hgoes, heq, hfile⟩
    · rintro (⟨hholds, -⟩ | ⟨other, below, hother, hbelow, hfile⟩)
      · exact absurd hholds hgoes.not_holdsSource
      · rw [← hgoes.unique hother, heq] at hbelow
        rwa [Except.ok.inj hbelow]
  · rw [List.mem_singleton]
    constructor
    · exact fun hfile => .inl ⟨hholds, hfile⟩
    · rintro (⟨-, hfile⟩ | ⟨next, below, hgoes, -⟩)
      · exact hfile
      · exact absurd hholds hgoes.not_holdsSource
  · refine iff_of_false List.not_mem_nil ?_
    rintro (⟨hholds, -⟩ | ⟨next, below, hgoes, -⟩)
    · exact hnot hholds
    · exact hnone next hgoes

end Searched

/-- Whether a walk from a directory comes to one that holds the file, without going too deep. -/
def Finds (fs : FileSystem) (selection : Selection) (path : Path) (place : Place) (depth : Nat) (file : Path) : Prop :=
  ∃ names last name, fs.Descends selection place names last ∧ selection.isTooDeep (depth + names.length) = false ∧
    fs.HoldsSource selection last name ∧ file = path.below (names ++ [name])

/-- Nothing is found below the limit. -/
theorem not_finds_of_isTooDeep (h : selection.isTooDeep depth = true) :
    ¬ fs.Finds selection path place depth file := by
  rintro ⟨names, last, name, -, hdepth, -, -⟩
  rw [Selection.isTooDeep_add h] at hdepth
  cases hdepth

/-- Something is found only where a directory can be searched. -/
theorem Finds.search (h : fs.Finds selection path place depth file) : fs.search place.location = .ok () := by
  obtain ⟨names, last, name, hdescends, -, hholds, -⟩ := h
  cases hdescends with
  | here => exact hholds.search
  | down hstep _ => exact hstep.search

/-- What is found from a directory is held by it or found from one into which the walk goes down. -/
theorem finds_iff (hdepth : selection.isTooDeep depth = false) :
    fs.Finds selection path place depth file ↔
      ∃ name, fs.HoldsSource selection place name ∧ file = path.child name ∨
        ∃ next, fs.GoesDown selection place name next ∧ fs.Finds selection (path.child name) next (depth + 1) file := by
  constructor
  · rintro ⟨names, last, name, hdescends, hlast, hholds, rfl⟩
    cases hdescends with
    | here => exact ⟨name, .inl ⟨hholds, rfl⟩⟩
    | @down _ next _ first names hstep hrest =>
      rw [List.length_cons, Nat.add_comm names.length, ← Nat.add_assoc] at hlast
      refine ⟨first, .inr ⟨next, hstep, names, last, name, hrest, hlast, hholds, ?_⟩⟩
      rw [List.cons_append, Path.below_cons]
  · rintro ⟨name, ⟨hholds, rfl⟩ | ⟨next, hstep, names, last, found, hrest, hlast, hholds, rfl⟩⟩
    · exact ⟨[], place, name, .here place, hdepth, hholds, rfl⟩
    · refine ⟨name :: names, last, found, .down hstep hrest, ?_, hholds, ?_⟩
      · rwa [List.length_cons, Nat.add_comm names.length, ← Nat.add_assoc]
      · rw [List.cons_append, Path.below_cons]

/-- A walk finds nothing in a directory that is too deep or closed, and in any other what it finds under each name. -/
theorem sourcesBelow_cases (h : fs.sourcesBelow selection path place depth = .ok files) :
    (selection.isTooDeep depth = true ∨ fs.search place.location = .error .denied) ∧ files = [] ∨
      selection.isTooDeep depth = false ∧ fs.search place.location = .ok () ∧
        ∃ results, (Text.sort (fs.namesIn place.location)).mapM (fs.sourcesAt selection path place depth) = .ok results ∧
          files = results.flatten := by
  cases hdepth : selection.isTooDeep depth with
  | true =>
    rw [sourcesBelow_of_isTooDeep hdepth] at h
    exact .inl ⟨.inl rfl, (Except.ok.inj h).symm⟩
  | false =>
    cases hsearch : fs.search place.location with
    | error cause =>
      by_cases hdenied : cause = .denied
      · rw [hdenied] at hsearch ⊢
        rw [sourcesBelow_of_closed hsearch] at h
        exact .inl ⟨.inr rfl, (Except.ok.inj h).symm⟩
      · rw [sourcesBelow_of_failure hdepth hsearch hdenied] at h
        cases h
    | ok =>
      rw [sourcesBelow_of_open hdepth hsearch] at h
      obtain ⟨results, hresults, hfiles⟩ := map_eq_ok_iff.1 h
      exact .inr ⟨rfl, rfl, results, hresults, hfiles.symm⟩

/-- A walk gives the files that it finds. -/
theorem mem_sourcesBelow_iff (place : Place) (h : fs.sourcesBelow selection path place depth = .ok files) :
    file ∈ files ↔ fs.Finds selection path place depth file := by
  induction place using descent_induction fs generalizing path depth files with
  | step place ih =>
    rcases sourcesBelow_cases h with ⟨hclosed, rfl⟩ | ⟨hdepth, hsearch, results, hresults, rfl⟩
    · refine iff_of_false List.not_mem_nil fun hfinds => ?_
      rcases hclosed with hdepth | hsearch
      · exact not_finds_of_isTooDeep hdepth hfinds
      · cases hsearch.symm.trans hfinds.search
    rw [mem_flatten_of_mapM_eq_ok hresults, finds_iff hdepth]
    have hbelow {name : Text} {next : Place} {below : List Path} (hgoes : fs.GoesDown selection place name next)
        (heq : fs.sourcesBelow selection (path.child name) next (depth + 1) = .ok below) :
        file ∈ below ↔ fs.Finds selection (path.child name) next (depth + 1) file := by
      obtain ⟨node, hnode, -⟩ := (Option.any_eq_true _ _).1 hgoes.isDirectory
      exact ih name next node hgoes.enter hnode heq
    constructor
    · rintro ⟨name, hname, found, hfound, hfile⟩
      refine ⟨name, ((mem_sourcesAt_iff hsearch (Text.mem_sort.1 hname) hfound).1 hfile).imp_right ?_⟩
      rintro ⟨next, below, hgoes, heq, hmem⟩
      exact ⟨next, hgoes, (hbelow hgoes heq).1 hmem⟩
    · rintro ⟨name, hcase⟩
      have hname : name ∈ fs.namesIn place.location := by
        rcases hcase with ⟨hholds, -⟩ | ⟨next, hgoes, -⟩
        · exact hholds.mem
        · exact hgoes.mem
      have hmem := Text.mem_sort.2 hname
      obtain ⟨found, hfound⟩ := exists_mapM_eq_ok_iff.1 ⟨results, hresults⟩ name hmem
      refine ⟨name, hmem, found, hfound, (mem_sourcesAt_iff hsearch hname hfound).2 (hcase.imp_right ?_)⟩
      rintro ⟨next, hgoes, hfinds⟩
      obtain ⟨-, hdown⟩ := exists_sourcesAt_iff.1 ⟨found, hfound⟩
      obtain ⟨below, heq⟩ := hdown next hgoes.enter hgoes.isDirectory hgoes.excludes
      exact ⟨next, below, hgoes, heq, (hbelow hgoes heq).2 hfinds⟩

/-- What is found under a name lies at the path of that name or below it. -/
theorem eq_below_of_mem_sourcesAt (hsearch : fs.search place.location = .ok ())
    (hname : name ∈ fs.namesIn place.location) {found : List Path}
    (h : fs.sourcesAt selection path place depth name = .ok found) (hfile : file ∈ found) :
    ∃ names, file = path.below (name :: names) := by
  rcases (mem_sourcesAt_iff hsearch hname h).1 hfile with ⟨-, rfl⟩ | ⟨next, below, -, heq, hmem⟩
  · exact ⟨[], rfl⟩
  · obtain ⟨names, last, inner, -, -, -, rfl⟩ := (mem_sourcesBelow_iff next heq).1 hmem
    exact ⟨names ++ [inner], (Path.below_cons path name _).symm⟩

/-- The files found come in the order of their paths, each once. -/
theorem pairwise_sourcesBelow (htree : fs.IsTree) (place : Place)
    (h : fs.sourcesBelow selection path place depth = .ok files) :
    files.Pairwise fun a b => a.le b = true ∧ a ≠ b := by
  induction place using descent_induction fs generalizing path depth files with
  | step place ih =>
    rcases sourcesBelow_cases h with ⟨-, rfl⟩ | ⟨-, hsearch, results, hresults, rfl⟩
    · exact List.Pairwise.nil
    rw [List.pairwise_flatten]
    constructor
    · intro found hfound
      obtain ⟨name, hname, heq⟩ := exists_of_mem_mapM_eq_ok hresults hfound
      rcases sourcesAt_cases hsearch (Text.mem_sort.1 hname) heq with ⟨next, hgoes, hbelow⟩ | ⟨-, rfl⟩ | ⟨-, -, rfl⟩
      · obtain ⟨node, hnode, -⟩ := (Option.any_eq_true _ _).1 hgoes.isDirectory
        exact ih name next node hgoes.enter hnode hbelow
      · exact List.pairwise_singleton _ _
      · exact List.Pairwise.nil
    · refine pairwise_of_mapM_eq_ok hresults (Text.pairwise_sort_ne (htree.nodup_namesIn place.location)) ?_
      rintro name hname other hother found others ⟨hle, hne⟩ hfound hothers a ha b hb
      obtain ⟨names, rfl⟩ := eq_below_of_mem_sourcesAt hsearch (Text.mem_sort.1 hname) hfound ha
      obtain ⟨rest, rfl⟩ := eq_below_of_mem_sourcesAt hsearch (Text.mem_sort.1 hother) hothers hb
      exact ⟨Path.le_below hle hne names rest, fun heq => hne (List.cons.inj (Path.below_injective heq)).1⟩

end FileSystem

end DirectiveIndex
