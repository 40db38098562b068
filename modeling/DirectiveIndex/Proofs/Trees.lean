import Mathlib.Data.List.Basic
import DirectiveIndex.FileSystem.Change
import DirectiveIndex.Proofs.Lookups
import DirectiveIndex.Proofs.Paths
import DirectiveIndex.Proofs.Resolving

namespace DirectiveIndex

/-- Cutting a text makes up no characters. -/
theorem Text.mem_of_mem_split {separator c : Char} {text piece : Text} (hpiece : piece ∈ split separator text)
    (hc : c ∈ piece) : c ∈ text := by
  induction text generalizing piece with
  | nil =>
    rw [split, List.mem_singleton] at hpiece
    rwa [hpiece] at hc
  | cons d text ih =>
    obtain ⟨first, pieces, hsplit⟩ := List.exists_cons_of_ne_nil (split_ne_nil separator text)
    have hpieces {other : Text} (hother : other ∈ first :: pieces) (hmem : c ∈ other) : c ∈ d :: text :=
      List.mem_cons_of_mem _ (ih (hsplit ▸ hother) hmem)
    by_cases hd : d = separator
    · rw [hd, split_cons_self, hsplit] at hpiece
      rcases List.mem_cons.1 hpiece with rfl | hother
      · cases hc
      · exact hpieces hother hc
    · rw [split_cons_of_ne hd hsplit] at hpiece
      rcases List.mem_cons.1 hpiece with rfl | hother
      · rcases List.mem_cons.1 hc with rfl | hmem
        · exact List.mem_cons_self
        · exact hpieces List.mem_cons_self hmem
      · exact hpieces (List.mem_cons_of_mem _ hother) hc

namespace Path

theorem holdsNul_eq_false {path : Path} (h : ∀ name ∈ path.names, '\x00' ∉ name) : path.holdsNul = false := by
  refine List.any_eq_false.2 fun name hname => ?_
  rw [List.contains_iff_mem]
  exact h name hname

theorem not_mem_of_holdsNul {path : Path} (h : path.holdsNul = false) : ∀ name ∈ path.names, '\x00' ∉ name :=
  fun name hname hmem => List.any_eq_false.1 h name hname (List.contains_iff_mem.2 hmem)

theorem holdsNul_ofText {text : Text} (h : '\x00' ∉ text) : (ofText text).holdsNul = false := by
  refine holdsNul_eq_false fun name hname hmem => h ?_
  exact Text.mem_of_mem_split (List.mem_of_mem_filter hname) hmem

/-- Whether a name is one that something in a directory can have. -/
def IsOrdinary (name : Text) : Prop :=
  name ≠ [] ∧ name ≠ selfName ∧ name ≠ parentName ∧ '\x00' ∉ name

instance (name : Text) : Decidable (IsOrdinary name) :=
  inferInstanceAs (Decidable (_ ∧ _))

/-- An ordinary name is a plain one. -/
theorem IsOrdinary.isPlain {name : Text} (h : IsOrdinary name) : IsPlain name :=
  ⟨h.1, h.2.1, h.2.2.1⟩

end Path

namespace FileSystem

variable {fs fs' : FileSystem} {path resolved : Path} {location : Location} {names : List Text} {name : Text}
  {node : Node} {linksLeft : Nat} {place next : Place} {entered : List (Spot fs)} {spot : Spot fs}

/-- What is found below the root is among the entries. -/
theorem mem_entries_of_node? (hlocation : location ≠ []) (h : fs.node? location = some node) :
    (location, node) ∈ fs.entries := by
  rw [node?, if_neg hlocation] at h
  obtain ⟨before, after, hentries, -⟩ := List.lookup_eq_some_iff.1 h
  simp [hentries]

/-- The names in a directory are those of the entries directly below it. -/
theorem mem_namesIn_iff : name ∈ fs.namesIn location ↔ ∃ node, (location ++ [name], node) ∈ fs.entries := by
  rw [namesIn, List.mem_filterMap]
  constructor
  · rintro ⟨⟨key, node⟩, hentry, hname⟩
    split at hname
    · rename_i hkey
      refine ⟨node, ?_⟩
      rwa [← hkey, List.dropLast_append_getLast? name hname]
    · cases hname
  · rintro ⟨node, hentry⟩
    exact ⟨_, hentry, by simp⟩

/-- What can be entered is listed, be it there itself or a link to what is there. -/
theorem mem_namesIn_of_enter (henter : fs.enter place name = .ok next) (hnode : fs.node? next.location = some node) :
    name ∈ fs.namesIn place.location := by
  have hne : place.location ++ [name] ≠ [] := List.append_ne_nil_of_right_ne_nil _ (List.cons_ne_nil _ _)
  unfold enter at henter
  split at henter
  · rw [← Except.ok.inj henter] at hnode
    exact mem_namesIn_iff.2 ⟨node, mem_entries_of_node? hne hnode⟩
  · rename_i target htarget
    obtain ⟨link, hlink, -⟩ := Option.bind_eq_some_iff.1 htarget
    exact mem_namesIn_iff.2 ⟨link, mem_entries_of_node? hne hlink⟩

/-- Whether every name that leads to a location is one that something in a directory can have. -/
def IsOrdinary (location : Location) : Prop :=
  ∀ name ∈ location, Path.IsOrdinary name

instance (location : Location) : Decidable (IsOrdinary location) :=
  inferInstanceAs (Decidable (∀ name ∈ location, Path.IsOrdinary name))

/-- The location above an ordinary one is ordinary. -/
theorem IsOrdinary.dropLast (h : IsOrdinary location) : IsOrdinary location.dropLast :=
  fun name hname => h name ((List.dropLast_sublist location).subset hname)

/-- An ordinary name below an ordinary location. -/
theorem IsOrdinary.child (h : IsOrdinary location) (hname : Path.IsOrdinary name) : IsOrdinary (location ++ [name]) :=
  List.forall_mem_append.2 ⟨h, List.forall_mem_singleton.2 hname⟩

/-- Collapsing names without NUL below an ordinary location gives an ordinary location. -/
theorem collapse_isOrdinary (hlocation : IsOrdinary location) (hnames : ∀ name ∈ names, '\x00' ∉ name) :
    IsOrdinary (collapse location names) := by
  induction names generalizing location with
  | nil => exact hlocation
  | cons next names ih =>
    obtain ⟨hnext, hrest⟩ := List.forall_mem_cons.1 hnames
    rw [collapse]
    by_cases hself : next = [] ∨ next = Path.selfName
    · rw [if_pos hself]
      exact ih hlocation hrest
    · rw [if_neg hself]
      by_cases hparent : next = Path.parentName
      · rw [if_pos hparent]
        exact ih hlocation.dropLast hrest
      · rw [if_neg hparent]
        exact ih (hlocation.child ⟨fun h => hself (.inl h), fun h => hself (.inr h), hparent, hnext⟩) hrest

/-- Ordinary names stay as they are. -/
theorem collapse_eq_append (h : ∀ name ∈ names, Path.IsOrdinary name) :
    collapse location names = location ++ names := by
  induction names generalizing location with
  | nil => exact (List.append_nil _).symm
  | cons next names ih =>
    obtain ⟨⟨hempty, hself, hparent, -⟩, hrest⟩ := List.forall_mem_cons.1 h
    rw [collapse, if_neg (not_or.2 ⟨hempty, hself⟩), if_neg hparent, ih hrest, List.append_assoc,
      List.singleton_append]

/-- The target of a link starts at an ordinary location. -/
theorem isOrdinary_targetStart (h : IsOrdinary location) (target : Text) : IsOrdinary (targetStart location target) := by
  unfold targetStart
  split
  · exact nofun
  · exact h

theorem isOrdinary_spot_targetStart (h : IsOrdinary spot.location) (target : Text) :
    IsOrdinary (spot.targetStart target).location :=
  spot.location_targetStart target ▸ isOrdinary_targetStart h target

/-- Whether what has come of following names holds nothing that no file system can take. -/
def IsClean : Resolution fs → Prop
  | .arrived spot => IsOrdinary spot.location
  | .looped names => ∀ name ∈ names, '\x00' ∉ name

theorem forall_mem_appendNames {p : Text → Prop} {more : List Text} (hnames : ∀ name ∈ names, p name)
    (hmore : ∀ name ∈ more, p name) : ∀ name ∈ appendNames names more, p name := by
  unfold appendNames
  split
  · exact (List.forall_mem_cons.1 hmore).2
  · exact List.forall_mem_append.2 ⟨hnames, hmore⟩

/-- The names of a target are parts of its text. -/
theorem mem_split_of_mem_rawNames {target : Text} (h : name ∈ rawNames target) : name ∈ Text.split '/' target := by
  unfold rawNames at h
  split at h
  · rename_i rest hsplit
    rw [hsplit]
    exact List.mem_cons_of_mem _ h
  · exact h

/-- A target without NUL has no names with one. -/
theorem not_mem_of_mem_rawNames {target : Text} (htarget : '\x00' ∉ target) (h : name ∈ rawNames target) :
    '\x00' ∉ name :=
  fun hnul => htarget (Text.mem_of_mem_split (mem_split_of_mem_rawNames h) hnul)

/-- Whether a file system is such as an operating system keeps. -/
structure IsTree (fs : FileSystem) : Prop where
  /-- There is one thing at a location at most. -/
  nodup : (fs.entries.map (·.1)).Nodup
  names : ∀ entry ∈ fs.entries, IsOrdinary entry.1
  targets : ∀ entry ∈ fs.entries, ∀ target ∈ entry.2.target?, '\x00' ∉ target
  current : IsOrdinary fs.current

instance : Decidable fs.IsTree :=
  decidable_of_iff ((fs.entries.map (·.1)).Nodup ∧ (∀ entry ∈ fs.entries, IsOrdinary entry.1) ∧
      (∀ entry ∈ fs.entries, ∀ target ∈ entry.2.target?, '\x00' ∉ target) ∧ IsOrdinary fs.current)
    ⟨fun ⟨nodup, names, targets, current⟩ => ⟨nodup, names, targets, current⟩,
      fun h => ⟨h.nodup, h.names, h.targets, h.current⟩⟩

namespace IsTree

variable (htree : fs.IsTree)
include htree

/-- In a tree, the names in a directory are ordinary. -/
theorem isOrdinary_of_mem_namesIn (h : name ∈ fs.namesIn location) : Path.IsOrdinary name := by
  obtain ⟨node, hentry⟩ := mem_namesIn_iff.1 h
  exact htree.names _ hentry name (List.mem_append_right _ (List.mem_singleton_self name))

/-- A directory lists no name twice. -/
theorem nodup_namesIn (location : Location) : (fs.namesIn location).Nodup := by
  rw [namesIn, List.Nodup, List.pairwise_filterMap]
  refine (List.pairwise_map.1 htree.nodup).imp fun {a b} hne name hname other hother heq => hne ?_
  split at hname
  · rename_i ha
    split at hother
    · rename_i hb
      rw [← List.dropLast_append_getLast? name hname, ← List.dropLast_append_getLast? other hother, ha, hb, heq]
    · cases hother
  · cases hname

/-- In a tree, a path starts at an ordinary location. -/
theorem isOrdinary_startOf (path : Path) : IsOrdinary (fs.startOf path) := by
  unfold startOf
  split
  · exact htree.current
  · exact nofun

/-- In a tree, no target holds a NUL. -/
theorem not_mem_of_target? {target : Text} (h : fs.target? location = some target) : '\x00' ∉ target := by
  obtain ⟨node, hfound, hlink⟩ := lookup_of_target? h
  obtain ⟨before, after, hentries, -⟩ := List.lookup_eq_some_iff.1 hfound
  exact htree.targets (location, node) (by simp [hentries]) target hlink

theorem not_mem_of_mem_targetNames {target : Text} (h : fs.target? location = some target)
    (hname : name ∈ targetNames target) : '\x00' ∉ name := by
  rcases List.mem_append.1 hname with hmem | hmem
  · exact fun hnul => htree.not_mem_of_target? h (Text.mem_of_mem_split (List.mem_filter.1 hmem).1 hnul)
  · split at hmem
    · rw [List.mem_singleton.1 hmem]
      exact List.not_mem_nil
    · cases hmem

/-- A path leads to a location with ordinary names. -/
theorem isOrdinary_of_walk (h : fs.walk linksLeft location names = .ok place) (hlocation : IsOrdinary location)
    (hnul : ∀ name ∈ names, '\x00' ∉ name) : IsOrdinary place.location := by
  fun_induction walk fs linksLeft location names with
  | case1 => exact Except.ok.inj h ▸ hlocation
  | case2 => cases h
  | case3 linksLeft location names _ ih => exact ih h hlocation (List.forall_mem_cons.1 hnul).2
  | case4 => cases h
  | case5 linksLeft location names _ _ ih => exact ih h hlocation (List.forall_mem_cons.1 hnul).2
  | case6 linksLeft location names _ _ _ ih => exact ih h hlocation.dropLast (List.forall_mem_cons.1 hnul).2
  | case7 linksLeft location name names hempty _ hself hparent _ ih =>
    obtain ⟨hclean, hnul⟩ := List.forall_mem_cons.1 hnul
    exact ih h (hlocation.child ⟨hempty, hself, hparent, hclean⟩) hnul
  | case8 => cases h
  | case9 location name names _ _ _ _ target htarget left ih =>
    refine ih h (isOrdinary_targetStart hlocation target) (List.forall_mem_append.2 ⟨fun _ => ?_, ?_⟩)
    · exact htree.not_mem_of_mem_targetNames htarget
    · exact (List.forall_mem_cons.1 hnul).2

/-- Names are followed to a spot with ordinary names. -/
theorem isClean_follow (hspot : IsOrdinary spot.location) (hnames : ∀ name ∈ names, '\x00' ∉ name) :
    IsClean (fs.follow entered spot names) := by
  fun_induction follow fs entered spot names with
  | case1 => exact hspot
  | case2 entered spot name names _ ih => exact ih hspot (List.forall_mem_cons.1 hnames).2
  | case3 entered spot names _ ih =>
    exact ih (spot.location_parent ▸ hspot.dropLast) (List.forall_mem_cons.1 hnames).2
  | case4 entered spot name names hskip hparent _ ih =>
    obtain ⟨hname, hnames⟩ := List.forall_mem_cons.1 hnames
    refine ih (spot.location_child name ▸ hspot.child ⟨?_, ?_, hparent, hname⟩) hnames
    · exact fun h => hskip (.inl h)
    · exact fun h => hskip (.inr h)
  | case5 entered spot name names _ _ target _ _ =>
    obtain ⟨hname, hnames⟩ := List.forall_mem_cons.1 hnames
    refine forall_mem_appendNames (spot.location_child name ▸ List.forall_mem_append.2 ⟨fun other hother => ?_, ?_⟩) hnames
    · exact (hspot other hother).2.2.2
    · exact List.forall_mem_singleton.2 hname
  | case6 entered spot name names _ _ target htarget _ reached hreached ihtarget ih =>
    have hclean := htree.not_mem_of_target? (Spot.target?_eq_some htarget)
    have hinner := ihtarget (isOrdinary_spot_targetStart hspot target) fun _ => not_mem_of_mem_rawNames hclean
    rw [hreached] at hinner
    exact ih hinner (List.forall_mem_cons.1 hnames).2
  | case7 entered spot name names _ _ target htarget _ reached hreached ihtarget =>
    have hclean := htree.not_mem_of_target? (Spot.target?_eq_some htarget)
    have hinner := ihtarget (isOrdinary_spot_targetStart hspot target) fun _ => not_mem_of_mem_rawNames hclean
    rw [hreached] at hinner
    exact forall_mem_appendNames hinner (List.forall_mem_cons.1 hnames).2

/-- A resolved path has ordinary names. -/
theorem isOrdinary_of_resolve (h : fs.resolve path = .ok resolved) : IsOrdinary resolved.names := by
  obtain ⟨hnul, -, hlocation, -⟩ := resolve_eq_ok_iff.1 h
  have hclean : IsClean (fs.followed path) :=
    htree.isClean_follow (Spot.location_ofPath path ▸ htree.isOrdinary_startOf path) (Path.not_mem_of_holdsNul hnul)
  rw [← hlocation]
  cases hfollowed : fs.followed path with
  | arrived spot =>
    rw [hfollowed] at hclean
    exact hclean
  | looped names =>
    rw [hfollowed] at hclean
    exact collapse_isOrdinary nofun hclean

/-- Where a path leads that has no NUL character. -/
theorem isOrdinary_of_locate (h : fs.locate path = .ok place) (hnul : path.holdsNul = false) :
    IsOrdinary place.location := by
  refine htree.isOrdinary_of_walk h (htree.isOrdinary_startOf path) ?_
  unfold stepsOf
  split
  · exact List.forall_mem_singleton.2 (by decide)
  · exact Path.not_mem_of_holdsNul hnul

/-- What is put at an ordinary location, a link only without NUL in its target, leaves a tree. -/
theorem put (hlocation : IsOrdinary location) (htarget : ∀ target ∈ node.target?, '\x00' ∉ target) :
    (fs.put location node).IsTree where
  nodup := by
    rw [FileSystem.put, List.map_cons, List.nodup_cons]
    refine ⟨fun hmem => ?_, htree.nodup.sublist (List.filter_sublist.map _)⟩
    obtain ⟨entry, hentry, hkey⟩ := List.mem_map.1 hmem
    exact bne_iff_ne.1 (List.mem_filter.1 hentry).2 hkey
  names := List.forall_mem_cons.2 ⟨hlocation, fun entry hentry => htree.names entry (List.mem_filter.1 hentry).1⟩
  targets := List.forall_mem_cons.2 ⟨htarget, fun entry hentry => htree.targets entry (List.mem_filter.1 hentry).1⟩
  current := htree.current

end IsTree

/-- The file systems that are built up from the empty one. -/
inductive IsBuilt : FileSystem → Prop where
  | empty : IsBuilt empty
  | makeDirectory {fs fs' : FileSystem} {path : Path} (hfs : IsBuilt fs)
      (hnul : path.holdsNul = false) (h : fs.makeDirectory path = .ok fs') : IsBuilt fs'
  | write {fs fs' : FileSystem} {path : Path} {bytes : List UInt8} (hfs : IsBuilt fs)
      (h : fs.write path bytes = .ok fs') : IsBuilt fs'
  | makeLink {fs fs' : FileSystem} {path : Path} {name target : Text} (hfs : IsBuilt fs)
      (hnul : path.holdsNul = false) (hname : Path.IsOrdinary name) (htarget : '\x00' ∉ target)
      (h : fs.makeLink path name target = .ok fs') : IsBuilt fs'
  | deny {fs fs' : FileSystem} {path : Path} (hfs : IsBuilt fs) (hnul : path.holdsNul = false)
      (h : fs.deny path = .ok fs') : IsBuilt fs'
  | changeDirectory {fs : FileSystem} {path : Path} {place : Place} (hfs : IsBuilt fs)
      (hnul : path.holdsNul = false) (h : fs.locate path = .ok place) :
      IsBuilt { fs with current := place.location }

/-- What is built up is a tree. -/
theorem IsBuilt.isTree (h : fs.IsBuilt) : fs.IsTree := by
  induction h with
  | empty => exact ⟨List.nodup_nil, nofun, nofun, nofun⟩
  | @makeDirectory fs fs' path _ hnul h ih =>
    unfold FileSystem.makeDirectory at h
    split at h
    · cases h
    · rename_i place hlocate
      split at h
      · rw [← Except.ok.inj h]
        exact ih.put (ih.isOrdinary_of_locate hlocate hnul) nofun
      · split at h
        · exact Except.ok.inj h ▸ ih
        · cases h
  | @write fs fs' path bytes _ h ih =>
    have hput (place : Place) (hlocate : fs.locate path = .ok place) (hnul : path.holdsNul = false) :
        (fs.put place.location ⟨.file bytes, false⟩).IsTree :=
      ih.put (ih.isOrdinary_of_locate hlocate hnul) nofun
    unfold FileSystem.write at h
    split at h
    · cases h
    · rename_i hnul
      rw [Bool.not_eq_true] at hnul
      split at h
      · cases h
      · rename_i place hlocate
        split at h
        · exact Except.ok.inj h ▸ hput place hlocate hnul
        · split at h
          · cases h
          · split at h
            · cases h
            · exact Except.ok.inj h ▸ hput place hlocate hnul
  | @makeLink fs fs' path name target _ hnul hname htarget h ih =>
    unfold FileSystem.makeLink at h
    split at h
    · cases h
    · rename_i place hlocate
      rw [← Except.ok.inj h]
      refine ih.put ((ih.isOrdinary_of_locate hlocate hnul).child hname) fun other hother => ?_
      rwa [← Option.some.inj hother]
  | @deny fs fs' path _ hnul h ih =>
    unfold FileSystem.deny at h
    split at h
    · cases h
    · rename_i place node hlookup
      obtain ⟨hlocate, hnode⟩ := lookup_eq_ok_iff.1 hlookup
      rw [← Except.ok.inj h]
      refine ih.put (ih.isOrdinary_of_locate hlocate hnul) fun target htarget => ?_
      exact ih.not_mem_of_target? (Option.bind_eq_some_iff.2 ⟨node, hnode, htarget⟩)
  | @changeDirectory fs path place _ hnul h ih =>
    exact ⟨ih.nodup, ih.names, ih.targets, ih.isOrdinary_of_locate h hnul⟩

end FileSystem

end DirectiveIndex
