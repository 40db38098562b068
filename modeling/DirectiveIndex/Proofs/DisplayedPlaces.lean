import DirectiveIndex.Proofs.Continuations
import DirectiveIndex.Proofs.DisplayTexts

namespace DirectiveIndex

/-- The path that a text stands for, seen from a directory. -/
def Path.joined (directory : Path) (text : Text) : Path :=
  if (ofText text).root = .relative then directory.below (ofText text).names else ofText text

/-- The names that have come of following others: those up to where it has arrived, or all that are left where it has
been given up. -/
def Resolution.names {fs : FileSystem} : Resolution fs → List Text
  | .arrived spot => spot.location
  | .looped left => left

namespace Path

/-- Ordinary names without a slash make a proper path. -/
theorem isProper_relative {names : List Text} (hordinary : FileSystem.IsOrdinary names)
    (hslash : ∀ name ∈ names, '/' ∉ name) : (⟨.relative, names⟩ : Path).IsProper :=
  fun name hname => ⟨(hordinary name hname).1, (hordinary name hname).2.1, hslash name hname⟩

/-- The pieces between the slashes of a relative path are its names, if it has any. -/
theorem split_text_relative {names : List Text} (hslash : ∀ name ∈ names, '/' ∉ name) :
    (⟨.relative, names⟩ : Path).text = selfName ∨ Text.split '/' (⟨.relative, names⟩ : Path).text = names := by
  by_cases hne : names = []
  · rw [hne]
    exact .inl rfl
  · right
    rw [text, if_neg fun hself => hne hself.2]
    exact Text.split_join hne hslash

end Path

namespace FileSystem

variable {fs : FileSystem} {frame ends : Frame} {path resolved directory above : Path} {names tail : List Text}
  {entered : List (Spot fs)} {spot : Spot fs} {text : Text} {place : Place}

/-- What all names on the way have in common, those of links' targets included, the names that come of following them
have as well. -/
theorem forall_mem_names_follow {p : Text → Prop}
    (htargets : ∀ location target, fs.target? location = some target → ∀ name ∈ rawNames target, p name)
    (hspot : ∀ name ∈ spot.location, p name) (hnames : ∀ name ∈ names, p name) :
    ∀ name ∈ (fs.follow entered spot names).names, p name := by
  have hchild {spot : Spot fs} {name : Text} (hspot : ∀ name ∈ spot.location, p name) (hname : p name) :
      ∀ other ∈ (spot.child name).location, p other := by
    rw [Spot.location_child]
    exact List.forall_mem_append.2 ⟨hspot, List.forall_mem_singleton.2 hname⟩
  have hstart {spot : Spot fs} (hspot : ∀ name ∈ spot.location, p name) (target : Text) :
      ∀ name ∈ (spot.targetStart target).location, p name := by
    unfold Spot.targetStart
    split
    · exact nofun
    · exact hspot
  fun_induction follow fs entered spot names with
  | case1 => exact hspot
  | case2 entered spot name names _ ih => exact ih hspot (List.forall_mem_cons.1 hnames).2
  | case3 entered spot names _ ih =>
    rw [Spot.location_parent] at ih
    exact ih (fun name hname => hspot name (List.mem_of_mem_dropLast hname)) (List.forall_mem_cons.1 hnames).2
  | case4 entered spot name names _ _ _ ih =>
    obtain ⟨hname, hnames⟩ := List.forall_mem_cons.1 hnames
    exact ih (hchild hspot hname) hnames
  | case5 entered spot name names _ _ _ _ _ =>
    obtain ⟨hname, hnames⟩ := List.forall_mem_cons.1 hnames
    exact forall_mem_appendNames (hchild hspot hname) hnames
  | case6 entered spot name names _ _ target htarget _ reached hreached ihtarget ih =>
    have hreachedNames := ihtarget (hstart hspot target) (htargets _ target (Spot.target?_eq_some htarget))
    rw [hreached] at hreachedNames
    exact ih hreachedNames (List.forall_mem_cons.1 hnames).2
  | case7 entered spot name names _ _ target htarget _ left hleft ihtarget =>
    have hleftNames := ihtarget (hstart hspot target) (htargets _ target (Spot.target?_eq_some htarget))
    rw [hleft] at hleftNames
    exact forall_mem_appendNames hleftNames (List.forall_mem_cons.1 hnames).2

/-- Collapsing adds no names. -/
theorem forall_mem_collapse {p : Text → Prop} {location : Location} (hlocation : ∀ name ∈ location, p name)
    (hnames : ∀ name ∈ names, p name) : ∀ name ∈ collapse location names, p name := by
  fun_induction collapse location names with
  | case1 => exact hlocation
  | case2 location name names _ ih => exact ih hlocation (List.forall_mem_cons.1 hnames).2
  | case3 location names _ ih =>
    exact ih (fun name hname => hlocation name (List.mem_of_mem_dropLast hname)) (List.forall_mem_cons.1 hnames).2
  | case4 location name names _ _ ih =>
    obtain ⟨hname, hnames⟩ := List.forall_mem_cons.1 hnames
    exact ih (List.forall_mem_append.2 ⟨hlocation, List.forall_mem_singleton.2 hname⟩) hnames

/-- No name of a resolved path holds a slash. -/
theorem slash_not_mem_of_resolve (hcurrent : (pathOf fs.current).IsProper) (hpath : path.IsProper)
    (h : fs.resolve path = .ok resolved) : ∀ name ∈ resolved.names, '/' ∉ name := by
  have hnames : ∀ name ∈ (fs.followed path).names, '/' ∉ name := by
    refine forall_mem_names_follow (fun _ target _ name hname => ?_) ?_ fun name hname => (hpath name hname).2.2
    · exact Text.not_mem_of_mem_split (mem_split_of_mem_rawNames hname)
    · rw [Spot.location_ofPath, startOf]
      split
      · exact fun name hname => (hcurrent name hname).2.2
      · exact List.forall_mem_nil _
  rw [← (resolve_eq_ok_iff.1 h).2.2.1]
  cases hfollowed : fs.followed path with
  | arrived spot => rwa [hfollowed] at hnames
  | looped left =>
    rw [hfollowed] at hnames
    exact forall_mem_collapse (List.forall_mem_nil _) hnames

end FileSystem

/-- Whether a text is a relative path of names that are no dots, unless it is one dot. -/
def Text.IsLocal (text : Text) : Prop :=
  (Path.ofText text).root = .relative ∧ (text = Path.selfName ∨ ∀ piece ∈ Text.split '/' text, Path.IsPlain piece)

/-- The directory of a frame from which a file is shown: the base if the file lies there, or else the root of the
search if it lies there. -/
def Frame.directory? (frame ends : Frame) (resolved : Path) : Option Path :=
  if ends.base.names <+: resolved.names then some frame.base
  else if ends.root.names <+: resolved.names then some frame.root
  else none

namespace Path

variable {path above directory : Path} {tail : List Text}

/-- A path whose names go on from those of another one lies below it. -/
theorem eq_below_of_append (hroot : path.root = above.root) (hnames : above.names ++ tail = path.names) :
    path = above.below tail := by
  rw [below, hnames, ← hroot]

/-- The text of a relative path with ordinary names is local, and leads on from a directory by these names. -/
theorem isLocal_text (hordinary : FileSystem.IsOrdinary tail) (hslash : ∀ name ∈ tail, '/' ∉ name) :
    Text.IsLocal (⟨.relative, tail⟩ : Path).text ∧
      directory.joined (⟨.relative, tail⟩ : Path).text = directory.below tail := by
  have hread : ofText (⟨.relative, tail⟩ : Path).text = ⟨.relative, tail⟩ :=
    ofText_text (isProper_relative hordinary hslash)
  refine ⟨⟨by rw [hread], (split_text_relative hslash).imp_right fun hsplit => ?_⟩, ?_⟩
  · rw [hsplit]
    exact fun name hname => (hordinary name hname).isPlain
  · rw [joined, hread, if_pos rfl]

end Path

namespace FileSystem

variable {fs : FileSystem} {frame ends : Frame} {path resolved directory above : Path} {tail : List Text}

/-- A file in a directory of the frame is shown by the names that lead down to it from what the directory resolves to.
-/
theorem shown_of_directory? (hends : frame.ResolvesTo fs ends) (hpath : fs.resolve path = .ok resolved)
    (h : frame.directory? ends resolved = some directory) :
    ∃ above tail, fs.resolve directory = .ok above ∧ resolved = above.below tail ∧
      ends.shown resolved path = ⟨.relative, tail⟩ := by
  have hbase : resolved.root = ends.base.root := (root_of_resolve hpath).trans (root_of_resolve hends.1).symm
  have hroot : resolved.root = ends.root.root := (root_of_resolve hpath).trans (root_of_resolve hends.2).symm
  unfold Frame.directory? at h
  split at h
  · rename_i hprefix
    obtain ⟨tail, htail⟩ := hprefix
    refine ⟨ends.base, tail, Option.some.inj h ▸ hends.1, Path.eq_below_of_append hbase htail, ?_⟩
    rw [Frame.shown, Path.relativeTo?_of_append hbase htail.symm]
    rfl
  · rename_i hnot
    split at h
    · rename_i hprefix
      obtain ⟨tail, htail⟩ := hprefix
      refine ⟨ends.root, tail, Option.some.inj h ▸ hends.2, Path.eq_below_of_append hroot htail, ?_⟩
      rw [Frame.shown, Path.relativeTo?_of_not_prefix hnot, Path.relativeTo?_of_append hroot htail.symm]
      rfl
    · cases h

/-- A file in no directory of the frame is shown as its path. -/
theorem shown_of_directory?_eq_none (h : frame.directory? ends resolved = none) : ends.shown resolved path = path := by
  unfold Frame.directory? at h
  split at h
  · cases h
  · rename_i hbase
    split at h
    · cases h
    · rename_i hroot
      rw [Frame.shown, Path.relativeTo?_of_not_prefix hbase, Path.relativeTo?_of_not_prefix hroot]
      rfl

section Below

variable (htree : fs.IsTree) (hproper : directory.IsProper) (hdirectory : fs.resolve directory = .ok above)
  (htail : IsOrdinary tail) (hpath : fs.resolve path = .ok (above.below tail))
include hproper hdirectory htail hpath

/-- Names lead from a directory to a file if the directory has been given up at a loop, or if no link is left on the way
that can be seen. -/
theorem sameFile_below (h : fs.MeetsLoop directory ∨ (directory.root = .relative → fs.ReachesCurrent) ∧
    ¬ fs.LeadsThroughLink (above.below tail)) : fs.SameFile (directory.below tail) path := by
  obtain ⟨-, hresolved, -, hwalk⟩ := resolve_eq_ok_iff.1 hpath
  refine ⟨above.below tail, ?_, hpath⟩
  by_cases hloop : fs.MeetsLoop directory
  · exact resolve_below_of_meetsLoop hproper hdirectory htail hloop hresolved hwalk
  · obtain ⟨hsight, hlinks⟩ := h.resolve_left hloop
    exact resolve_below_of_not_leadsThroughLink hproper hdirectory htail hloop hsight hresolved hwalk hlinks

include htree in
/-- From a directory whose path starts at the root, names lead to a file if and only if the directory has been given
up at a loop or what the file resolves to resolves to itself. -/
theorem sameFile_below_iff (hroot : directory.root ≠ .relative) :
    fs.SameFile (directory.below tail) path ↔
      fs.MeetsLoop directory ∨ fs.resolve (above.below tail) = .ok (above.below tail) := by
  by_cases hloop : fs.MeetsLoop directory
  · exact iff_of_true (sameFile_below hproper hdirectory htail hpath (.inl hloop)) (.inl hloop)
  · rw [SameFile, resolve_below_eq hproper hdirectory htail htree hroot hloop, hpath, or_iff_right hloop]
    constructor
    · rintro ⟨place, hplace, hsame⟩
      rw [hplace, Except.ok.inj hsame]
    · exact fun h => ⟨_, h, rfl⟩

end Below

/-- The directory with a link, seen from the directory that the link leads to. -/
def enteredTree : FileSystem :=
  { linkedTree with current := [['r'], ['a']] }

/-- The link as the base, and the directory around it as the root of the search. -/
def linkedFrame : Frame :=
  ⟨⟨.relative, [Path.parentName, ['l']]⟩, ⟨.absolute, [['r']]⟩⟩

theorem reachesCurrent_enteredTree : enteredTree.ReachesCurrent :=
  ⟨.child (.child .root rfl (by decide) rfl) (by cbv) (by decide) (by cbv), by cbv⟩

theorem resolve_enteredTree {path : Path} {place : Place} (hlocate : enteredTree.locate path = .ok place)
    (hnul : path.holdsNul = false) : enteredTree.resolve path = .ok (pathOf place.location) := by
  refine resolve_of_locate hlocate ?_ hnul
  unfold startOf
  split
  · exact reachesCurrent_enteredTree.1
  · exact .root

/-- What can be looked up is not given up at a loop. -/
theorem not_meetsLoop_of_locate {place : Place} (hlocate : fs.locate path = .ok place) : ¬ fs.MeetsLoop path := by
  rintro ⟨left, hleft⟩
  obtain ⟨reached, hreached, -⟩ := followed_of_locate hlocate
  cases hreached.symm.trans hleft

/-- Whether a file in a directory of the frame has a display text that leads to another place. -/
def LeadsElsewhere (fs : FileSystem) (frame : Frame) (path : Path) : Prop :=
  ∃ ends resolved directory text, frame.ResolvesTo fs ends ∧ fs.resolve path = .ok resolved ∧
    (∀ name ∈ path.names ++ resolved.names, '\\' ∉ name) ∧ frame.directory? ends resolved = some directory ∧
      fs.display frame path = .ok text ∧ ¬ fs.SameFile (directory.joined text) path

/-- A path leads elsewhere if its displayed text is resolved to another place. -/
theorem leadsElsewhere_of_ne {place : Path} (hends : frame.ResolvesTo fs ends) (hpath : fs.resolve path = .ok resolved)
    (hslashes : ∀ name ∈ path.names ++ resolved.names, '\\' ∉ name)
    (hdirectory : frame.directory? ends resolved = some directory)
    (hplace : fs.resolve (directory.joined (ends.displayText resolved path)) = .ok place) (hne : place ≠ resolved) :
    fs.LeadsElsewhere frame path := by
  refine ⟨ends, resolved, directory, _, hends, hpath, hslashes, hdirectory, Frame.display_eq hends hpath, ?_⟩
  rintro ⟨same, hthere, hhere⟩
  rw [hplace] at hthere
  rw [hpath] at hhere
  exact hne ((Except.ok.inj hthere).trans (Except.ok.inj hhere).symm)

/-- A path is resolved even if its place cannot be looked up, as long as links are not the cause. -/
theorem resolve_of_followed {location : Location} (cause : Cause) (hnul : path.holdsNul = false)
    (hfollowed : (fs.followed path).location = location) (hwalk : fs.walk linkLimit [] location = .error cause)
    (hcause : cause ≠ .tooManyLinks) : fs.resolve path = .ok (pathOf location) := by
  refine resolve_eq_ok_iff.2 ⟨hnul, rfl, hfollowed, ?_⟩
  rw [pathOf, hwalk]
  exact fun h => hcause (Except.error.inj h)

/-- A directory with a link to itself and a link to something that is missing. -/
def loopTree : FileSystem :=
  ⟨[([['r']], ⟨.directory, false⟩), ([['r'], ['x']], ⟨.link ['x'], false⟩),
    ([['r'], ['f']], ⟨.link "nodir/m".toList, false⟩)], []⟩

/-- The directory as the base and as the root of the search. -/
def loopFrame : Frame :=
  ⟨⟨.absolute, [['r']]⟩, ⟨.absolute, [['r']]⟩⟩

/-- The second link, on a way through the first. -/
def loopedPath : Path :=
  ⟨.absolute, [['r'], ['x'], Path.parentName, ['f']]⟩

/-- The way is given up at the first link, so the second one is not followed. -/
theorem resolve_loopedPath : loopTree.resolve loopedPath = .ok (pathOf [['r'], ['f']]) := by
  have hroot : (Spot.child (⟨none, []⟩ : Spot loopTree) ['r']).target? = none := by cbv
  have hself : (Spot.child (⟨none, [['r']]⟩ : Spot loopTree) ['x']).target? = some ['x'] := by cbv
  have hagain : loopTree.follow [⟨none, [['r'], ['x']]⟩] ⟨none, [['r']]⟩ [['x']] = .looped [['r'], ['x']] :=
    follow_of_mem (by decide) hself (by decide)
  have hfollowed : loopTree.followed loopedPath = .looped [['r'], ['x'], Path.parentName, ['f']] :=
    (follow_of_target?_none (by decide) hroot).trans (follow_of_looped (by decide) hself (by decide) hagain)
  exact resolve_of_followed .notFound (by decide) (congrArg _ hfollowed) (by cbv) (by decide)

theorem resolve_loopTree_link :
    loopTree.resolve ⟨.absolute, [['r'], ['f']]⟩ = .ok (pathOf [['r'], "nodir".toList, ['m']]) := by
  have hroot : (Spot.child (⟨none, []⟩ : Spot loopTree) ['r']).target? = none := by cbv
  have hlink : (Spot.child (⟨none, [['r']]⟩ : Spot loopTree) ['f']).target? = some "nodir/m".toList := by cbv
  have htarget : loopTree.follow [⟨none, [['r'], ['f']]⟩] ⟨none, [['r']]⟩ ["nodir".toList, ['m']] =
      .arrived ⟨none, [['r'], "nodir".toList, ['m']]⟩ := by
    rw [follow_of_target?_none (by decide) (by cbv), follow_of_target?_none (by decide) (by cbv), follow]
    rfl
  have hfollowed : loopTree.followed ⟨.absolute, [['r'], ['f']]⟩ = .arrived ⟨none, [['r'], "nodir".toList, ['m']]⟩ :=
    (follow_of_target?_none (by decide) hroot).trans
      ((follow_of_arrived (by decide) hlink (by decide) htarget).trans (by rw [follow]))
  exact resolve_of_followed .notFound (by decide) (congrArg _ hfollowed) (by cbv) (by decide)

/-- A link in the current directory, which lies in a directory that is denied. -/
def deniedTree : FileSystem :=
  ⟨[([['d']], ⟨.directory, true⟩), ([['d'], ['e']], ⟨.directory, false⟩),
    ([['d'], ['e'], ['l']], ⟨.link ['f'], false⟩)], [['d'], ['e']]⟩

/-- The current directory as the base and as the root of the search. -/
def currentFrame : Frame :=
  ⟨⟨.relative, []⟩, ⟨.relative, []⟩⟩

theorem resolve_deniedTree_current : deniedTree.resolve ⟨.relative, []⟩ = .ok (pathOf [['d'], ['e']]) := by
  have hfollowed : deniedTree.followed ⟨.relative, []⟩ = .arrived ⟨some 0, []⟩ := by
    rw [followed, follow]
    rfl
  exact resolve_of_followed .denied rfl (congrArg _ hfollowed) (by cbv) (by decide)

/-- From the root the link cannot be seen. -/
theorem resolve_deniedTree_absolute :
    deniedTree.resolve ⟨.absolute, [['d'], ['e'], ['l']]⟩ = .ok (pathOf [['d'], ['e'], ['l']]) := by
  have hfollowed : deniedTree.followed ⟨.absolute, [['d'], ['e'], ['l']]⟩ = .arrived ⟨none, [['d'], ['e'], ['l']]⟩ := by
    rw [followed, follow_of_target?_none (by decide) (by cbv), follow_of_target?_none (by decide) (by cbv),
      follow_of_target?_none (by decide) (by cbv), follow]
    rfl
  exact resolve_of_followed .denied (by decide) (congrArg _ hfollowed) (by cbv) (by decide)

/-- From the current directory it can be seen, and is followed. -/
theorem resolve_deniedTree_relative :
    deniedTree.resolve ⟨.relative, [['l']]⟩ = .ok (pathOf [['d'], ['e'], ['f']]) := by
  have hlink : (Spot.child (⟨some 0, []⟩ : Spot deniedTree) ['l']).target? = some ['f'] := by cbv
  have htarget : deniedTree.follow [⟨some 0, [['l']]⟩] ⟨some 0, []⟩ [['f']] = .arrived ⟨some 0, [['f']]⟩ := by
    rw [follow_of_target?_none (by decide) (by cbv), follow]
    rfl
  have hfollowed : deniedTree.followed ⟨.relative, [['l']]⟩ = .arrived ⟨some 0, [['f']]⟩ :=
    (follow_of_arrived (by decide) hlink (by decide) htarget).trans (by rw [follow])
  exact resolve_of_followed .denied (by decide) (congrArg _ hfollowed) (by cbv) (by decide)

end FileSystem

end DirectiveIndex
