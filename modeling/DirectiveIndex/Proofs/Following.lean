import DirectiveIndex.Proofs.Lookups
import DirectiveIndex.Proofs.Resolving

namespace DirectiveIndex

namespace FileSystem

variable {fs : FileSystem} {path : Path} {location : Location} {names : List Text} {name : Text} {linksLeft : Nat}
  {place : Place} {entered : List (Spot fs)} {spot reached : Spot fs}

/-- Whether a name counts when names are followed. -/
def counts (name : Text) : Bool :=
  name != [] && name != Path.selfName

/-- The names that do not count are the empty ones and those of the directory itself. -/
theorem counts_eq_false_iff : counts name = false ↔ name = [] ∨ name = Path.selfName := by
  rw [counts, Bool.and_eq_false_iff]
  simp

/-- Names that do not count make no difference to where names lead. -/
theorem follow_filter_counts (entered : List (Spot fs)) (spot : Spot fs) (names : List Text) :
    fs.follow entered spot (names.filter counts) = .arrived reached ↔
      fs.follow entered spot names = .arrived reached := by
  induction names generalizing spot with
  | nil => rfl
  | cons name names ih =>
    by_cases hcounts : counts name = true
    · have hskip : ¬ (name = [] ∨ name = Path.selfName) := by
        rw [← counts_eq_false_iff, hcounts]
        exact Bool.noConfusion
      rw [List.filter_cons_of_pos hcounts, follow, follow, if_neg hskip, if_neg hskip]
      by_cases hparent : name = Path.parentName
      · rw [if_pos hparent, if_pos hparent, ih]
      · rw [if_neg hparent, if_neg hparent]
        split
        · exact ih _
        · split
          · simp
          · split
            · exact ih _
            · simp
    · have hskip := counts_eq_false_iff.1 (Bool.not_eq_true _ ▸ hcounts)
      rw [List.filter_cons_of_neg hcounts, follow, if_pos hskip, ih]

/-- Both readings of a target have the same names that count. -/
theorem filter_counts_rawNames (target : Text) :
    (rawNames target).filter counts = (targetNames target).filter counts := by
  have htarget : (targetNames target).filter counts = (Text.split '/' target).filter counts := by
    have hlast : (if target.getLast? = some '/' then [[]] else []).filter counts = [] := by
      split <;> rfl
    rw [targetNames, List.filter_append, hlast, List.append_nil, List.filter_filter]
    refine List.filter_congr fun name _ => ?_
    rw [counts]
    cases name != [] <;> simp
  rw [htarget]
  unfold rawNames
  split
  · rename_i rest hsplit
    rw [hsplit, List.filter_cons_of_neg (by decide)]
  · rfl

/-- The names of a target lead to the same whether they are taken as they are written or as a look-up takes them. -/
theorem follow_rawNames_iff {target : Text} :
    fs.follow entered spot (rawNames target) = .arrived reached ↔
      fs.follow entered spot (targetNames target) = .arrived reached := by
  rw [← follow_filter_counts, filter_counts_rawNames, follow_filter_counts]

end FileSystem

namespace Spot

open FileSystem

variable {fs : FileSystem} {spot : Spot fs}

/-- Whether a spot can be looked up in the way that it is spelled: all that it leads through are directories that can be
searched, and nothing below its start, the spot itself included, is a link. -/
inductive IsReal : Spot fs → Prop where
  | root : IsReal ⟨none, []⟩
  | here : IsReal ⟨some 0, []⟩
  | above {levels : Fin (fs.current.length + 1)} (hbelow : IsReal ⟨some levels, []⟩)
      (hsearch : fs.search (location ⟨some levels, []⟩) = .ok ()) : IsReal ⟨some (climb levels), []⟩
  | child {spot : Spot fs} {name : Text} (habove : IsReal spot) (hsearch : fs.search spot.location = .ok ())
      (hplain : Path.IsPlain name) (hlink : fs.target? (spot.location ++ [name]) = none) : IsReal (spot.child name)

/-- The path of a spot below another one. -/
theorem path_child (spot : Spot fs) (name : Text) : (spot.child name).path = spot.path.child name := by
  obtain ⟨_ | levels, names⟩ := spot
  · rfl
  · exact congrArg _ (List.append_assoc _ _ _).symm

/-- Going down leaves the start of a spot's path. -/
theorem startOf_path_child (spot : Spot fs) (name : Text) :
    fs.startOf (spot.child name).path = fs.startOf spot.path := by
  rw [path_child]
  rfl

/-- A path starts at a real spot. -/
theorem isReal_ofPath (path : Path) : (ofPath fs path).IsReal := by
  unfold ofPath
  split
  · exact .here
  · exact .root

namespace IsReal

/-- Going up from a real spot that can be searched leads to a real spot. -/
theorem parent (h : spot.IsReal) (hsearch : fs.search spot.location = .ok ()) : spot.parent.IsReal := by
  cases h with
  | root => exact .root
  | here => exact .above .here hsearch
  | above hbelow => exact .above (.above hbelow ‹_›) hsearch
  | @child above name habove =>
    have hparent : (above.child name).parent = above := by simp [Spot.parent, Spot.child]
    rwa [hparent]

/-- The target of a link starts at a real spot. -/
theorem targetStart (h : spot.IsReal) (target : Text) : (spot.targetStart target).IsReal := by
  unfold Spot.targetStart
  split
  · exact .root
  · exact h

/-- A real spot is looked up without following a link. -/
theorem walk_eq (h : spot.IsReal) (linksLeft : Nat) :
    fs.walk linksLeft (fs.startOf spot.path) spot.path.names = .ok ⟨spot.location, linksLeft⟩ := by
  induction h with
  | root => simp [path, location, start, startOf, walk]
  | here => simp [path, location, start, startOf, walk]
  | @above levels _ hsearch ih =>
    by_cases htop : levels.val < fs.current.length
    · have hclimb : (climb levels).val = levels.val + 1 := Nat.min_eq_left htop
      have hparent : location ⟨some (climb levels), []⟩ = (location ⟨some levels, []⟩).dropLast :=
        location_parent ⟨some levels, []⟩
      have hnames : (path ⟨some (climb levels), []⟩).names = (path ⟨some levels, []⟩).names ++ [Path.parentName] := by
        simp only [path, hclimb, List.append_nil, List.replicate_succ']
      rw [hnames, hparent]
      refine walk_append_eq_ok_iff.2 ⟨_, ih, ?_⟩
      rw [walk, if_neg (by decide), hsearch]
      simp only [if_neg (show ¬ Path.parentName = Path.selfName by decide), if_true, walk]
    · have hclimb : climb levels = levels := Fin.ext (by simp only [climb]; omega)
      rwa [hclimb]
  | @child spot name _ hsearch hplain hlink ih =>
    rw [startOf_path_child, path_child, location_child]
    refine walk_append_eq_ok_iff.2 ⟨_, ih, ?_⟩
    rw [walk_singleton hplain, hsearch]
    simp only [Except.bind, enter, hlink]

/-- At a real spot that can be searched, every link can be looked at. -/
theorem target?_child (h : spot.IsReal) (hsearch : fs.search spot.location = .ok ()) (name : Text) :
    (spot.child name).target? = fs.target? (spot.location ++ [name]) := by
  have hreveals : fs.reveals (fs.startOf (spot.child name).path) (spot.child name).path.names = true := by
    rw [startOf_path_child, path_child, reveals, Path.child, List.dropLast_concat, h.walk_eq]
    dsimp only
    rw [hsearch]
    rfl
  rw [Spot.target?, if_pos hreveals, location_child]

end IsReal

end Spot

namespace FileSystem

variable {fs : FileSystem} {path : Path} {location : Location} {names : List Text} {name : Text} {linksLeft : Nat}
  {place : Place} {entered : List (Spot fs)} {spot reached : Spot fs}

/-- Whether following a link takes at least so many further links. -/
def Outlasts (fs : FileSystem) (location : Location) (count : Nat) : Prop :=
  ∃ target limit place, fs.target? location = some target ∧
    fs.walk limit (targetStart location.dropLast target) (targetNames target) = .ok place ∧
    count + place.linksLeft ≤ limit

/-- What outlasts more links outlasts fewer. -/
theorem Outlasts.mono {count fewer : Nat} (h : fs.Outlasts location count) (hle : fewer ≤ count) :
    fs.Outlasts location fewer := by
  obtain ⟨target, limit, place, htarget, hwalk, hcount⟩ := h
  exact ⟨target, limit, place, htarget, hwalk, by omega⟩

/-- A link whose target takes fewer links than the links being followed outlast is none of them. -/
theorem not_mem_of_outlasts {target : Text} {left count : Nat}
    (hentered : ∀ other ∈ entered, fs.Outlasts other.location count) (htarget : fs.target? spot.location = some target)
    (hwalk : fs.walk left (targetStart spot.location.dropLast target) (targetNames target) = .ok place)
    (hlt : left < count + place.linksLeft) : spot ∉ entered := by
  intro hmem
  obtain ⟨again, limit, last, hagain, hagainWalk, hcount⟩ := hentered spot hmem
  obtain rfl : again = target := Option.some.inj (hagain.symm.trans htarget)
  have huse := (walk_unique hwalk hagainWalk).2
  omega

/-- Where a look-up comes to a location, following the same names arrives there. The induction is on the links that the
look-up may still follow, then on the names; a link that is being followed outlasts what is left, so it is not met. -/
theorem follow_of_walk (hwalk : fs.walk linksLeft spot.location names = .ok place) (hreal : spot.IsReal)
    (hentered : ∀ other ∈ entered, fs.Outlasts other.location (linksLeft - place.linksLeft)) :
    ∃ reached, fs.follow entered spot names = .arrived reached ∧ reached.IsReal ∧ reached.location = place.location := by
  induction linksLeft using Nat.strongRecOn generalizing spot names place entered with
  | ind linksLeft ihlinks =>
  induction names generalizing spot with
  | nil =>
    rw [walk] at hwalk
    rw [← Except.ok.inj hwalk, follow]
    exact ⟨spot, rfl, hreal, rfl⟩
  | cons name names ih =>
    obtain ⟨hskip, hrest⟩ | ⟨hsearch, ⟨rfl, hrest⟩ | ⟨hname, hlink, hrest⟩ | ⟨hname, hlinked⟩⟩ :=
      walk_cons_cases hwalk
    · rw [follow, if_pos hskip]
      exact ih hrest hreal
    · rw [follow, if_neg (by decide), if_pos rfl]
      exact ih (spot.location_parent ▸ hrest) (hreal.parent hsearch)
    · rw [follow_of_target?_none hname ((hreal.target?_child hsearch name).trans hlink)]
      exact ih (spot.location_child name ▸ hrest) (.child hreal hsearch hname hlink)
    · obtain ⟨target, left, mid, hlink, rfl, hinner, houter⟩ := hlinked
      have hmid := walk_linksLeft_le hinner
      have hplace := walk_linksLeft_le houter
      have hdirectory : (spot.child name).location.dropLast = spot.location := by
        rw [spot.location_child, List.dropLast_concat]
      have hthere : fs.target? (spot.child name).location = some target := spot.location_child name ▸ hlink
      have hnew : spot.child name ∉ entered :=
        not_mem_of_outlasts hentered hthere (hdirectory.symm ▸ hinner) (by omega)
      -- on the way to the target the link itself is entered as well, and outlasts what is left there
      have hinside : ∀ other ∈ spot.child name :: entered, fs.Outlasts other.location (left - mid.linksLeft) := by
        refine List.forall_mem_cons.2 ⟨⟨target, left, mid, hthere, ?_, by omega⟩, fun other hother => ?_⟩
        · rw [hdirectory]
          exact hinner
        · exact (hentered other hother).mono (by omega)
      have hbehind : ∀ other ∈ entered, fs.Outlasts other.location (mid.linksLeft - place.linksLeft) :=
        fun other hother => (hentered other hother).mono (by omega)
      rw [← spot.location_targetStart] at hinner
      obtain ⟨reached, harrived, hreached, hlocation⟩ :=
        ihlinks left (Nat.lt_succ_self left) hinner (hreal.targetStart target) hinside
      rw [follow_of_arrived hname ((hreal.target?_child hsearch name).trans hlink) hnew
        (follow_rawNames_iff.2 harrived)]
      exact ihlinks mid.linksLeft (Nat.lt_succ_of_le hmid) (hlocation ▸ houter) hreached hbehind

/-- The dot that stands for a path without names is passed over. -/
theorem follow_stepsOf (spot : Spot fs) (path : Path) :
    fs.follow entered spot (stepsOf path) = fs.follow entered spot path.names := by
  unfold stepsOf
  split
  · rename_i hpath
    rw [follow, if_pos (.inr rfl), hpath.2]
  · rfl

/-- A path that can be looked up is followed to the place that it leads to. -/
theorem followed_of_locate (hlocate : fs.locate path = .ok place) :
    ∃ reached, fs.followed path = .arrived reached ∧ reached.location = place.location := by
  rw [locate, ← Spot.location_ofPath] at hlocate
  obtain ⟨reached, hreached, -, hlocation⟩ := follow_of_walk hlocate (Spot.isReal_ofPath path) (List.forall_mem_nil _)
  rw [follow_stepsOf] at hreached
  exact ⟨reached, hreached, hlocation⟩

/-- A path that can be looked up resolves to the place that it leads to. -/
theorem resolve_of_locate (hlocate : fs.locate path = .ok place) (hstart : fs.IsReal (fs.startOf path))
    (hnul : path.holdsNul = false) : fs.resolve path = .ok (pathOf place.location) := by
  obtain ⟨reached, hreached, hlocation⟩ := followed_of_locate hlocate
  have hreal : fs.IsReal place.location := isReal_of_walk hlocate hstart
  refine resolve_eq_ok_iff.2 ⟨hnul, rfl, ?_, ?_⟩
  · rw [hreached]
    exact hlocation
  · rw [pathOf, hreal.walk_eq]
    intro h
    cases h

end FileSystem

end DirectiveIndex
