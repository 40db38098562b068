import DirectiveIndex.Proofs.LinkFree
import DirectiveIndex.Proofs.PhysicalFiles

namespace DirectiveIndex.FileSystem

variable {fs : FileSystem} {path other resolved base above : Path} {names more tail : List Text}
  {entered : List (Spot fs)} {spot reached : Spot fs}

/-- Names that are not empty are all appended. -/
theorem appendNames_eq (h : ∀ name ∈ more, name ≠ []) : appendNames names more = names ++ more := by
  unfold appendNames
  split
  · exact absurd rfl (h [] List.mem_cons_self)
  · rfl

/-- Names behind others are followed from where the others lead, and kept as they are behind a loop. -/
theorem follow_append (hnames : ∀ name ∈ names, name ≠ []) (hmore : ∀ name ∈ more, name ≠ []) :
    fs.follow entered spot (names ++ more) =
      match fs.follow entered spot names with
      | .arrived reached => fs.follow entered reached more
      | .looped left => .looped (left ++ more) := by
  have hkept (location : Location) {rest : List Text} (hrest : ∀ name ∈ rest, name ≠ []) :
      appendNames location (rest ++ more) = appendNames location rest ++ more := by
    rw [appendNames_eq (List.forall_mem_append.2 ⟨hrest, hmore⟩), appendNames_eq hrest, List.append_assoc]
  have hplain {name : Text} (hskip : ¬ (name = [] ∨ name = Path.selfName)) (hparent : name ≠ Path.parentName) :
      Path.IsPlain name := ⟨fun h => hskip (.inl h), fun h => hskip (.inr h), hparent⟩
  fun_induction follow fs entered spot names with
  | case1 => rfl
  | case2 entered spot name names hskip ih =>
    rw [List.cons_append, follow, if_pos hskip]
    exact ih (List.forall_mem_cons.1 hnames).2
  | case3 entered spot names hskip ih =>
    rw [List.cons_append, follow, if_neg hskip, if_pos rfl]
    exact ih (List.forall_mem_cons.1 hnames).2
  | case4 entered spot name names hskip hparent hlink ih =>
    rw [List.cons_append, follow_of_target?_none (hplain hskip hparent) hlink]
    exact ih (List.forall_mem_cons.1 hnames).2
  | case5 entered spot name names hskip hparent target hlink hentered =>
    rw [List.cons_append, follow_of_mem (hplain hskip hparent) hlink hentered,
      hkept _ (List.forall_mem_cons.1 hnames).2]
  | case6 entered spot name names hskip hparent target hlink houtside reached hreached _ ih =>
    rw [List.cons_append, follow_of_arrived (hplain hskip hparent) hlink houtside hreached]
    exact ih (List.forall_mem_cons.1 hnames).2
  | case7 entered spot name names hskip hparent target hlink houtside left hleft _ =>
    rw [List.cons_append, follow_of_looped (hplain hskip hparent) hlink houtside hleft,
      hkept _ (List.forall_mem_cons.1 hnames).2]

/-- Names are collapsed one after the other. -/
theorem collapse_append (location : Location) (names more : List Text) :
    collapse location (names ++ more) = collapse (collapse location names) more := by
  fun_induction collapse location names with
  | case1 => rfl
  | case2 location name names hskip ih => rw [List.cons_append, collapse, if_pos hskip, ih]
  | case3 location names hskip ih => rw [List.cons_append, collapse, if_neg hskip, if_pos rfl, ih]
  | case4 location name names hskip hparent ih => rw [List.cons_append, collapse, if_neg hskip, if_neg hparent, ih]

/-- Whether following the names of a path is given up at a loop of links. -/
def MeetsLoop (fs : FileSystem) (path : Path) : Prop :=
  ∃ left, fs.followed path = .looped left

/-- Without a loop, a path is followed to where it leads. -/
theorem exists_arrived_of_not_meetsLoop (h : ¬ fs.MeetsLoop path) : ∃ reached, fs.followed path = .arrived reached := by
  cases hfollowed : fs.followed path with
  | arrived reached => exact ⟨reached, rfl⟩
  | looped left => exact absurd ⟨left, hfollowed⟩ h

/-- Resolving depends on what comes of following the names. -/
theorem resolve_congr (hnul : path.holdsNul = other.holdsNul) (hfollowed : fs.followed path = fs.followed other) :
    fs.resolve path = fs.resolve other := by
  rw [resolve, resolve, ← followed, ← followed, hnul, hfollowed]

/-- The names of a path are followed to a location without links, if the links can be seen. -/
theorem isLinkFree_of_followed (h : fs.followed path = .arrived reached)
    (hsight : path.root = .relative → fs.ReachesCurrent) : fs.IsLinkFree reached.location ∧ reached.IsFaithful := by
  refine isLinkFree_of_follow h ?_ ?_
  · unfold Spot.ofPath
    split
    · exact .inr (hsight ‹_›)
    · exact .inl rfl
  · rw [Spot.location_ofPath, startOf]
    split
    · exact (hsight ‹_›).1.isLinkFree
    · exact IsReal.root.isLinkFree

/-- A path that is not given up at a loop resolves to one that leads through no link. -/
theorem not_leadsThroughLink_of_resolve (hresolve : fs.resolve path = .ok resolved) (hloop : ¬ fs.MeetsLoop path)
    (hsight : path.root = .relative → fs.ReachesCurrent) : ¬ fs.LeadsThroughLink resolved := by
  obtain ⟨-, -, hlocation, -⟩ := resolve_eq_ok_iff.1 hresolve
  obtain ⟨reached, hreached⟩ := exists_arrived_of_not_meetsLoop hloop
  rw [hreached] at hlocation
  exact not_leadsThroughLink_iff.2 (hlocation ▸ (isLinkFree_of_followed hreached hsight).1)

section Below

/-- A path without NUL and ordinary names below it hold none. -/
theorem holdsNul_below (hbase : base.holdsNul = false) (htail : IsOrdinary tail) :
    (base.below tail).holdsNul = false :=
  Path.holdsNul_eq_false (List.forall_mem_append.2
    ⟨Path.not_mem_of_holdsNul hbase, fun name hname => (htail name hname).2.2.2⟩)

/-- A path below another one is followed from where that one leads, and behind a loop no link is
followed. -/
theorem followed_below (fs : FileSystem) (hbase : ∀ name ∈ base.names, name ≠ []) (htail : IsOrdinary tail) :
    fs.followed (base.below tail) =
      match fs.followed base with
      | .arrived reached => fs.follow [] reached tail
      | .looped left => .looped (left ++ tail) :=
  follow_append hbase fun name hname => (htail name hname).1

variable (hproper : base.IsProper) (hbase : fs.resolve base = .ok above) (htail : IsOrdinary tail)
include hproper hbase htail

/-- Below a path that is given up at a loop, further names are taken as they are. -/
theorem resolve_below_of_meetsLoop (hloop : fs.MeetsLoop base) (hresolved : resolved = pathOf (above.names ++ tail))
    (hwalk : fs.walk linkLimit [] resolved.names ≠ .error .tooManyLinks) :
    fs.resolve (base.below tail) = .ok resolved := by
  obtain ⟨left, hleft⟩ := hloop
  obtain ⟨hnul, -, hlocation, -⟩ := resolve_eq_ok_iff.1 hbase
  refine resolve_eq_ok_iff.2 ⟨holdsNul_below hnul htail, hresolved ▸ rfl, ?_, hwalk⟩
  rw [followed_below fs (fun name hname => (hproper name hname).1) htail, hleft]
  rw [hleft, Resolution.location] at hlocation
  dsimp only
  rw [Resolution.location, collapse_append, hlocation, collapse_eq_append htail, hresolved]
  rfl

/-- Below a path that is not given up, names that lead through no link resolve to where they lead. -/
theorem resolve_below_of_not_leadsThroughLink (hloop : ¬ fs.MeetsLoop base)
    (hsight : base.root = .relative → fs.ReachesCurrent) (hresolved : resolved = pathOf (above.names ++ tail))
    (hwalk : fs.walk linkLimit [] resolved.names ≠ .error .tooManyLinks) (hlinks : ¬ fs.LeadsThroughLink resolved) :
    fs.resolve (base.below tail) = .ok resolved := by
  obtain ⟨reached, hreached⟩ := exists_arrived_of_not_meetsLoop hloop
  obtain ⟨hnul, -, hlocation, -⟩ := resolve_eq_ok_iff.1 hbase
  rw [hreached, Resolution.location] at hlocation
  have hfree : fs.IsLinkFree (reached.location ++ tail) := by
    rw [not_leadsThroughLink_iff, hresolved] at hlinks
    rwa [hlocation]
  refine resolve_eq_ok_iff.2 ⟨holdsNul_below hnul htail, hresolved ▸ rfl, ?_, hwalk⟩
  rw [followed_below fs (fun name hname => (hproper name hname).1) htail, hreached]
  dsimp only
  rw [follow_of_isLinkFree (isLinkFree_of_followed hreached hsight).2 htail hfree, hresolved, pathOf, ← hlocation]
  exact (List.append_assoc _ _ _).symm

/-- Below a path that starts at the root and is not given up, names resolve as they do below what the path resolves
to. -/
theorem resolve_below_eq (htree : fs.IsTree) (hroot : base.root ≠ .relative) (hloop : ¬ fs.MeetsLoop base) :
    fs.resolve (base.below tail) = fs.resolve (above.below tail) := by
  obtain ⟨reached, hreached⟩ := exists_arrived_of_not_meetsLoop hloop
  obtain ⟨hnul, habove, hlocation, -⟩ := resolve_eq_ok_iff.1 hbase
  have hordinary : IsOrdinary above.names := htree.isOrdinary_of_resolve hbase
  have hfree : fs.IsLinkFree above.names := by
    rw [hreached] at hlocation
    exact hlocation ▸ (isLinkFree_of_followed hreached fun hrelative => absurd hrelative hroot).1
  have hclimbed : reached.climbed = none := climbed_of_follow hreached (by rw [Spot.ofPath, if_neg hroot])
  have hspot : reached = ⟨none, above.names⟩ := by
    rw [hreached, Resolution.location] at hlocation
    exact Spot.eq_of_location hclimbed hlocation
  have hthere : fs.followed above = .arrived ⟨none, above.names⟩ := by
    rw [habove]
    exact follow_of_isLinkFree (.inl rfl) hordinary hfree
  refine resolve_congr ?_ ?_
  · have hnames : above.holdsNul = false := Path.holdsNul_eq_false fun name hname => (hordinary name hname).2.2.2
    rw [holdsNul_below hnul htail, holdsNul_below hnames htail]
  · rw [followed_below fs (fun name hname => (hproper name hname).1) htail, hreached,
      followed_below fs (fun name hname => (hordinary name hname).1) htail, hthere, hspot]

end Below

end DirectiveIndex.FileSystem
