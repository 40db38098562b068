import DirectiveIndex.Proofs.Following
import DirectiveIndex.Proofs.Trees

namespace DirectiveIndex

namespace FileSystem

variable {fs : FileSystem} {location directory : Location} {name : Text} {names : List Text}

/-- Whether nothing on the way to a location, the location itself included, is a link that can be seen from the root. -/
def IsLinkFree (fs : FileSystem) (location : Location) : Prop :=
  ∀ directory, directory <+: location → fs.visibleTarget? directory = none

namespace IsLinkFree

/-- A name that is no link below a location free of links. -/
theorem child (h : fs.IsLinkFree location) (hlink : fs.visibleTarget? (location ++ [name]) = none) :
    fs.IsLinkFree (location ++ [name]) := by
  intro directory hdirectory
  rcases List.prefix_concat_iff.1 hdirectory with rfl | hdirectory
  · exact hlink
  · exact h directory hdirectory

/-- What is above a location free of links is free of them. -/
theorem of_prefix (h : fs.IsLinkFree location) (hdirectory : directory <+: location) : fs.IsLinkFree directory :=
  fun other hother => h other (hother.trans hdirectory)

/-- The location above one that is free of links. -/
theorem dropLast (h : fs.IsLinkFree location) : fs.IsLinkFree location.dropLast :=
  h.of_prefix (List.dropLast_prefix location)

end IsLinkFree

/-- Where no link stands, none is seen. -/
theorem visibleTarget?_eq_none_of_target? (h : fs.target? location = none) : fs.visibleTarget? location = none := by
  unfold visibleTarget?
  rw [h, ite_self]

/-- No link leads to a real location. -/
theorem IsReal.isLinkFree (h : fs.IsReal location) : fs.IsLinkFree location := by
  intro directory hdirectory
  rw [List.prefix_iff_eq_take.1 hdirectory]
  exact visibleTarget?_eq_none_of_target? (h.take _).target?_eq_none

/-- The target of a link starts at a location free of links. -/
theorem IsLinkFree.targetStart (h : fs.IsLinkFree location) (target : Text) :
    fs.IsLinkFree (targetStart location target) := by
  unfold FileSystem.targetStart
  split
  · exact IsReal.root.isLinkFree
  · exact h

/-- From a real directory that can be searched, every link can be seen. -/
theorem IsReal.visibleTarget?_child (h : fs.IsReal location) (hsearch : fs.search location = .ok ()) (name : Text) :
    fs.visibleTarget? (location ++ [name]) = fs.target? (location ++ [name]) := by
  have hreveals : fs.reveals [] (location ++ [name]) = true := by
    rw [reveals, List.dropLast_concat, h.walk_eq]
    dsimp only
    rw [hsearch]
    rfl
  rw [visibleTarget?, if_pos hreveals]

/-- Below a real location, a look-up of names that lead through no link does not fail for too many links. -/
theorem IsReal.walk_ne_tooManyLinks (h : fs.IsReal location) (hfree : fs.IsLinkFree (location ++ names))
    (hnames : IsOrdinary names) (linksLeft : Nat) : fs.walk linksLeft location names ≠ .error .tooManyLinks := by
  induction names generalizing location with
  | nil =>
    rw [walk]
    intro h
    cases h
  | cons name names ih =>
    obtain ⟨hname, hnames⟩ := List.forall_mem_cons.1 hnames
    rw [← List.singleton_append, ← List.append_assoc] at hfree
    rw [← List.singleton_append, walk_append, walk_singleton hname.isPlain]
    cases hsearch : fs.search location with
    | error cause => exact fun heq => search_ne_tooManyLinks location (Except.error.inj heq ▸ hsearch)
    | ok =>
      have hlink := hfree _ (List.prefix_append _ names)
      rw [h.visibleTarget?_child hsearch] at hlink
      simp only [Except.bind, enter, hlink]
      exact ih (.child h hsearch hname.isPlain hlink) hfree hnames

/-- Whether the current directory can be searched on the way from the root. -/
def ReachesCurrent (fs : FileSystem) : Prop :=
  fs.IsReal fs.current ∧ fs.search fs.current = .ok ()

/-- Then the directories above the current one can be looked up by double dots. -/
theorem ReachesCurrent.isReal (h : fs.ReachesCurrent) (levels : Fin (fs.current.length + 1)) :
    Spot.IsReal (⟨some levels, []⟩ : Spot fs) := by
  obtain ⟨count, hcount⟩ := levels
  induction count with
  | zero => exact .here
  | succ count ih =>
    have hsearch : fs.search (Spot.location ⟨some ⟨count, Nat.lt_of_succ_lt hcount⟩, []⟩) = .ok () := by
      rw [Spot.location, List.append_nil]
      exact h.1.search_take h.2 _
    have hclimb : Spot.climb ⟨count, Nat.lt_of_succ_lt hcount⟩ = ⟨count + 1, hcount⟩ :=
      Fin.ext (Nat.min_eq_left (Nat.le_of_lt_succ hcount))
    exact hclimb ▸ .above (ih _) hsearch

end FileSystem

namespace Spot

open FileSystem

variable {fs : FileSystem} {spot : Spot fs}

/-- Whether a spot is certain to show the links that can be seen from the root: it is spelled from there, or the current
directory can be searched on the way from there. -/
def IsFaithful (spot : Spot fs) : Prop :=
  spot.climbed = none ∨ fs.ReachesCurrent

namespace IsFaithful

/-- Going down keeps a spot faithful. -/
theorem child (h : spot.IsFaithful) (name : Text) : (spot.child name).IsFaithful :=
  h

/-- Going up keeps a spot faithful. -/
theorem parent (h : spot.IsFaithful) : spot.parent.IsFaithful := by
  refine h.imp_left fun hclimbed => ?_
  unfold Spot.parent
  split <;> simp [hclimbed]

/-- The target of a link starts at a faithful spot. -/
theorem targetStart (h : spot.IsFaithful) (target : Text) : (spot.targetStart target).IsFaithful := by
  unfold Spot.targetStart
  split
  · exact .inl rfl
  · exact h

/-- At a faithful spot the links are seen that are seen from the root. -/
theorem target?_eq (h : spot.IsFaithful) : spot.target? = fs.visibleTarget? spot.location := by
  obtain ⟨climbed, names⟩ := spot
  cases climbed with
  | none => rfl
  | some levels =>
    have hcurrent : fs.ReachesCurrent := h.resolve_left nofun
    have hreal : fs.IsReal (fs.current.take (fs.current.length - levels)) := hcurrent.1.take _
    rcases List.eq_nil_or_concat' names with rfl | ⟨init, name, rfl⟩
    · have hlink : fs.target? (location ⟨some levels, []⟩) = none := by
        rw [location, List.append_nil]
        exact hreal.target?_eq_none
      rw [visibleTarget?_eq_none_of_target? hlink, Spot.target?, hlink, ite_self]
    · -- both look-ups come to the directory above the current one, and go on from there alike
      have hspot : fs.walk 0 fs.current (List.replicate levels Path.parentName ++ []) =
          .ok ⟨fs.current.take (fs.current.length - levels) ++ [], 0⟩ := (hcurrent.isReal levels).walk_eq 0
      rw [List.append_nil, List.append_nil] at hspot
      have hreveals : fs.reveals fs.current (List.replicate levels Path.parentName ++ (init ++ [name])) =
          fs.reveals [] (fs.current.take (fs.current.length - levels) ++ (init ++ [name])) := by
        simp only [reveals, ← List.append_assoc, List.dropLast_concat, walk_append, hspot, hreal.walk_eq]
      exact congrArg (fun seen => if seen = true then _ else none) hreveals

end IsFaithful

end Spot

namespace FileSystem

variable {fs : FileSystem} {location : Location} {names : List Text} {entered : List (Spot fs)} {spot reached : Spot fs}

/-- Where names lead through no link, they are followed one below the other. -/
theorem follow_of_isLinkFree (hspot : spot.IsFaithful) (hnames : IsOrdinary names)
    (hfree : fs.IsLinkFree (spot.location ++ names)) :
    fs.follow entered spot names = .arrived ⟨spot.climbed, spot.names ++ names⟩ := by
  induction names generalizing spot with
  | nil => rw [follow, List.append_nil]
  | cons name names ih =>
    obtain ⟨hname, hnames⟩ := List.forall_mem_cons.1 hnames
    have hbelow : spot.location ++ name :: names = (spot.child name).location ++ names := by
      rw [Spot.location_child, List.append_assoc, List.singleton_append]
    rw [hbelow] at hfree
    have hlink : (spot.child name).target? = none :=
      (hspot.child name).target?_eq.trans (hfree _ (List.prefix_append _ _))
    rw [follow_of_target?_none hname.isPlain hlink, ih (hspot.child name) hnames hfree, Spot.child, List.append_assoc,
      List.singleton_append]

/-- What the start has, and every step keeps, the spot has at which following names arrives. -/
theorem arrived_induction {p : Spot fs → Prop} (hparent : ∀ spot, p spot → p spot.parent)
    (hchild : ∀ spot name, (spot.child name).target? = none → p spot → p (spot.child name))
    (hstart : ∀ spot target, p spot → p (spot.targetStart target)) (hspot : p spot)
    (h : fs.follow entered spot names = .arrived reached) : p reached := by
  fun_induction follow fs entered spot names generalizing reached with
  | case1 entered spot => exact Resolution.arrived.inj h ▸ hspot
  | case2 entered spot name names _ ih => exact ih hspot h
  | case3 entered spot names _ ih => exact ih (hparent spot hspot) h
  | case4 entered spot name names _ _ hlink ih => exact ih (hchild spot name hlink hspot) h
  | case5 => cases h
  | case6 entered spot name names _ _ target _ _ mid hmid ihtarget ih =>
    exact ih (ihtarget (hstart spot target hspot) hmid) h
  | case7 => cases h

/-- Where names are followed to an end, no link is left on the way. -/
theorem isLinkFree_of_follow (h : fs.follow entered spot names = .arrived reached) (hspot : spot.IsFaithful)
    (hfree : fs.IsLinkFree spot.location) : fs.IsLinkFree reached.location ∧ reached.IsFaithful := by
  refine arrived_induction (p := fun spot => fs.IsLinkFree spot.location ∧ spot.IsFaithful) ?_ ?_ ?_ ⟨hfree, hspot⟩ h
  · rintro spot ⟨hfree, hspot⟩
    exact ⟨spot.location_parent ▸ hfree.dropLast, hspot.parent⟩
  · rintro spot name hlink ⟨hfree, hspot⟩
    rw [(hspot.child name).target?_eq, Spot.location_child] at hlink
    exact ⟨spot.location_child name ▸ hfree.child hlink, hspot.child name⟩
  · rintro spot target ⟨hfree, hspot⟩
    exact ⟨spot.location_targetStart target ▸ hfree.targetStart target, hspot.targetStart target⟩

/-- Names that are followed from the root stay spelled from there. -/
theorem climbed_of_follow (h : fs.follow entered spot names = .arrived reached) (hspot : spot.climbed = none) :
    reached.climbed = none := by
  refine arrived_induction (p := fun spot => spot.climbed = none) ?_ (fun _ _ _ hspot => hspot) ?_ hspot h
  · intro spot hspot
    unfold Spot.parent
    split <;> simp [hspot]
  · intro spot target hspot
    unfold Spot.targetStart
    split
    · rfl
    · exact hspot

end FileSystem

end DirectiveIndex
