import DirectiveIndex.FileSystem.Lookup

namespace DirectiveIndex

/-- How far names have been followed: names below the root, or below the directory so many levels above the current one.
A location that can be spelled in several ways has as many spots. -/
structure Spot (fs : FileSystem) where
  climbed : Option (Fin (fs.current.length + 1))
  names : List Text
deriving DecidableEq, Repr

namespace Spot

variable {fs : FileSystem}

/-- Where the names of a spot start. -/
def start (spot : Spot fs) : Location :=
  match spot.climbed with
  | none => []
  | some levels => fs.current.take (fs.current.length - levels)

/-- The location of a spot. -/
def location (spot : Spot fs) : Location :=
  spot.start ++ spot.names

/-- A spot as it is spelled: from the root, or from the current directory with a double dot for each level. -/
def path (spot : Spot fs) : Path :=
  match spot.climbed with
  | none => ⟨.absolute, spot.names⟩
  | some levels => ⟨.relative, List.replicate levels Path.parentName ++ spot.names⟩

/-- The spot where the names of a path start. -/
def ofPath (fs : FileSystem) (path : Path) : Spot fs :=
  ⟨if path.root = .relative then some 0 else none, []⟩

/-- The spot of a name below another spot. -/
def child (spot : Spot fs) (name : Text) : Spot fs :=
  ⟨spot.climbed, spot.names ++ [name]⟩

/-- One level further up. Above the root there is nothing to climb to. -/
def climb (levels : Fin (fs.current.length + 1)) : Fin (fs.current.length + 1) :=
  ⟨min (levels + 1) fs.current.length, by omega⟩

/-- The spot above another one. -/
def parent (spot : Spot fs) : Spot fs :=
  if spot.names = [] then ⟨spot.climbed.map climb, []⟩ else ⟨spot.climbed, spot.names.dropLast⟩

/-- Where the names of a target start, for a link at a name below the spot. -/
def targetStart (spot : Spot fs) (target : Text) : Spot fs :=
  if target.head? = some '/' then ⟨none, []⟩ else spot

end Spot

/-- The outcome of following names: the spot they lead to, or, at a link that is met again while its own target is being
followed, the names up to there and all that are left. -/
inductive Resolution (fs : FileSystem) where
  | arrived (spot : Spot fs)
  | looped (names : List Text)

namespace FileSystem

/-- Whether something may be looked at, links not followed, by names that start at a location. -/
def reveals (fs : FileSystem) (start : Location) (names : List Text) : Bool :=
  match fs.walk 0 start names.dropLast with
  | .error _ => false
  | .ok place => (fs.search place.location).isOk

/-- The target of a link at a location that can be looked at from the root. -/
def visibleTarget? (fs : FileSystem) (location : Location) : Option Text :=
  if fs.reveals [] location then fs.target? location else none

end FileSystem

/-- The target of a link at a spot that can be looked at in the way that it is spelled. -/
def Spot.target? {fs : FileSystem} (spot : Spot fs) : Option Text :=
  if fs.reveals (fs.startOf spot.path) spot.path.names then fs.target? spot.location else none

namespace FileSystem

/-- Names appended to others, or put in their place if they start at the root. -/
def appendNames (names : List Text) : List Text → List Text
  | [] :: next :: rest => next :: rest
  | rest => names ++ rest

/-- The names of a link's target, empty ones included, without the root. -/
def rawNames (target : Text) : List Text :=
  match Text.split '/' target with
  | [] :: rest => rest
  | names => names

/-- All ways to reach an entry: from the root, or from a directory above the current one. -/
def ways (fs : FileSystem) : List (Option (Fin (fs.current.length + 1)) × Location × Node) :=
  (none :: (List.finRange (fs.current.length + 1)).map some).flatMap fun climbed =>
    fs.entries.map fun entry => (climbed, entry)

/-- Whether a way leads to a link that has not been entered in this way. -/
def isLeft {fs : FileSystem} (entered : List (Spot fs))
    (way : Option (Fin (fs.current.length + 1)) × Location × Node) : Bool :=
  way.2.2.target?.isSome && entered.all fun spot => spot.climbed != way.1 || spot.location != way.2.1

/-- How many ways to enter a link are left. -/
def waysLeft (fs : FileSystem) (entered : List (Spot fs)) : Nat :=
  fs.ways.countP (isLeft entered)

/-- Only entries can be links: the root directory is none. -/
theorem lookup_of_target? {fs : FileSystem} {location : Location} {target : Text}
    (h : fs.target? location = some target) :
    ∃ node, fs.entries.lookup location = some node ∧ node.target? = some target := by
  obtain ⟨node, hfound, hlink⟩ := Option.bind_eq_some_iff.1 h
  unfold node? at hfound
  split at hfound
  · simp only [rootNode, Option.some.injEq] at hfound
    subst hfound
    simp [Node.target?] at hlink
  · exact ⟨node, hfound, hlink⟩

end FileSystem

open FileSystem

variable {fs : FileSystem}

theorem Spot.target?_eq_some {spot : Spot fs} {target : Text} (h : spot.target? = some target) :
    fs.target? spot.location = some target := by
  unfold Spot.target? at h
  split at h
  · exact h
  · cases h

/-- Spots that are counted from the same directory are the same if their locations are. -/
theorem Spot.eq_of_location {spot other : Spot fs} (hclimbed : spot.climbed = other.climbed)
    (hlocation : spot.location = other.location) : spot = other := by
  obtain ⟨climbed, names⟩ := spot
  obtain ⟨climbed', names'⟩ := other
  obtain rfl : climbed = climbed' := hclimbed
  exact congrArg _ (List.append_cancel_left hlocation)

theorem FileSystem.mem_ways {climbed : Option (Fin (fs.current.length + 1))} {entry : Location × Node}
    (hentry : entry ∈ fs.entries) : (climbed, entry) ∈ fs.ways := by
  refine List.mem_flatMap.2 ⟨climbed, ?_, List.mem_map.2 ⟨entry, hentry, rfl⟩⟩
  cases climbed with
  | none => exact List.mem_cons_self
  | some levels => exact List.mem_cons_of_mem _ (List.mem_map.2 ⟨levels, List.mem_finRange levels, rfl⟩)

/-- Fewer elements are counted if one that was is not any more. -/
theorem countP_lt_of_mem {α : Type} {p q : α → Bool} {as : List α} {a : α} (hmono : ∀ a, q a = true → p a = true)
    (hmem : a ∈ as) (hp : p a = true) (hq : q a = false) : as.countP q < as.countP p := by
  obtain ⟨before, after, rfl⟩ := List.append_of_mem hmem
  have hbefore : before.countP q ≤ before.countP p := List.countP_mono_left fun a _ => hmono a
  have hafter : after.countP q ≤ after.countP p := List.countP_mono_left fun a _ => hmono a
  have hnot : ¬ q a = true := Bool.eq_false_iff.1 hq
  rw [List.countP_append, List.countP_append, List.countP_cons_of_pos hp, List.countP_cons_of_neg hnot]
  omega

/-- Entering a link leaves fewer ways to enter one. -/
theorem FileSystem.waysLeft_lt {entered : List (Spot fs)} {spot : Spot fs} {target : Text}
    (htarget : spot.target? = some target) (houtside : spot ∉ entered) :
    fs.waysLeft (spot :: entered) < fs.waysLeft entered := by
  obtain ⟨node, hfound, hlink⟩ := lookup_of_target? (Spot.target?_eq_some htarget)
  have hentry : (spot.location, node) ∈ fs.entries := by
    obtain ⟨before, after, hentries, -⟩ := List.lookup_eq_some_iff.1 hfound
    simp [hentries]
  have hleft : isLeft entered (spot.climbed, spot.location, node) = true := by
    have hother : ∀ other ∈ entered, (other.climbed != spot.climbed || other.location != spot.location) = true := by
      intro other hmem
      rw [Bool.or_eq_true, bne_iff_ne, bne_iff_ne, ← Decidable.not_and_iff_not_or_not]
      exact fun ⟨hclimbed, hlocation⟩ => houtside (Spot.eq_of_location hclimbed hlocation ▸ hmem)
    simp only [isLeft, hlink, Option.isSome_some, Bool.true_and, List.all_eq_true]
    exact hother
  refine countP_lt_of_mem (fun way hway => ?_) (mem_ways hentry) hleft (by simp [isLeft])
  simp only [isLeft, List.all_cons, Bool.and_eq_true] at hway ⊢
  exact ⟨hway.1, hway.2.2⟩

namespace FileSystem

/-- Follows names from a spot; `entered` holds the links whose targets are being followed. A link that cannot be
looked at is taken for a name like any other. -/
def follow (fs : FileSystem) (entered : List (Spot fs)) (spot : Spot fs) : List Text → Resolution fs
  | [] => .arrived spot
  | name :: names =>
    if name = [] ∨ name = Path.selfName then
      follow fs entered spot names
    else if name = Path.parentName then
      follow fs entered spot.parent names
    else
      match _target : (spot.child name).target? with
      | none => follow fs entered (spot.child name) names
      | some target =>
        if _outside : spot.child name ∈ entered then
          .looped (appendNames (spot.child name).location names)
        else
          match follow fs (spot.child name :: entered) (spot.targetStart target) (rawNames target) with
          | .arrived reached => follow fs entered reached names
          | .looped reached => .looped (appendNames reached names)
termination_by names => (fs.waysLeft entered, names.length)
decreasing_by
  · exact Prod.Lex.right _ (by simp)
  · exact Prod.Lex.right _ (by simp)
  · exact Prod.Lex.right _ (by simp)
  · exact Prod.Lex.left _ _ (waysLeft_lt _target _outside)
  · exact Prod.Lex.right _ (by simp)

/-- Names without empty names and dots, each double dot taking back the name before it, if any. -/
def collapse (location : Location) : List Text → Location
  | [] => location
  | name :: names =>
    if name = [] ∨ name = Path.selfName then collapse location names
    else if name = Path.parentName then collapse location.dropLast names
    else collapse (location ++ [name]) names

/-- The absolute path of a location. -/
def pathOf (location : Location) : Path :=
  ⟨.absolute, location⟩

end FileSystem

/-- The location that names lead to, or, where links have led back to themselves, the one that the names left spell. -/
def Resolution.location : Resolution fs → Location
  | .arrived spot => spot.location
  | .looped names => collapse [] names

namespace FileSystem

/-- The absolute path without links, single dots or double dots of the place that a path leads to. Names that are not
found are kept as they are. Where links lead back to themselves the names that are left are simply appended. Resolving
fails only if a look-up of the outcome runs into too many links. -/
def resolve (fs : FileSystem) (path : Path) : Except AccessError Path :=
  if path.holdsNul then
    .error .nulCharacter
  else
    let location := (fs.follow [] (.ofPath fs path) path.names).location
    match fs.walk linkLimit [] location with
    | .error .tooManyLinks => .error (.linkLoop (pathOf location))
    | _ => .ok (pathOf location)

end FileSystem

end DirectiveIndex
