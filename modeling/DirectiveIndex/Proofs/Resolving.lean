import DirectiveIndex.FileSystem.Resolve
import DirectiveIndex.Proofs.Lookups

namespace DirectiveIndex

namespace Spot

variable {fs : FileSystem}

/-- The location of a spot below another one. -/
theorem location_child (spot : Spot fs) (name : Text) : (spot.child name).location = spot.location ++ [name] :=
  (List.append_assoc _ _ _).symm

/-- The spot above another one is at the location above it, which at the root is the root itself. -/
theorem location_parent (spot : Spot fs) : spot.parent.location = spot.location.dropLast := by
  obtain ⟨climbed, names⟩ := spot
  unfold parent location
  by_cases hnames : names = []
  · rw [if_pos hnames, hnames, List.append_nil, List.append_nil]
    cases climbed with
    | none => rfl
    | some levels =>
      simp only [start, Option.map_some, climb, List.dropLast_eq_take, List.take_take, List.length_take]
      congr 1
      omega
  · rw [if_neg hnames, List.dropLast_append_of_ne_nil hnames]
    rfl

/-- The location at which the target of a link starts. -/
theorem location_targetStart (spot : Spot fs) (target : Text) :
    (spot.targetStart target).location = FileSystem.targetStart spot.location target := by
  unfold targetStart FileSystem.targetStart
  split <;> rfl

/-- The location at which a path starts. -/
theorem location_ofPath (path : Path) : (ofPath fs path).location = fs.startOf path := by
  unfold ofPath FileSystem.startOf
  split
  · simp [location, start]
  · rfl

end Spot

namespace FileSystem

variable {fs : FileSystem} {path resolved : Path}

/-- What comes of following the names of a path. -/
def followed (fs : FileSystem) (path : Path) : Resolution fs :=
  fs.follow [] (.ofPath fs path) path.names

/-- A path resolves to the location that following it comes to, unless a look-up of that runs into too many links. -/
theorem resolve_eq_ok_iff : fs.resolve path = .ok resolved ↔
    path.holdsNul = false ∧ resolved = pathOf resolved.names ∧ (fs.followed path).location = resolved.names ∧
      fs.walk linkLimit [] resolved.names ≠ .error .tooManyLinks := by
  have hpathOf {location : Location} : pathOf location = resolved ↔
      resolved = pathOf resolved.names ∧ location = resolved.names := by
    constructor
    · rintro rfl
      exact ⟨rfl, rfl⟩
    · rintro ⟨hresolved, rfl⟩
      exact hresolved.symm
  unfold resolve
  rw [← followed]
  cases path.holdsNul with
  | true => simp
  | false =>
    rw [if_neg Bool.false_ne_true]
    dsimp only
    split
    · rename_i hwalk
      refine ⟨nofun, ?_⟩
      rintro ⟨-, -, hlocation, hno⟩
      exact absurd (hlocation ▸ hwalk) hno
    · rename_i hno
      rw [Except.ok.injEq, hpathOf]
      constructor
      · rintro ⟨hresolved, hlocation⟩
        exact ⟨rfl, hresolved, hlocation, hlocation ▸ hno⟩
      · rintro ⟨-, hresolved, hlocation, -⟩
        exact ⟨hresolved, hlocation⟩

/-- What resolving gives starts at the root. -/
theorem root_of_resolve (h : fs.resolve path = .ok resolved) : resolved.root = .absolute := by
  rw [(resolve_eq_ok_iff.1 h).2.1]
  rfl

section Follow

variable {entered : List (Spot fs)} {spot reached : Spot fs} {name : Text} {names left : List Text} {target : Text}

/-- A plain name is followed by what can be seen at it. -/
theorem follow_cons (hname : Path.IsPlain name) :
    fs.follow entered spot (name :: names) =
      match (spot.child name).target? with
      | none => fs.follow entered (spot.child name) names
      | some target =>
        if spot.child name ∈ entered then
          .looped (appendNames (spot.child name).location names)
        else
          match fs.follow (spot.child name :: entered) (spot.targetStart target) (rawNames target) with
          | .arrived reached => fs.follow entered reached names
          | .looped left => .looped (appendNames left names) := by
  obtain ⟨hempty, hself, hparent⟩ := hname
  rw [follow, if_neg (not_or.2 ⟨hempty, hself⟩), if_neg hparent]
  split
  · rename_i hlink
    rw [hlink]
  · rename_i hlink
    rw [hlink]
    rfl

/-- A plain name that is no link is gone down to. -/
theorem follow_of_target?_none (hname : Path.IsPlain name) (hlink : (spot.child name).target? = none) :
    fs.follow entered spot (name :: names) = fs.follow entered (spot.child name) names := by
  rw [follow_cons hname, hlink]

/-- A link that is being followed is given up. -/
theorem follow_of_mem (hname : Path.IsPlain name) (hlink : (spot.child name).target? = some target)
    (hentered : spot.child name ∈ entered) :
    fs.follow entered spot (name :: names) = .looped (appendNames (spot.child name).location names) := by
  rw [follow_cons hname, hlink]
  exact if_pos hentered

section Link

variable (hname : Path.IsPlain name) (hlink : (spot.child name).target? = some target)
  (houtside : spot.child name ∉ entered)
include hname hlink houtside

/-- Names behind a link are followed from where its target leads. -/
theorem follow_of_arrived
    (hinner : fs.follow (spot.child name :: entered) (spot.targetStart target) (rawNames target) = .arrived reached) :
    fs.follow entered spot (name :: names) = fs.follow entered reached names := by
  rw [follow_cons hname, hlink]
  dsimp only
  rw [if_neg houtside, hinner]

/-- Names behind a link that is given up are kept. -/
theorem follow_of_looped
    (hinner : fs.follow (spot.child name :: entered) (spot.targetStart target) (rawNames target) = .looped left) :
    fs.follow entered spot (name :: names) = .looped (appendNames left names) := by
  rw [follow_cons hname, hlink]
  dsimp only
  rw [if_neg houtside, hinner]

end Link

end Follow

/-- No search of a location fails for links. -/
theorem search_ne_tooManyLinks (location : Location) : fs.search location ≠ .error .tooManyLinks := by
  unfold search
  split
  · nofun
  · split
    · nofun
    · split <;> nofun

/-- Whether nothing in the file system is a link. -/
def HasNoLinks (fs : FileSystem) : Prop :=
  ∀ entry ∈ fs.entries, entry.2.target? = none

instance : Decidable fs.HasNoLinks :=
  inferInstanceAs (Decidable (∀ entry ∈ fs.entries, entry.2.target? = none))

namespace HasNoLinks

variable (hlinks : fs.HasNoLinks)
include hlinks

/-- Without links, no location has a target. -/
theorem target?_eq_none (location : Location) : fs.target? location = none := by
  cases htarget : fs.target? location with
  | none => rfl
  | some target =>
    obtain ⟨node, hfound, hlink⟩ := lookup_of_target? htarget
    have hmem : (location, node) ∈ fs.entries := by
      obtain ⟨before, after, hentries, -⟩ := List.lookup_eq_some_iff.1 hfound
      simp [hentries]
    have hnone := hlinks _ hmem
    rw [hlink] at hnone
    cases hnone

/-- Without links, none is seen. -/
theorem visibleTarget?_eq_none (location : Location) : fs.visibleTarget? location = none := by
  unfold visibleTarget?
  rw [hlinks.target?_eq_none, ite_self]

/-- Without links, no spot has a target. -/
theorem spot_target?_eq_none (spot : Spot fs) : spot.target? = none := by
  unfold Spot.target?
  rw [hlinks.target?_eq_none, ite_self]

/-- Without links, no look-up follows too many of them. -/
theorem walk_ne_tooManyLinks (linksLeft : Nat) (location : Location) (names : List Text) :
    fs.walk linksLeft location names ≠ .error .tooManyLinks := by
  intro h
  rcases walk_error_cases h with ⟨closed, hsearch⟩ | ⟨-, link, target, htarget⟩
  · exact search_ne_tooManyLinks closed hsearch
  · cases htarget.symm.trans (hlinks.target?_eq_none link)

/-- Without links, names are followed by taking each double dot as one step up. -/
theorem location_follow (entered : List (Spot fs)) (spot : Spot fs) (names : List Text) :
    (fs.follow entered spot names).location = collapse spot.location names := by
  induction names generalizing spot with
  | nil => rw [follow, collapse, Resolution.location]
  | cons name names ih =>
    rw [follow, collapse]
    by_cases hempty : name = [] ∨ name = Path.selfName
    · rw [if_pos hempty, if_pos hempty, ih]
    · rw [if_neg hempty, if_neg hempty]
      by_cases hparent : name = Path.parentName
      · rw [if_pos hparent, if_pos hparent, ih, Spot.location_parent]
      · rw [if_neg hparent, if_neg hparent]
        split
        · rw [ih, Spot.location_child]
        · rename_i htarget
          cases htarget.symm.trans (hlinks.spot_target?_eq_none _)

/-- Without links, a path is resolved by collapsing its names. -/
theorem resolve_eq (hnul : path.holdsNul = false) :
    fs.resolve path = .ok (pathOf (collapse (fs.startOf path) path.names)) := by
  have hlocation : (fs.followed path).location = collapse (fs.startOf path) path.names := by
    rw [followed, hlinks.location_follow, Spot.location_ofPath]
  exact resolve_eq_ok_iff.2 ⟨hnul, rfl, hlocation, hlinks.walk_ne_tooManyLinks _ _ _⟩

/-- Without links, a path from the root without dots and double dots is resolved. -/
theorem resolve_eq_self (hroot : path.root = .absolute) (hnul : path.holdsNul = false)
    (hnames : collapse [] path.names = path.names) : fs.resolve path = .ok path := by
  have hstart : fs.startOf path = [] := if_neg (by rw [hroot]; decide)
  rw [hlinks.resolve_eq hnul, hstart, hnames, pathOf, ← hroot]

end HasNoLinks

end FileSystem

end DirectiveIndex
