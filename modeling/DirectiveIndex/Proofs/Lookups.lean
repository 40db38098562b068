import DirectiveIndex.FileSystem.Lookup
import DirectiveIndex.Proofs.Outcomes

namespace DirectiveIndex

namespace Path

/-- The path that some names lead to from a path. -/
def below (path : Path) (names : List Text) : Path :=
  ⟨path.root, path.names ++ names⟩

@[simp]
theorem below_nil (path : Path) : path.below [] = path := by
  rw [below, List.append_nil]

theorem below_cons (path : Path) (name : Text) (names : List Text) :
    path.below (name :: names) = (path.child name).below names := by
  rw [below, below, child, List.append_assoc, List.singleton_append]

/-- The last of the names below a path is that of a child. -/
theorem below_concat (path : Path) (names : List Text) (name : Text) :
    path.below (names ++ [name]) = (path.below names).child name := by
  rw [below, below, child, List.append_assoc]

/-- Different names lead to different paths below a path. -/
theorem below_injective {path : Path} {names others : List Text} (h : path.below names = path.below others) :
    names = others :=
  List.append_cancel_left (Path.mk.inj h).2

/-- Whether a name stands for something in a directory, and not for the directory itself or the one above. -/
def IsPlain (name : Text) : Prop :=
  name ≠ [] ∧ name ≠ selfName ∧ name ≠ parentName

instance (name : Text) : Decidable (IsPlain name) :=
  inferInstanceAs (Decidable (_ ∧ _))

end Path

namespace FileSystem

variable {fs : FileSystem} {limit linksLeft : Nat} {location : Location} {name : Text} {names more : List Text}
  {path : Path} {place : Place}

/-- A look-up of some names and then others. -/
theorem walk_append (linksLeft : Nat) (location : Location) (names more : List Text) :
    fs.walk linksLeft location (names ++ more) =
      (fs.walk linksLeft location names).bind fun place => fs.walk place.linksLeft place.location more := by
  fun_induction walk fs linksLeft location names with
  | case1 => rfl
  | case2 linksLeft location names cause hdemand =>
    rw [List.cons_append, walk, if_pos rfl, hdemand]
    rfl
  | case3 linksLeft location names hdemand ih =>
    rw [List.cons_append, walk, if_pos rfl, hdemand]
    exact ih
  | case4 linksLeft location name names hempty cause hsearch =>
    rw [List.cons_append, walk, if_neg hempty, hsearch]
    rfl
  | case5 linksLeft location names hsearch _ ih =>
    rw [List.cons_append, walk, if_neg (by decide), hsearch]
    exact ih
  | case6 linksLeft location names hsearch _ _ ih =>
    rw [List.cons_append, walk, if_neg (by decide), hsearch]
    exact ih
  | case7 linksLeft location name names hempty hsearch hself hparent htarget ih =>
    rw [List.cons_append, walk, if_neg hempty, hsearch]
    dsimp only
    rw [if_neg hself, if_neg hparent, htarget]
    exact ih
  | case8 location name names hempty hsearch hself hparent target htarget =>
    rw [List.cons_append, walk, if_neg hempty, hsearch]
    dsimp only
    rw [if_neg hself, if_neg hparent, htarget]
    rfl
  | case9 location name names hempty hsearch hself hparent target htarget left ih =>
    rw [List.cons_append, walk, if_neg hempty, hsearch]
    dsimp only
    rw [if_neg hself, if_neg hparent, htarget]
    dsimp only
    rw [← List.append_assoc]
    exact ih

/-- A walk along two lists of names goes along the one and on along the other. -/
theorem walk_append_eq_ok_iff :
    fs.walk linksLeft location (names ++ more) = .ok place ↔
      ∃ mid, fs.walk linksLeft location names = .ok mid ∧ fs.walk mid.linksLeft mid.location more = .ok place := by
  rw [walk_append]
  exact bind_eq_ok_iff

/-- What a look-up that succeeds can do with its first name: pass over it, go up, go down, or follow a link to its end
and go on from there. -/
theorem walk_cons_cases (h : fs.walk linksLeft location (name :: names) = .ok place) :
    (name = [] ∨ name = Path.selfName) ∧ fs.walk linksLeft location names = .ok place ∨
      fs.search location = .ok () ∧
        (name = Path.parentName ∧ fs.walk linksLeft location.dropLast names = .ok place ∨
          Path.IsPlain name ∧ fs.target? (location ++ [name]) = none ∧
              fs.walk linksLeft (location ++ [name]) names = .ok place ∨
          Path.IsPlain name ∧ ∃ target left mid, fs.target? (location ++ [name]) = some target ∧
            linksLeft = left + 1 ∧ fs.walk left (targetStart location target) (targetNames target) = .ok mid ∧
              fs.walk mid.linksLeft mid.location names = .ok place) := by
  rw [walk] at h
  by_cases hempty : name = []
  · rw [if_pos hempty] at h
    split at h
    · cases h
    · exact .inl ⟨.inl hempty, h⟩
  rw [if_neg hempty] at h
  split at h
  · cases h
  rename_i hsearch
  by_cases hself : name = Path.selfName
  · exact .inl ⟨.inr hself, by rwa [if_pos hself] at h⟩
  rw [if_neg hself] at h
  refine .inr ⟨hsearch, ?_⟩
  by_cases hparent : name = Path.parentName
  · exact .inl ⟨hparent, by rwa [if_pos hparent] at h⟩
  rw [if_neg hparent] at h
  have hname : Path.IsPlain name := ⟨hempty, hself, hparent⟩
  cases htarget : fs.target? (location ++ [name]) with
  | none =>
    rw [htarget] at h
    exact .inr (.inl ⟨hname, rfl, h⟩)
  | some target =>
    rw [htarget] at h
    cases linksLeft with
    | zero => cases h
    | succ left =>
      obtain ⟨mid, hinner, houter⟩ := walk_append_eq_ok_iff.1 h
      exact .inr (.inr ⟨hname, target, left, mid, rfl, rfl, hinner, houter⟩)

/-- To look up one name is to enter it where it can be searched for. -/
theorem walk_singleton (hname : Path.IsPlain name) :
    fs.walk linksLeft location [name] = (fs.search location).bind fun _ => fs.enter ⟨location, linksLeft⟩ name := by
  rw [walk, if_neg hname.1]
  cases fs.search location with
  | error cause => rfl
  | ok =>
    dsimp only [Except.bind]
    rw [if_neg hname.2.1, if_neg hname.2.2, enter]
    cases fs.target? (location ++ [name]) with
    | none =>
      dsimp only
      rw [walk]
    | some target =>
      cases linksLeft with
      | zero => rfl
      | succ left =>
        dsimp only
        rw [List.append_nil]

/-- Links that a look-up may follow and does not follow are left. -/
theorem walk_add (h : fs.walk linksLeft location names = .ok place) (more : Nat) :
    fs.walk (linksLeft + more) location names = .ok ⟨place.location, place.linksLeft + more⟩ := by
  fun_induction walk fs linksLeft location names with
  | case1 linksLeft location =>
    rw [← Except.ok.inj h, walk]
  | case2 => cases h
  | case3 linksLeft location names hdemand ih =>
    rw [walk, if_pos rfl, hdemand]
    exact ih h
  | case4 => cases h
  | case5 linksLeft location names hsearch _ ih =>
    rw [walk, if_neg (by decide), hsearch]
    exact ih h
  | case6 linksLeft location names hsearch _ _ ih =>
    rw [walk, if_neg (by decide), hsearch]
    exact ih h
  | case7 linksLeft location name names hempty hsearch hself hparent htarget ih =>
    rw [walk, if_neg hempty, hsearch]
    dsimp only
    rw [if_neg hself, if_neg hparent, htarget]
    exact ih h
  | case8 => cases h
  | case9 location name names hempty hsearch hself hparent target htarget left ih =>
    rw [Nat.succ_add, walk, if_neg hempty, hsearch]
    dsimp only
    rw [if_neg hself, if_neg hparent, htarget]
    exact ih h

/-- What is no directory cannot be searched. -/
theorem search_eq_error_of_demand {cause : Cause} (h : fs.demand location = .error cause) :
    fs.search location = .error cause := by
  unfold demand at h
  unfold search
  cases hnode : fs.node? location with
  | none =>
    rw [hnode] at h
    exact h
  | some node => cases hdirectory : node.isDirectory <;> simp_all

/-- A look-up fails at a location that cannot be searched, or at a link when it may follow no more. -/
theorem walk_error_cases {cause : Cause} (h : fs.walk linksLeft location names = .error cause) :
    (∃ closed, fs.search closed = .error cause) ∨
      cause = .tooManyLinks ∧ ∃ link target, fs.target? link = some target := by
  fun_induction walk fs linksLeft location names with
  | case1 => cases h
  | case2 linksLeft location names other hdemand =>
    exact .inl ⟨location, search_eq_error_of_demand (Except.error.inj h ▸ hdemand)⟩
  | case3 linksLeft location names _ ih => exact ih h
  | case4 linksLeft location name names _ other hsearch => exact .inl ⟨location, Except.error.inj h ▸ hsearch⟩
  | case5 linksLeft location names _ _ ih => exact ih h
  | case6 linksLeft location names _ _ _ ih => exact ih h
  | case7 linksLeft location name names _ _ _ _ _ ih => exact ih h
  | case8 location name names _ _ _ _ target htarget => exact .inr ⟨(Except.error.inj h).symm, _, target, htarget⟩
  | case9 location name names _ _ _ _ target _ left ih => exact ih h

/-- Two look-ups of the same names come to the same location and follow as many links, whatever their limits. -/
theorem walk_unique {other : Nat} {place' : Place} (h : fs.walk linksLeft location names = .ok place)
    (h' : fs.walk other location names = .ok place') :
    place.location = place'.location ∧ linksLeft + place'.linksLeft = other + place.linksLeft := by
  have hsame := (walk_add h other).symm.trans (Nat.add_comm linksLeft other ▸ walk_add h' linksLeft)
  obtain ⟨hlocation, hleft⟩ := Place.mk.inj (Except.ok.inj hsame)
  exact ⟨hlocation, by omega⟩

/-- A look-up that may follow so many links. -/
def lookupWithin (fs : FileSystem) (limit : Nat) (path : Path) : Except Cause (Place × Node) :=
  match fs.walk limit (fs.startOf path) (stepsOf path) with
  | .error cause => .error cause
  | .ok place =>
    match fs.node? place.location with
    | none => .error .notFound
    | some node => .ok (place, node)

/-- A lookup walks along the names of a path and finds what is there. -/
theorem lookupWithin_eq_ok_iff {node : Node} :
    fs.lookupWithin limit path = .ok (place, node) ↔
      fs.walk limit (fs.startOf path) (stepsOf path) = .ok place ∧ fs.node? place.location = some node := by
  unfold lookupWithin
  cases fs.walk limit (fs.startOf path) (stepsOf path) with
  | error cause => simp
  | ok found =>
    dsimp only
    cases hnode : fs.node? found.location with
    | none =>
      refine ⟨nofun, fun ⟨hfound, h⟩ => ?_⟩
      rw [Except.ok.inj hfound, h] at hnode
      cases hnode
    | some there =>
      constructor
      · intro h
        obtain ⟨rfl, rfl⟩ := Prod.mk.inj (Except.ok.inj h)
        exact ⟨rfl, hnode⟩
      · rintro ⟨hfound, h⟩
        obtain rfl := Except.ok.inj hfound
        rw [Option.some.inj (hnode.symm.trans h)]

/-- A look-up is one within the usual limit. -/
theorem lookup_eq_ok_iff {node : Node} :
    fs.lookup path = .ok (place, node) ↔ fs.locate path = .ok place ∧ fs.node? place.location = some node :=
  lookupWithin_eq_ok_iff

/-- A path with names is looked up along them. -/
theorem stepsOf_of_ne_nil (h : path.names ≠ []) : stepsOf path = path.names :=
  if_neg fun hpath => h hpath.2

/-- In front of a name a dot makes no difference. -/
theorem walk_selfName_cons (hname : name ≠ []) (linksLeft : Nat) (location : Location) (names : List Text) :
    fs.walk linksLeft location (Path.selfName :: name :: names) = fs.walk linksLeft location (name :: names) := by
  rw [walk, if_neg (by decide)]
  cases hsearch : fs.search location with
  | error cause => rw [walk, if_neg hname, hsearch]
  | ok => rw [if_pos rfl]

/-- Where a path below another one leads. -/
theorem walk_below (limit : Nat) (path : Path) (hnames : [] ∉ names) :
    fs.walk limit (fs.startOf (path.below names)) (stepsOf (path.below names)) =
      (fs.walk limit (fs.startOf path) (stepsOf path)).bind fun place =>
        fs.walk place.linksLeft place.location names := by
  cases names with
  | nil =>
    rw [Path.below_nil]
    cases fs.walk limit (fs.startOf path) (stepsOf path) with
    | error cause => rfl
    | ok place => simp only [Except.bind, walk]
  | cons name names =>
    have hbelow : stepsOf (path.below (name :: names)) = path.names ++ name :: names :=
      stepsOf_of_ne_nil (List.append_ne_nil_of_right_ne_nil _ (List.cons_ne_nil _ _))
    have hstart : fs.startOf (path.below (name :: names)) = fs.startOf path := rfl
    rw [hbelow, hstart, ← walk_append]
    unfold stepsOf
    split
    · rename_i hpath
      have hname : name ≠ [] := fun hempty => hnames (hempty ▸ List.mem_cons_self)
      rw [hpath.2, List.nil_append, List.singleton_append, walk_selfName_cons hname]
    · rfl

/-- A location that a look-up can come to: every directory on the way can be searched, and nothing on the way, the
location itself included, is a link. -/
inductive IsReal (fs : FileSystem) : Location → Prop where
  | root : IsReal fs []
  | child {location : Location} {name : Text} (habove : IsReal fs location) (hsearch : fs.search location = .ok ())
      (hplain : Path.IsPlain name) (hlink : fs.target? (location ++ [name]) = none) : IsReal fs (location ++ [name])

namespace IsReal

/-- What is above a real location is real. -/
theorem dropLast (h : fs.IsReal location) : fs.IsReal location.dropLast := by
  cases h with
  | root => exact .root
  | child habove =>
    rw [List.dropLast_concat]
    exact habove

/-- A real location is looked up without following a link. -/
theorem walk_eq (h : fs.IsReal location) (linksLeft : Nat) :
    fs.walk linksLeft [] location = .ok ⟨location, linksLeft⟩ := by
  induction h with
  | root => rw [walk]
  | child _ hsearch hplain hlink ih =>
    refine walk_append_eq_ok_iff.2 ⟨_, ih, ?_⟩
    rw [walk_singleton hplain, hsearch]
    dsimp only [Except.bind]
    rw [enter, hlink]

/-- The beginnings of a real location are real. -/
theorem take (h : fs.IsReal location) (count : Nat) : fs.IsReal (location.take count) := by
  induction h with
  | root =>
    rw [List.take_nil]
    exact .root
  | @child location name habove hsearch hplain hlink ih =>
    by_cases hle : count ≤ location.length
    · rwa [List.take_append_of_le_length hle]
    · rw [List.take_of_length_le (by rw [List.length_append, List.length_singleton]; omega)]
      exact .child habove hsearch hplain hlink

/-- Every directory on the way to a real one that can be searched can be searched as well. -/
theorem search_take (h : fs.IsReal location) (hsearch : fs.search location = .ok ()) (count : Nat) :
    fs.search (location.take count) = .ok () := by
  induction h with
  | root => rwa [List.take_nil]
  | @child location name _ habove _ _ ih =>
    by_cases hle : count ≤ location.length
    · rw [List.take_append_of_le_length hle]
      exact ih habove
    · rwa [List.take_of_length_le (by rw [List.length_append, List.length_singleton]; omega)]

/-- A real location is no link. -/
theorem target?_eq_none (h : fs.IsReal location) : fs.target? location = none := by
  cases h with
  | root => rfl
  | child _ _ _ hlink => exact hlink

end IsReal

/-- The target of a link starts at a real location. -/
theorem isReal_targetStart (h : fs.IsReal location) (target : Text) : fs.IsReal (targetStart location target) := by
  unfold targetStart
  split
  · exact .root
  · exact h

/-- A look-up from a real location comes to a real location. -/
theorem isReal_of_walk (h : fs.walk linksLeft location names = .ok place) (hreal : fs.IsReal location) :
    fs.IsReal place.location := by
  fun_induction walk fs linksLeft location names with
  | case1 linksLeft location =>
    rw [← Except.ok.inj h]
    exact hreal
  | case2 => cases h
  | case3 linksLeft location names hdemand ih => exact ih h hreal
  | case4 => cases h
  | case5 linksLeft location names hsearch _ ih => exact ih h hreal
  | case6 linksLeft location names hsearch _ _ ih => exact ih h hreal.dropLast
  | case7 linksLeft location name names hempty hsearch hself hparent htarget ih =>
    exact ih h (.child hreal hsearch ⟨hempty, hself, hparent⟩ htarget)
  | case8 => cases h
  | case9 location name names hempty hsearch hself hparent target htarget left ih =>
    exact ih h (isReal_targetStart hreal target)

end FileSystem

end DirectiveIndex
