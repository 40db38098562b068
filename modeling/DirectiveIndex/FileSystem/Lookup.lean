import DirectiveIndex.FileSystem.Basic

namespace DirectiveIndex

/-- Where a look-up has arrived, and how many links it may still follow. -/
structure Place where
  location : Location
  linksLeft : Nat
deriving DecidableEq, Repr

namespace FileSystem

/-- How many links one look-up may follow. -/
def linkLimit : Nat := 40

/-- Where the names of a link's target start, for a link in the given directory. -/
def targetStart (directory : Location) (target : Text) : Location :=
  if target.head? = some '/' then [] else directory

/-- The names of a link's target, and an empty name for a slash at its end. -/
def targetNames (target : Text) : List Text :=
  (Text.split '/' target).filter (· != []) ++ if target.getLast? = some '/' then [[]] else []

/-- Whether a location holds a directory, and if not why. -/
def demand (fs : FileSystem) (location : Location) : Except Cause Unit :=
  match fs.node? location with
  | none => .error .notFound
  | some node => if node.isDirectory then .ok () else .error .notDirectory

/-- Whether names can be looked up in a location, and if not why. -/
def search (fs : FileSystem) (location : Location) : Except Cause Unit :=
  match fs.node? location with
  | none => .error .notFound
  | some node =>
    if !node.isDirectory then .error .notDirectory
    else if node.denied then .error .denied
    else .ok ()

/-- Goes through names from a location, only through directories that are not denied. Where it meets a link it goes on
with the names of the link's target; the number of links is limited, so it ends even where links form a cycle. An
empty name demands a directory, which need not be searched. -/
def walk (fs : FileSystem) (linksLeft : Nat) (location : Location) : List Text → Except Cause Place
  | [] => .ok ⟨location, linksLeft⟩
  | name :: names =>
    if name = [] then
      match fs.demand location with
      | .error cause => .error cause
      | .ok () => walk fs linksLeft location names
    else
      match fs.search location with
      | .error cause => .error cause
      | .ok () =>
        if name = Path.selfName then
          walk fs linksLeft location names
        else if name = Path.parentName then
          walk fs linksLeft location.dropLast names
        else
          match fs.target? (location ++ [name]) with
          | none => walk fs linksLeft (location ++ [name]) names
          | some target =>
            match linksLeft with
            | 0 => .error .tooManyLinks
            | left + 1 => walk fs left (targetStart location target) (targetNames target ++ names)
termination_by names => (linksLeft, names.length)

/-- Where a name in a directory that can be searched leads. -/
def enter (fs : FileSystem) (place : Place) (name : Text) : Except Cause Place :=
  match fs.target? (place.location ++ [name]) with
  | none => .ok ⟨place.location ++ [name], place.linksLeft⟩
  | some target =>
    match place.linksLeft with
    | 0 => .error .tooManyLinks
    | left + 1 => walk fs left (targetStart place.location target) (targetNames target)

/-- The names by which a path is looked up; a path without names is looked up as a dot, if it is relative. -/
def stepsOf (path : Path) : List Text :=
  if path.root = .relative ∧ path.names = [] then [Path.selfName] else path.names

/-- Where the names of a path start. -/
def startOf (fs : FileSystem) (path : Path) : Location :=
  if path.root = .relative then fs.current else []

/-- Looks up a path, of which the last name may be missing, because a file can be created there. -/
def locate (fs : FileSystem) (path : Path) : Except Cause Place :=
  walk fs linkLimit (fs.startOf path) (stepsOf path)

/-- Looks up a path and what is found there. -/
def lookup (fs : FileSystem) (path : Path) : Except Cause (Place × Node) :=
  match fs.locate path with
  | .error cause => .error cause
  | .ok place =>
    match fs.node? place.location with
    | none => .error .notFound
    | some node => .ok (place, node)

/-- What a path leads to, links followed. A path that leads nowhere leads to nothing, whatever the
cause, unless access to it is denied. -/
def find (fs : FileSystem) (path : Path) : Except AccessError (Option Node) :=
  match fs.lookup path with
  | .error .denied => .error (.refused .denied path)
  | .error _ => .ok none
  | .ok (_, node) => .ok (some node)

/-- Whether a path leads to anything. -/
def doesExist (fs : FileSystem) (path : Path) : Except AccessError Bool :=
  (fs.find path).map Option.isSome

/-- Whether a path leads to a directory. -/
def isDirectory (fs : FileSystem) (path : Path) : Except AccessError Bool :=
  (fs.find path).map fun node? => node?.any Node.isDirectory

/-- The bytes of the file that a path leads to. -/
def readBytes (fs : FileSystem) (path : Path) : Except AccessError (List UInt8) :=
  match fs.lookup path with
  | .error cause => .error (.refused cause path)
  | .ok (_, node) =>
    if node.denied then
      .error (.refused .denied path)
    else
      match node.content with
      | .file bytes => .ok bytes
      | _ => .error (.refused .isDirectory path)

/-- The file system after a file has been written where a path leads to; a file that is missing is
created, and one that is there is replaced. -/
def write (fs : FileSystem) (path : Path) (bytes : List UInt8) : Except AccessError FileSystem :=
  if path.holdsNul then
    .error .nulCharacter
  else
    match fs.locate path with
    | .error cause => .error (.refused cause path)
    | .ok place =>
      match fs.node? place.location with
      | none => .ok (fs.put place.location ⟨.file bytes, false⟩)
      | some node =>
        if node.isDirectory then .error (.refused .isDirectory path)
        else if node.denied then .error (.refused .denied path)
        else .ok (fs.put place.location ⟨.file bytes, false⟩)

theorem walk_linksLeft_le {fs : FileSystem} {linksLeft : Nat} {location : Location} {names : List Text}
    {place : Place} (h : fs.walk linksLeft location names = .ok place) : place.linksLeft ≤ linksLeft := by
  fun_induction walk fs linksLeft location names with
  | case1 linksLeft location =>
    simp only [Except.ok.injEq] at h
    subst h
    exact Nat.le.refl
  | case2 => simp at h
  | case3 linksLeft location names _ ih => exact ih h
  | case4 => simp at h
  | case5 linksLeft location names _ _ ih => exact ih h
  | case6 linksLeft location names _ _ _ ih => exact ih h
  | case7 linksLeft location name names _ _ _ _ _ ih => exact ih h
  | case8 => simp at h
  | case9 location name names _ _ _ _ target _ left ih =>
    have := ih h
    omega

/-- Entering a name either goes one name further down or uses up a link. -/
theorem enter_descends {fs : FileSystem} {place next : Place} {name : Text}
    (h : fs.enter place name = .ok next) :
    next.linksLeft < place.linksLeft ∨
      (next.linksLeft = place.linksLeft ∧ next.location = place.location ++ [name]) := by
  unfold enter at h
  split at h
  · simp only [Except.ok.injEq] at h
    subst h
    exact Or.inr ⟨rfl, rfl⟩
  · split at h
    · simp at h
    · rename_i left hleft
      have := walk_linksLeft_le h
      omega

end FileSystem

end DirectiveIndex
