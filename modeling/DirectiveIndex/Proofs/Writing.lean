import DirectiveIndex.Proofs.Resolving

namespace DirectiveIndex.FileSystem

variable {fs files : FileSystem} {path : Path} {location other : Location} {node : Node} {place : Place}
  {bytes : List UInt8}

/-- Whether a file can be written where a path leads to. -/
def IsWritable (fs : FileSystem) (path : Path) : Prop :=
  ∃ place, fs.locate path = .ok place ∧
    ∀ node, fs.node? place.location = some node → node.isDirectory = false ∧ node.denied = false

/-- Whether a file system is what another one becomes when some bytes are written where a path leads to. -/
structure IsAfterWriting (fs : FileSystem) (path : Path) (bytes : List UInt8) (files : FileSystem) : Prop where
  readBytes : files.readBytes path = .ok bytes
  current : files.current = fs.current
  elsewhere : ∃ place, fs.locate path = .ok place ∧
    ∀ location, location ≠ place.location → files.node? location = fs.node? location

/-- Dropping one location leaves the others. -/
theorem lookup_filter_bne {α : Type} (entries : List (Location × α)) (h : other ≠ location) :
    (entries.filter (·.1 != location)).lookup other = entries.lookup other := by
  induction entries with
  | nil => rfl
  | cons entry entries ih =>
    obtain ⟨key, value⟩ := entry
    by_cases hkey : key = location
    · have hother : (other == key) = false := by simpa [hkey] using h
      rw [List.filter_cons_of_neg (by simp [hkey]), ih, List.lookup_cons, hother]
    · rw [List.filter_cons_of_pos (by simpa using hkey), List.lookup_cons, List.lookup_cons, ih]

/-- What is put is found. -/
theorem node?_put_self (hlocation : location ≠ []) : (fs.put location node).node? location = some node := by
  rw [node?, if_neg hlocation, put, List.lookup_cons_self]

/-- Putting a node leaves the other locations. -/
theorem node?_put_of_ne (h : other ≠ location) : (fs.put location node).node? other = fs.node? other := by
  have hother : (other == location) = false := by simpa using h
  rw [node?, node?, put, List.lookup_cons, hother, lookup_filter_bne fs.entries h]

/-- Putting what is no link adds none. -/
theorem HasNoLinks.put (hlinks : fs.HasNoLinks) (location : Location) (hnode : node.target? = none) :
    (fs.put location node).HasNoLinks := by
  intro entry hentry
  rcases List.mem_cons.1 hentry with rfl | hmem
  · exact hnode
  · exact hlinks entry (List.mem_filter.1 hmem).1

/-- What can be searched is a directory. -/
theorem isDirectory_of_search (h : fs.search location = .ok ()) :
    (fs.node? location).any Node.isDirectory = true := by
  unfold search at h
  split at h
  · cases h
  · rename_i node hnode
    rw [hnode]
    split at h
    · cases h
    · rename_i hdirectory
      simpa using hdirectory

/-- What may hold something is a directory. -/
theorem isDirectory_of_demand (h : fs.demand location = .ok ()) :
    (fs.node? location).any Node.isDirectory = true := by
  unfold demand at h
  split at h
  · cases h
  · rename_i node hnode
    rw [hnode]
    split at h
    · assumption
    · cases h

/-- A look-up comes to the same place when something is put where no directory is. -/
theorem HasNoLinks.walk_put (hlinks : fs.HasNoLinks) (hnode : node.target? = none)
    (hlocation : (fs.node? location).any Node.isDirectory = false) {linksLeft : Nat} {start : Location}
    {names : List Text} (h : fs.walk linksLeft start names = .ok place) :
    (fs.put location node).walk linksLeft start names = .ok place := by
  have htarget := (hlinks.put location hnode).target?_eq_none
  have hkept {passed : Location} (hdirectory : (fs.node? passed).any Node.isDirectory = true) :
      (fs.put location node).node? passed = fs.node? passed := by
    refine node?_put_of_ne ?_
    rintro rfl
    rw [hdirectory] at hlocation
    cases hlocation
  have hdemand {passed : Location} (hpassed : fs.demand passed = .ok ()) :
      (fs.put location node).demand passed = .ok () := by
    rw [demand, hkept (isDirectory_of_demand hpassed)]
    exact hpassed
  have hsearch {passed : Location} (hpassed : fs.search passed = .ok ()) :
      (fs.put location node).search passed = .ok () := by
    rw [search, hkept (isDirectory_of_search hpassed)]
    exact hpassed
  fun_induction walk fs linksLeft start names with
  | case1 linksLeft start => rw [walk, h]
  | case2 => cases h
  | case3 linksLeft start names hpassed ih =>
    rw [walk, if_pos rfl, hdemand hpassed]
    exact ih h
  | case4 => cases h
  | case5 linksLeft start names hpassed _ ih =>
    rw [walk, if_neg (by decide), hsearch hpassed]
    exact ih h
  | case6 linksLeft start names hpassed _ _ ih =>
    rw [walk, if_neg (by decide), hsearch hpassed]
    exact ih h
  | case7 linksLeft start name names hempty hpassed hself hparent _ ih =>
    rw [walk, if_neg hempty, hsearch hpassed]
    dsimp only
    rw [if_neg hself, if_neg hparent, htarget]
    exact ih h
  | case8 => cases h
  | case9 start name names _ _ _ _ target hlink =>
    rw [hlinks.target?_eq_none] at hlink
    cases hlink

/-- Where nothing can be written, writing fails for a reason of the file system. -/
theorem write_of_not_isWritable (hnul : path.holdsNul = false) (h : ¬ fs.IsWritable path) (bytes : List UInt8) :
    ∃ cause, fs.write path bytes = .error (.refused cause path) := by
  unfold write
  rw [if_neg (by simp [hnul])]
  cases hlocate : fs.locate path with
  | error cause => exact ⟨cause, rfl⟩
  | ok place =>
    dsimp only
    cases hfound : fs.node? place.location with
    | none => exact absurd ⟨place, hlocate, fun node hnode => nomatch hfound.symm.trans hnode⟩ h
    | some node =>
      dsimp only
      by_cases hdirectory : node.isDirectory = true
      · exact ⟨.isDirectory, if_pos hdirectory⟩
      · by_cases hdenied : node.denied = true
        · exact ⟨.denied, by rw [if_neg hdirectory, if_pos hdenied]⟩
        · refine absurd ⟨place, hlocate, fun found hnode => ?_⟩ h
          obtain rfl := Option.some.inj (hfound.symm.trans hnode)
          exact ⟨by simpa using hdirectory, by simpa using hdenied⟩

/-- Without links, a file that can be written is written, and nothing else changes. -/
theorem HasNoLinks.exists_write (hlinks : fs.HasNoLinks) (hnul : path.holdsNul = false) (h : fs.IsWritable path)
    (bytes : List UInt8) : ∃ files, fs.write path bytes = .ok files ∧ fs.IsAfterWriting path bytes files := by
  obtain ⟨place, hlocate, hfree⟩ := h
  have hplace : (fs.node? place.location).any Node.isDirectory = false := by
    cases hfound : fs.node? place.location with
    | none => rfl
    | some node => exact (hfree node hfound).1
  have hne : place.location ≠ [] := by
    intro hroot
    rw [hroot] at hplace
    cases hplace
  refine ⟨fs.put place.location ⟨.file bytes, false⟩, ?_, ?_, rfl, place, hlocate, fun location hother => ?_⟩
  · rw [write, if_neg (by simp [hnul]), hlocate]
    dsimp only
    cases hfound : fs.node? place.location with
    | none => rfl
    | some node =>
      obtain ⟨hdirectory, hdenied⟩ := hfree node hfound
      dsimp only
      rw [if_neg (by simp [hdirectory]), if_neg (by simp [hdenied])]
  · have hagain : (fs.put place.location ⟨.file bytes, false⟩).locate path = .ok place :=
      hlinks.walk_put rfl hplace hlocate
    simp [FileSystem.readBytes, lookup, hagain, node?_put_self hne]
  · exact node?_put_of_ne hother

end DirectiveIndex.FileSystem
