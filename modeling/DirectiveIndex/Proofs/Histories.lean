import Mathlib
import DirectiveIndex.Proofs.Indexes

namespace DirectiveIndex.Index

/-- A call that records something about a file. -/
inductive Call where
  | add (path : Path) (metadata : Metadata)
  | addFailure (path : Path)

namespace Call

/-- The file that a call is about. -/
def path : Call → Path
  | add path _ => path
  | addFailure path => path

/-- The metadata that a call records. -/
def metadata? : Call → Option Metadata
  | add _ metadata => some metadata
  | addFailure _ => none

end Call

/-- The index after one more call. -/
def perform (index : Index) : Call → Index
  | .add path metadata => index.add path metadata
  | .addFailure path => index.addFailure path

/-- The index that a sequence of calls makes. -/
def ofCalls (calls : List Call) : Index :=
  calls.foldl perform .empty

/-- The last call about a path. -/
def lastAbout? (calls : List Call) (path : Path) : Option Call :=
  (calls.filter (·.path == path)).getLast?

/-- Whether the call at a place adds a path. -/
def AddsAt (calls : List Call) (path : Path) (place : Nat) : Prop :=
  ∃ metadata, calls[place]? = some (.add path metadata)

/-- Whether the call at a place records that a path could not be read. -/
def FailsAt (calls : List Call) (path : Path) (place : Nat) : Prop :=
  calls[place]? = some (.addFailure path)

/-- Whether the call at a place is the first that adds a path since the last failure of the path, or since the start. -/
structure EntersAt (calls : List Call) (path : Path) (place : Nat) : Prop where
  adds : AddsAt calls path place
  remains : ∀ later, place < later → ¬ FailsAt calls path later
  first : ∀ earlier, earlier < place → AddsAt calls path earlier →
    ∃ between, earlier < between ∧ between < place ∧ FailsAt calls path between

/-- Whether one path came in before another. -/
def EntersBefore (calls : List Call) (path other : Path) : Prop :=
  ∃ place later, EntersAt calls path place ∧ EntersAt calls other later ∧ place < later

variable {index : Index} {calls : List Call} {call : Call} {path other : Path} {metadata : Metadata} {place : Nat}

/-- The last call is performed on what the others have left. -/
theorem ofCalls_concat : ofCalls (calls ++ [call]) = (ofCalls calls).perform call := by
  rw [ofCalls, List.foldl_append]
  rfl

/-- The last call is the last one about its path. -/
theorem lastAbout?_concat_self : lastAbout? (calls ++ [call]) call.path = some call := by
  rw [lastAbout?, List.filter_append, List.filter_cons_of_pos (by simp)]
  exact List.getLast?_concat

/-- A call about another path leaves the last one about a path. -/
theorem lastAbout?_concat_of_ne (h : call.path ≠ path) :
    lastAbout? (calls ++ [call]) path = lastAbout? calls path := by
  rw [lastAbout?, List.filter_append, List.filter_cons_of_neg (by simpa using h), List.filter_nil, List.append_nil]
  rfl

/-- The last call about a path is about that path. -/
theorem path_of_lastAbout? (h : lastAbout? calls path = some call) : call.path = path := by
  have hmem := List.mem_of_getLast? h
  exact beq_iff_eq.1 (List.mem_filter.1 hmem).2

/-- An index has for each path the metadata of the last call about it. -/
theorem lookup_ofCalls (calls : List Call) (path : Path) :
    (ofCalls calls).entries.lookup path = (lastAbout? calls path).bind Call.metadata? := by
  induction calls using List.reverseRecOn with
  | nil => rfl
  | append_singleton calls call ih =>
    rw [ofCalls_concat]
    by_cases hpath : call.path = path
    · rw [← hpath, lastAbout?_concat_self]
      cases call with
      | add added metadata => exact lookup_add_self
      | addFailure failed => exact lookup_addFailure_self
    · rw [lastAbout?_concat_of_ne hpath, ← ih]
      cases call with
      | add added metadata => exact lookup_add_of_ne (Ne.symm hpath)
      | addFailure failed => exact lookup_addFailure_of_ne (Ne.symm hpath)

/-- A path has failed if the last call about it says so. -/
theorem mem_failures_ofCalls (calls : List Call) (path : Path) :
    path ∈ (ofCalls calls).failures ↔ lastAbout? calls path = some (.addFailure path) := by
  induction calls using List.reverseRecOn with
  | nil => exact ⟨nofun, nofun⟩
  | append_singleton calls call ih =>
    rw [ofCalls_concat]
    by_cases hpath : call.path = path
    · rw [← hpath, lastAbout?_concat_self]
      cases call with
      | add added metadata => exact ⟨fun h => absurd rfl (mem_failures_add.1 h).2, nofun⟩
      | addFailure failed => exact ⟨fun _ => rfl, fun _ => mem_failures_addFailure.2 (.inl rfl)⟩
    · rw [lastAbout?_concat_of_ne hpath, ← ih]
      cases call with
      | add added metadata => exact mem_failures_add.trans (and_iff_left (Ne.symm hpath))
      | addFailure failed => exact mem_failures_addFailure.trans (or_iff_right (Ne.symm hpath))

/-- A path has an entry if the last call about it has added one. -/
theorem mem_paths_ofCalls (calls : List Call) (path : Path) :
    path ∈ (ofCalls calls).paths ↔ ∃ metadata, lastAbout? calls path = some (.add path metadata) := by
  rw [mem_paths_iff, lookup_ofCalls]
  cases hlast : lastAbout? calls path with
  | none => simp
  | some call =>
    have hpath := path_of_lastAbout? hlast
    cases call with
    | add added metadata =>
      obtain rfl : added = path := hpath
      simp [Call.metadata?]
    | addFailure failed => simp [Call.metadata?]

/-- No path has failed twice. -/
theorem nodup_failures_ofCalls (calls : List Call) : (ofCalls calls).failures.Nodup := by
  induction calls using List.reverseRecOn with
  | nil => exact List.nodup_nil
  | append_singleton calls call ih =>
    rw [ofCalls_concat]
    cases call with
    | add added metadata => exact nodup_failures_add ih
    | addFailure failed => exact nodup_failures_addFailure ih

/-- Where a path is added, with one more call. -/
theorem addsAt_concat :
    AddsAt (calls ++ [call]) path place ↔
      AddsAt calls path place ∨ place = calls.length ∧ ∃ metadata, call = .add path metadata := by
  rcases Nat.lt_trichotomy place calls.length with hlt | heq | hgt
  · simp [AddsAt, List.getElem?_append_left hlt, Nat.ne_of_lt hlt]
  · simp [AddsAt, heq]
  · have hnone : (calls ++ [call])[place]? = none := List.getElem?_eq_none (by simp; omega)
    simp [AddsAt, hnone, Nat.le_of_lt hgt, Nat.ne_of_gt hgt]

/-- Where a path fails, with one more call. -/
theorem failsAt_concat :
    FailsAt (calls ++ [call]) path place ↔
      FailsAt calls path place ∨ place = calls.length ∧ call = .addFailure path := by
  rcases Nat.lt_trichotomy place calls.length with hlt | heq | hgt
  · simp [FailsAt, List.getElem?_append_left hlt, Nat.ne_of_lt hlt]
  · simp [FailsAt, heq]
  · have hnone : (calls ++ [call])[place]? = none := List.getElem?_eq_none (by simp; omega)
    simp [FailsAt, hnone, Nat.le_of_lt hgt, Nat.ne_of_gt hgt]

theorem AddsAt.lt_length (h : AddsAt calls path place) : place < calls.length := by
  obtain ⟨metadata, hcall⟩ := h
  exact (List.getElem?_eq_some_iff.1 hcall).1

/-- A path comes in at one place only. -/
theorem EntersAt.eq {place other : Nat} (h : EntersAt calls path place) (hother : EntersAt calls path other) :
    place = other := by
  have hle {place other : Nat} (h : EntersAt calls path place) (hother : EntersAt calls path other) :
      other ≤ place := by
    refine Nat.le_of_not_lt fun hlt => ?_
    obtain ⟨between, hafter, -, hfails⟩ := hother.first place hlt h.adds
    exact h.remains between hafter hfails
  exact Nat.le_antisymm (hle hother h) (hle h hother)

/-- A further call leaves the place at which a path has come in, unless it records a failure of the path. -/
theorem EntersAt.concat (h : EntersAt calls path place) (hcall : call ≠ .addFailure path) :
    EntersAt (calls ++ [call]) path place where
  adds := addsAt_concat.2 (.inl h.adds)
  remains later hlater hfails := by
    rcases failsAt_concat.1 hfails with hfails | ⟨-, heq⟩
    · exact h.remains later hlater hfails
    · exact hcall heq
  first earlier hearlier hadds := by
    have hlt := h.adds.lt_length
    have hadds := (addsAt_concat.1 hadds).resolve_right fun ⟨heq, _⟩ => by omega
    obtain ⟨between, hafter, hbefore, hfails⟩ := h.first earlier hearlier hadds
    exact ⟨between, hafter, hbefore, failsAt_concat.2 (.inl hfails)⟩

/-- A path that is no entry has failed since each call that added it. -/
theorem exists_failsAt_of_not_mem (h : path ∉ (ofCalls calls).paths) (hadds : AddsAt calls path place) :
    ∃ between, place < between ∧ FailsAt calls path between := by
  induction calls using List.reverseRecOn with
  | nil => exact absurd hadds.lt_length (Nat.not_lt_zero _)
  | append_singleton calls call ih =>
    rw [ofCalls_concat] at h
    have hbefore (hnot : path ∉ (ofCalls calls).paths) (hadds : AddsAt calls path place) :
        ∃ between, place < between ∧ FailsAt (calls ++ [call]) path between := by
      obtain ⟨between, hafter, hfails⟩ := ih hnot hadds
      exact ⟨between, hafter, failsAt_concat.2 (.inl hfails)⟩
    cases call with
    | add added metadata =>
      obtain ⟨hnot, hne⟩ := not_or.1 fun hor => h (mem_paths_add.2 hor)
      refine hbefore hnot ((addsAt_concat.1 hadds).resolve_right fun ⟨_, _, heq⟩ => hne ?_)
      exact (congrArg Call.path heq).symm
    | addFailure failed =>
      have hadds := (addsAt_concat.1 hadds).resolve_right fun ⟨_, _, heq⟩ => nomatch heq
      by_cases hpath : failed = path
      · exact ⟨calls.length, hadds.lt_length, failsAt_concat.2 (.inr ⟨rfl, congrArg Call.addFailure hpath⟩)⟩
      · exact hbefore (fun hmem => h (mem_paths_addFailure.2 ⟨hmem, Ne.symm hpath⟩)) hadds

/-- A path that is no entry comes in when it is added. -/
theorem entersAt_concat_add (h : path ∉ (ofCalls calls).paths) :
    EntersAt (calls ++ [.add path metadata]) path calls.length where
  adds := addsAt_concat.2 (.inr ⟨rfl, metadata, rfl⟩)
  remains later hlater hfails := by
    have hlt := (List.getElem?_eq_some_iff.1 hfails).1
    rw [List.length_append, List.length_singleton] at hlt
    omega
  first earlier hearlier hadds := by
    have hadds := (addsAt_concat.1 hadds).resolve_right fun ⟨heq, _⟩ => by omega
    obtain ⟨between, hafter, hfails⟩ := exists_failsAt_of_not_mem h hadds
    exact ⟨between, hafter, (List.getElem?_eq_some_iff.1 hfails).1, failsAt_concat.2 (.inl hfails)⟩

/-- Every path with an entry has entered the index at some call and never left it. -/
theorem exists_entersAt (calls : List Call) : ∀ path ∈ (ofCalls calls).paths, ∃ place, EntersAt calls path place := by
  induction calls using List.reverseRecOn with
  | nil => exact nofun
  | append_singleton calls call ih =>
    intro path hpath
    rw [ofCalls_concat] at hpath
    cases call with
    | add added metadata =>
      by_cases hmem : path ∈ (ofCalls calls).paths
      · obtain ⟨place, hplace⟩ := ih path hmem
        exact ⟨place, hplace.concat nofun⟩
      · obtain rfl := (mem_paths_add.1 hpath).resolve_left hmem
        exact ⟨calls.length, entersAt_concat_add hmem⟩
    | addFailure failed =>
      obtain ⟨hmem, hne⟩ := mem_paths_addFailure.1 hpath
      obtain ⟨place, hplace⟩ := ih path hmem
      exact ⟨place, hplace.concat fun heq => hne (congrArg Call.path heq).symm⟩

/-- The order of entering stays where neither path fails. -/
theorem EntersBefore.concat (h : EntersBefore calls path other) (hpath : call ≠ .addFailure path)
    (hother : call ≠ .addFailure other) : EntersBefore (calls ++ [call]) path other := by
  obtain ⟨place, later, hplace, hlater, hlt⟩ := h
  exact ⟨place, later, hplace.concat hpath, hlater.concat hother, hlt⟩

/-- The entries stand in the order in which they came in. -/
theorem pairwise_entersBefore (calls : List Call) : (ofCalls calls).paths.Pairwise (EntersBefore calls) := by
  induction calls using List.reverseRecOn with
  | nil => exact .nil
  | append_singleton calls call ih =>
    rw [ofCalls_concat]
    cases call with
    | add added metadata =>
      have hkept : (ofCalls calls).paths.Pairwise (EntersBefore (calls ++ [.add added metadata])) :=
        ih.imp fun h => h.concat nofun nofun
      by_cases hmem : added ∈ (ofCalls calls).paths
      · exact (paths_add_of_mem hmem).symm ▸ hkept
      · have hlast : ∀ path ∈ (ofCalls calls).paths, EntersBefore (calls ++ [.add added metadata]) path added := by
          intro path hpath
          obtain ⟨place, hplace⟩ := exists_entersAt calls path hpath
          exact ⟨place, calls.length, hplace.concat nofun, entersAt_concat_add hmem, hplace.adds.lt_length⟩
        rw [perform, paths_add_of_not_mem hmem, List.pairwise_append]
        exact ⟨hkept, List.pairwise_singleton _ _,
          fun path hpath new hnew => List.mem_singleton.1 hnew ▸ hlast path hpath⟩
    | addFailure failed =>
      rw [perform, paths_addFailure]
      refine (ih.filter _).imp_of_mem fun {path other} hpath hother h => ?_
      have hne {path : Path} (h : path ∈ (ofCalls calls).paths.filter (· != failed)) :
          Call.addFailure failed ≠ .addFailure path :=
        fun heq => bne_iff_ne.1 (List.mem_filter.1 h).2 (congrArg Call.path heq).symm
      exact h.concat (hne hpath) (hne hother)

/-- What an index says of the calls that have made it. -/
structure Reflects (calls : List Call) (index : Index) : Prop where
  /-- No path is both an entry and a failure. -/
  disjoint : ∀ path ∈ index.paths, path ∉ index.failures
  /-- A path is an entry if the last call about it added it. -/
  mem_paths : ∀ path, path ∈ index.paths ↔ ∃ metadata, lastAbout? calls path = some (.add path metadata)
  contains_iff : ∀ path, index.contains path = true ↔ path ∈ index.paths
  /-- A path is a failure if the last call about it says so. -/
  mem_failures : ∀ path, path ∈ index.failures ↔ lastAbout? calls path = some (.addFailure path)
  /-- An entry has the metadata of the last call about it. -/
  get_of_add : ∀ path metadata, lastAbout? calls path = some (.add path metadata) → index.get path = metadata
  get_of_not_mem : ∀ path, path ∉ index.paths → index.get path = .empty
  /-- Each entry has come in at one place of the history, and the entries stand in the order of these places. -/
  enters : ∀ path ∈ index.paths, ∃! place, EntersAt calls path place
  order : index.paths.Pairwise (EntersBefore calls)
  nodup_paths : index.paths.Nodup
  nodup_failures : index.failures.Nodup
  /-- Listing goes through the entries in their order. -/
  listed_eq : ∀ includeEmpty, index.listed includeEmpty =
    (index.paths.map fun path => (path, index.get path)).filter fun entry => includeEmpty || !entry.2.isEmpty
  size_eq : index.size = index.paths.length
  description_eq : index.description =
    "MetadataIndex(files=".toList ++ Text.ofNat index.paths.length ++
      ", imports=".toList ++ Text.ofNat (index.paths.map fun path => (index.get path).imports.length).sum ++
      ", solidity=".toList ++ Text.ofNat (index.paths.map fun path => (index.get path).solidity.length).sum ++
      ", failures=".toList ++ Text.ofNat index.failures.length ++ [')']

/-- No path has two entries. -/
theorem nodup_paths_ofCalls (calls : List Call) : (ofCalls calls).paths.Nodup := by
  refine (pairwise_entersBefore calls).imp ?_
  rintro path other ⟨place, later, hplace, hlater, hlt⟩ rfl
  exact Nat.ne_of_lt hlt (hplace.eq hlater)

theorem size_eq_length_paths : index.size = index.paths.length :=
  (List.length_map _).symm

/-- The values of all entries are counted path by path. -/
theorem length_flatMap_entries (h : index.paths.Nodup) (part : Metadata → List Text) :
    (index.entries.flatMap fun entry => part entry.2).length =
      (index.paths.map fun path => (part (index.get path)).length).sum := by
  rw [flatMap_entries h, List.length_flatMap]

/-- The metadata of a path is what the last call about it has added. -/
theorem lookup_of_lastAbout? (h : lastAbout? calls path = some (.add path metadata)) :
    (ofCalls calls).entries.lookup path = some metadata := by
  rw [lookup_ofCalls, h]
  rfl

/-- After every sequence of calls an index reflects them. A path that is added again keeps its place, and one that fails
before it is added again moves to the end. -/
theorem ofCalls_reflects (calls : List Call) :
    Reflects calls (ofCalls calls) ∧
      ∀ path ∈ (ofCalls calls).paths, ∀ metadata,
        (ofCalls (calls ++ [.add path metadata])).paths = (ofCalls calls).paths ∧
          (ofCalls (calls ++ [.addFailure path, .add path metadata])).paths =
            (ofCalls calls).paths.filter (· != path) ++ [path] := by
  have hnodup := nodup_paths_ofCalls calls
  constructor
  · constructor
    case disjoint =>
      intro path hpath hfailed
      obtain ⟨metadata, hadded⟩ := (mem_paths_ofCalls calls path).1 hpath
      have hlast := (mem_failures_ofCalls calls path).1 hfailed
      rw [hadded] at hlast
      cases hlast
    case mem_paths => exact mem_paths_ofCalls calls
    case contains_iff =>
      intro path
      rw [contains, Option.isSome_iff_exists, mem_paths_iff]
    case mem_failures => exact mem_failures_ofCalls calls
    case get_of_add =>
      intro path metadata hlast
      rw [get, lookup_of_lastAbout? hlast, Option.getD_some]
    case get_of_not_mem =>
      intro path hnot
      have hnone : (ofCalls calls).entries.lookup path = none :=
        Option.eq_none_iff_forall_ne_some.2 fun metadata hfound => hnot (mem_paths_iff.2 ⟨metadata, hfound⟩)
      rw [get, hnone, Option.getD_none]
    case enters =>
      intro path hpath
      obtain ⟨place, hplace⟩ := exists_entersAt calls path hpath
      exact ⟨place, hplace, fun other hother => hother.eq hplace⟩
    case order => exact pairwise_entersBefore calls
    case nodup_paths => exact hnodup
    case nodup_failures => exact nodup_failures_ofCalls calls
    case listed_eq =>
      intro includeEmpty
      rw [listed, map_paths_get hnodup]
    case size_eq => exact size_eq_length_paths
    case description_eq =>
      unfold description importCount solidityCount
      rw [size_eq_length_paths, length_flatMap_entries hnodup Metadata.imports,
        length_flatMap_entries hnodup Metadata.solidity]
  · intro path hpath metadata
    constructor
    · rw [ofCalls_concat]
      exact paths_add_of_mem hpath
    · rw [← List.singleton_append, ← List.append_assoc, ofCalls_concat, ofCalls_concat]
      exact paths_addFailure_add

end DirectiveIndex.Index
