import Mathlib
import DirectiveIndex.Report
import DirectiveIndex.Proofs.Histories
import DirectiveIndex.Proofs.Orders
import DirectiveIndex.Proofs.Visits

namespace DirectiveIndex

namespace Text

/-- The strict order of texts is that of their code points. -/
theorem lt_iff {a b : Text} : a < b ↔ le a b = true ∧ a ≠ b := by
  induction a generalizing b with
  | nil => cases b <;> simp [le]
  | cons x a ih =>
    cases b with
    | nil => simp [le]
    | cons y b =>
      have hlt : x < y ↔ x.toNat < y.toNat := Iff.rfl
      rw [List.cons_lt_cons_iff, ih, hlt]
      by_cases heq : x = y
      · simp [le, heq]
      · simp [le, heq]

/-- Sorting distinct texts neither adds nor drops one. -/
theorem mem_sortDistinct {text : Text} {texts : List Text} : text ∈ sortDistinct texts ↔ text ∈ texts := by
  rw [sortDistinct, mem_sort, List.mem_eraseDups]

/-- Distinct texts are sorted strictly. -/
theorem pairwise_sortDistinct (texts : List Text) : (sortDistinct texts).Pairwise (· < ·) :=
  (pairwise_sort_ne (nodup_eraseDups texts)).imp lt_iff.2

/-- A sorted list without repetitions is determined by its texts. -/
theorem sortDistinct_eq {texts others : List Text} (h : ∀ text, text ∈ texts ↔ text ∈ others) :
    sortDistinct texts = sortDistinct others := by
  refine (pairwise_sortDistinct texts).eq_of_mem_iff (pairwise_sortDistinct others) fun text => ?_
  rw [mem_sortDistinct, mem_sortDistinct, h]

/-- A sorted list is determined by its texts with their numbers. -/
theorem sort_eq_of_perm {texts others : List Text} (h : texts.Perm others) : sort texts = sort others := by
  have hperm : (sort texts).Perm (sort others) :=
    (List.mergeSort_perm texts le).trans (h.trans (List.mergeSort_perm others le).symm)
  exact hperm.eq_of_pairwise (fun _ _ _ _ => le_antisymm) (pairwise_sort texts) (pairwise_sort others)

end Text

namespace Index

/-- Whether a path has the same standing in two indexes: an entry with the same metadata, a failure, or neither. -/
structure SameStanding (first second : Index) (path : Path) : Prop where
  contains_eq : first.contains path = second.contains path
  get_eq : first.get path = second.get path
  failed_iff : path ∈ first.failures ↔ path ∈ second.failures

/-- Whether two indexes amount to the same, in whatever order their entries and failures are. -/
structure Agree (first second : Index) : Prop where
  allImports_eq : first.allImports = second.allImports
  allSolidity_eq : first.allSolidity = second.allSolidity
  failures_perm : first.failures.Perm second.failures
  description_eq : first.description = second.description
  /-- Reports list the same failures in the same order. -/
  report_failures : ∀ includeEmpty (name : Path → Text),
    (first.report includeEmpty name).failures = (second.report includeEmpty name).failures
  /-- Reports that name different entries differently have the same members. -/
  report_files : ∀ includeEmpty (name : Path → Text),
    (∀ path ∈ first.paths, ∀ other ∈ first.paths, name path = name other → path = other) →
    (first.report includeEmpty name).files.Perm (second.report includeEmpty name).files

/-- Whether a list has exactly the texts that occur somewhere, each once and in strict order by code points. -/
structure Collects (texts : List Text) (occurs : Text → Prop) : Prop where
  increasing : texts.Pairwise (· < ·)
  mem_iff : ∀ text, text ∈ texts ↔ occurs text

variable {first second : Index} {path : Path}

/-- Paths of the same standing have the same metadata. -/
theorem SameStanding.lookup_eq (h : SameStanding first second path) :
    first.entries.lookup path = second.entries.lookup path := by
  obtain ⟨hcontains, hget, -⟩ := h
  rw [contains, contains] at hcontains
  rw [get, get] at hget
  cases hfirst : first.entries.lookup path with
  | none =>
    rw [hfirst, Option.isSome_none] at hcontains
    exact (Option.isSome_eq_false_iff.1 hcontains.symm |> Option.isNone_iff_eq_none.1).symm
  | some metadata =>
    rw [hfirst, Option.isSome_some] at hcontains
    obtain ⟨other, hsecond⟩ := Option.isSome_iff_exists.1 hcontains.symm
    rw [hfirst, hsecond] at hget
    rw [hsecond]
    exact congrArg some hget

/-- A report that names different entries differently has a member for each entry. -/
theorem files_report_eq {index : Index} (hpaths : index.paths.Nodup) (includeEmpty : Bool) {name : Path → Text}
    (hname : ∀ path ∈ index.paths, ∀ other ∈ index.paths, name path = name other → path = other) :
    (index.report includeEmpty name).files =
      (index.listed includeEmpty).map fun entry => (name entry.1, entry.2) := by
  refine OrderedMap.ofList_eq_self_iff.2 ?_
  have hlisted : ((index.listed includeEmpty).map (·.1)).Sublist index.paths := List.filter_sublist.map _
  have hnames : (((index.listed includeEmpty).map (·.1)).map name).Nodup := by
    refine List.Nodup.map_on (fun path hpath other hother => ?_) (hlisted.nodup hpaths)
    exact hname path (hlisted.mem hpath) other (hlisted.mem hother)
  rw [List.map_map] at hnames ⊢
  exact hnames

/-- Indexes that differ in their order only amount to the same. -/
theorem agree_of_perm (hpaths : first.paths.Nodup) (hentries : first.entries.Perm second.entries)
    (hfailures : first.failures.Perm second.failures) : Agree first second := by
  constructor
  case allImports_eq =>
    exact Text.sortDistinct_eq fun text => (hentries.flatMap_right _).mem_iff
  case allSolidity_eq =>
    exact Text.sortDistinct_eq fun text => (hentries.flatMap_right _).mem_iff
  case failures_perm => exact hfailures
  case description_eq =>
    have hsize : first.size = second.size := hentries.length_eq
    have himports : first.importCount = second.importCount := (hentries.flatMap_right _).length_eq
    have hsolidity : first.solidityCount = second.solidityCount := (hentries.flatMap_right _).length_eq
    have hfailed : first.failures.length = second.failures.length := hfailures.length_eq
    unfold description
    rw [hsize, himports, hsolidity, hfailed]
  case report_failures =>
    intro includeEmpty name
    exact Text.sort_eq_of_perm (hfailures.map name)
  case report_files =>
    intro includeEmpty name hname
    have hsame : first.paths.Perm second.paths := hentries.map Prod.fst
    have hname' : ∀ path ∈ second.paths, ∀ other ∈ second.paths, name path = name other → path = other :=
      fun path hpath other hother => hname path (hsame.mem_iff.2 hpath) other (hsame.mem_iff.2 hother)
    rw [files_report_eq hpaths includeEmpty hname, files_report_eq (hsame.nodup hpaths) includeEmpty hname']
    exact (hentries.filter _).map _

/-- What an index amounts to depends on the standing of each path, whatever the history of its calls is. The imports and
the stripped pragma values of its entries are collected in strict order by code points. -/
theorem ofCalls_aggregates (calls : List Call) :
    Collects (ofCalls calls).allImports
        (fun text => ∃ path ∈ (ofCalls calls).paths, text ∈ ((ofCalls calls).get path).imports) ∧
      Collects (ofCalls calls).allSolidity
        (fun text => ∃ path ∈ (ofCalls calls).paths, ∃ value ∈ ((ofCalls calls).get path).solidity,
          Text.strip value = text) ∧
      ∀ others, (∀ path, SameStanding (ofCalls calls) (ofCalls others) path) →
        Agree (ofCalls calls) (ofCalls others) := by
  have hpaths := nodup_paths_ofCalls calls
  refine ⟨⟨Text.pairwise_sortDistinct _, fun text => ?_⟩, ⟨Text.pairwise_sortDistinct _, fun text => ?_⟩, ?_⟩
  · rw [allImports, Text.mem_sortDistinct, flatMap_entries hpaths, List.mem_flatMap]
  · rw [allSolidity, Text.mem_sortDistinct, flatMap_entries hpaths fun metadata => metadata.solidity.map Text.strip]
    simp only [List.mem_flatMap, List.mem_map]
  · intro others hsame
    have hentries : (ofCalls calls).entries.Perm (ofCalls others).entries :=
      OrderedMap.perm_of_lookup_eq hpaths (nodup_paths_ofCalls others) fun path => (hsame path).lookup_eq
    have hfailures : (ofCalls calls).failures.Perm (ofCalls others).failures :=
      (List.perm_ext_iff_of_nodup (nodup_failures_ofCalls calls) (nodup_failures_ofCalls others)).2
        fun path => (hsame path).failed_iff
    exact agree_of_perm hpaths hentries hfailures

/-- Histories with the same last call about a path leave it with the same standing. -/
theorem sameStanding_of_lastAbout? {calls others : List Call} (h : lastAbout? calls path = lastAbout? others path) :
    SameStanding (ofCalls calls) (ofCalls others) path := by
  have hlookup : (ofCalls calls).entries.lookup path = (ofCalls others).entries.lookup path := by
    rw [lookup_ofCalls, lookup_ofCalls, h]
  constructor
  case contains_eq => rw [contains, contains, hlookup]
  case get_eq => rw [get, get, hlookup]
  case failed_iff => rw [mem_failures_ofCalls, mem_failures_ofCalls, h]

/-- A relative path of one name. -/
def plainPath (name : String) : Path :=
  ⟨.relative, [name.toList]⟩

/-- Two sources and a file that cannot be read, one after the other. -/
def straightCalls : List Call :=
  [.add (plainPath "a.sol") ⟨["./b.sol".toList, "./c.sol".toList], [" ^0.8.0".toList]⟩,
    .add (plainPath "b.sol") ⟨["./c.sol".toList], ["^0.8.0 ".toList, " 0.7.6".toList]⟩, .addFailure (plainPath "z.sol")]

/-- The same with the files the other way round, after other metadata and failures. -/
def twistedCalls : List Call :=
  [.addFailure (plainPath "b.sol"), .add (plainPath "z.sol") ⟨["./d.sol".toList], []⟩,
    .add (plainPath "b.sol") ⟨["./c.sol".toList], ["^0.8.0 ".toList, " 0.7.6".toList]⟩, .addFailure (plainPath "z.sol"),
    .add (plainPath "a.sol") .empty,
    .add (plainPath "a.sol") ⟨["./b.sol".toList, "./c.sol".toList], [" ^0.8.0".toList]⟩]

theorem ofCalls_aggregates_twisted :
    (∀ path, SameStanding (ofCalls straightCalls) (ofCalls twistedCalls) path) ∧
      (ofCalls straightCalls).paths ≠ (ofCalls twistedCalls).paths ∧
      Agree (ofCalls straightCalls) (ofCalls twistedCalls) ∧
      (ofCalls twistedCalls).allImports = ["./b.sol".toList, "./c.sol".toList] ∧
      (ofCalls twistedCalls).allSolidity = ["0.7.6".toList, "^0.8.0".toList] := by
  have hsame (path : Path) : SameStanding (ofCalls straightCalls) (ofCalls twistedCalls) path := by
    apply sameStanding_of_lastAbout?
    by_cases ha : plainPath "a.sol" = path
    · subst ha
      rfl
    by_cases hb : plainPath "b.sol" = path
    · subst hb
      rfl
    by_cases hz : plainPath "z.sol" = path
    · subst hz
      rfl
    simp [lastAbout?, straightCalls, twistedCalls, Call.path, ha, hb, hz]
  have hagree := (ofCalls_aggregates straightCalls).2.2 twistedCalls hsame
  exact ⟨hsame, by decide, hagree, by cbv, by cbv⟩

end Index

end DirectiveIndex
