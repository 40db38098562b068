import Mathlib
import DirectiveIndex.Proofs.Descents
import DirectiveIndex.Proofs.Following
import DirectiveIndex.Proofs.Targets

namespace DirectiveIndex

namespace Selection

variable {selection : Selection} {name : Text} {depth : Nat}

/-- A depth is within the limit if there is none or it does not exceed it. -/
theorem isTooDeep_eq_false_iff : selection.isTooDeep depth = false ↔
    ∀ greatest, selection.maxDepth = some greatest → (depth : Int) ≤ greatest := by
  unfold isTooDeep
  cases selection.maxDepth with
  | none => simp
  | some greatest => simp

/-- A name is not excluded if it is neither listed nor ends as a listed pattern does. -/
theorem excludes_eq_false_iff : selection.excludes name = false ↔
    name ∉ selection.excluded ∧ ∀ pattern ∈ selection.excluded, pattern.head? = some '*' →
      ¬ pattern.dropWhile (· == '*') <:+ name := by
  simp [excludes, List.any_eq_false]

end Selection

namespace FileSystem

variable {fs : FileSystem} {selection : Selection} {root path file : Path} {place next last : Place} {depth limit : Nat}
  {name : Text} {names : List Text} {files : List Path} {location : Location} {node : Node} {linksLeft : Nat}

/-- The locations that can be searched are the directories that are not denied. -/
theorem search_eq_ok_iff : fs.search location = .ok () ↔
    ∃ node, fs.node? location = some node ∧ node.isDirectory = true ∧ node.denied = false := by
  unfold search
  cases fs.node? location with
  | none => simp
  | some node => cases hdirectory : node.isDirectory <;> cases hdenied : node.denied <;> simp [hdirectory, hdenied]

/-- A walk along plain names enters the first from a place that can be searched. -/
theorem walk_cons_eq_ok_iff (hname : Path.IsPlain name) :
    fs.walk place.linksLeft place.location (name :: names) = .ok last ↔ fs.search place.location = .ok () ∧
      ∃ next, fs.enter place name = .ok next ∧ fs.walk next.linksLeft next.location names = .ok last := by
  rw [← List.singleton_append, walk_append_eq_ok_iff, walk_singleton hname]
  cases fs.search place.location with
  | error cause => simp [Except.bind]
  | ok => simp [Except.bind]

/-- Where names lead from a place that a path leads to. -/
theorem lookupWithin_below (hplace : fs.walk limit (fs.startOf path) (stepsOf path) = .ok place) (hnames : [] ∉ names) :
    fs.lookupWithin limit (path.below names) = .ok (last, node) ↔
      fs.walk place.linksLeft place.location names = .ok last ∧ fs.node? last.location = some node := by
  rw [lookupWithin_eq_ok_iff, walk_below limit path hnames, hplace]
  rfl

/-- Plain names are not empty. -/
theorem nil_notMem_of_isPlain (hnames : ∀ name ∈ names, Path.IsPlain name) : [] ∉ names :=
  fun hmem => (hnames [] hmem).1 rfl

/-- Whether every place on the way that names lead from another one can be searched, the first and the last included. -/
def IsOpenAlong (fs : FileSystem) (place : Place) (names : List Text) : Prop :=
  ∀ count ≤ names.length, ∃ mid, fs.walk place.linksLeft place.location (names.take count) = .ok mid ∧
    fs.search mid.location = .ok ()

/-- With no names to go along, the place itself has to be open. -/
theorem isOpenAlong_nil_iff : fs.IsOpenAlong place [] ↔ fs.search place.location = .ok () := by
  unfold IsOpenAlong
  simp [walk]

/-- What is open along some names is open at its beginning. -/
theorem IsOpenAlong.search (h : fs.IsOpenAlong place names) : fs.search place.location = .ok () := by
  obtain ⟨mid, hmid, hsearch⟩ := h 0 (Nat.zero_le _)
  rw [List.take_zero, walk] at hmid
  rwa [← Except.ok.inj hmid] at hsearch

/-- What is open along some names is open at the place that the first leads to. -/
theorem isOpenAlong_cons_iff (hname : Path.IsPlain name) :
    fs.IsOpenAlong place (name :: names) ↔
      fs.search place.location = .ok () ∧ ∃ next, fs.enter place name = .ok next ∧ fs.IsOpenAlong next names := by
  constructor
  · intro h
    obtain ⟨mid, hmid, -⟩ := h 1 (Nat.succ_le_succ (Nat.zero_le _))
    obtain ⟨hsearch, next, henter, -⟩ := (walk_cons_eq_ok_iff hname).1 hmid
    refine ⟨hsearch, next, henter, fun count hcount => ?_⟩
    obtain ⟨last, hlast, hopen⟩ := h (count + 1) (Nat.succ_le_succ hcount)
    obtain ⟨-, other, hother, hrest⟩ := (walk_cons_eq_ok_iff hname).1 hlast
    obtain rfl := Except.ok.inj (henter.symm.trans hother)
    exact ⟨last, hrest, hopen⟩
  · rintro ⟨hsearch, next, henter, h⟩ count hcount
    cases count with
    | zero => exact ⟨place, by rw [List.take_zero, walk], hsearch⟩
    | succ count =>
      obtain ⟨mid, hmid, hopen⟩ := h count (Nat.le_of_succ_le_succ hcount)
      exact ⟨mid, (walk_cons_eq_ok_iff hname).2 ⟨hsearch, next, henter, hmid⟩, hopen⟩

/-- A walk comes to a directory that can be searched if and only if a look-up does that passes through such directories
only, none of them left out. -/
theorem descends_iff (htree : fs.IsTree) :
    fs.Descends selection place names last ∧ fs.search last.location = .ok () ↔
      fs.walk place.linksLeft place.location names = .ok last ∧
        (∀ name ∈ names, Path.IsPlain name ∧ selection.excludes name = false) ∧ fs.IsOpenAlong place names := by
  induction names generalizing place with
  | nil =>
    rw [descends_nil_iff, walk, isOpenAlong_nil_iff]
    constructor
    · rintro ⟨rfl, hsearch⟩
      exact ⟨rfl, List.forall_mem_nil _, hsearch⟩
    · rintro ⟨hlast, -, hsearch⟩
      obtain rfl := Except.ok.inj hlast
      exact ⟨rfl, hsearch⟩
  | cons name names ih =>
    rw [descends_cons_iff]
    constructor
    · rintro ⟨⟨next, hgoes, hrest⟩, hlast⟩
      have hplain := (htree.isOrdinary_of_mem_namesIn hgoes.mem).isPlain
      obtain ⟨hwalk, hnames, hopen⟩ := ih.1 ⟨hrest, hlast⟩
      exact ⟨(walk_cons_eq_ok_iff hplain).2 ⟨hgoes.search, next, hgoes.enter, hwalk⟩,
        List.forall_mem_cons.2 ⟨⟨hplain, hgoes.excludes⟩, hnames⟩,
        (isOpenAlong_cons_iff hplain).2 ⟨hgoes.search, next, hgoes.enter, hopen⟩⟩
    · rintro ⟨hwalk, hnames, hopen⟩
      obtain ⟨⟨hplain, hexcludes⟩, hnames⟩ := List.forall_mem_cons.1 hnames
      obtain ⟨hsearch, next, henter, hrest⟩ := (walk_cons_eq_ok_iff hplain).1 hwalk
      obtain ⟨-, other, hother, hopen⟩ := (isOpenAlong_cons_iff hplain).1 hopen
      obtain rfl := Except.ok.inj (henter.symm.trans hother)
      obtain ⟨hdescends, hlast⟩ := ih.2 ⟨hrest, hnames, hopen⟩
      obtain ⟨node, hnode, hdirectory, -⟩ := search_eq_ok_iff.1 hopen.search
      refine ⟨⟨next, ⟨hsearch, mem_namesIn_of_enter henter hnode, henter, ?_, hexcludes⟩, hdescends⟩, hlast⟩
      rw [hnode]
      exact hdirectory

/-- Whether a path leads to a directory that can be listed, links followed. -/
def IsListable (fs : FileSystem) (path : Path) : Prop :=
  ∃ place node, fs.lookup path = .ok (place, node) ∧ node.isDirectory = true ∧ node.denied = false

/-- Whether names lead from a path to a file that is looked for, links followed. -/
structure IsSourceBelow (fs : FileSystem) (selection : Selection) (path : Path) (names : List Text) : Prop where
  ne_nil : names ≠ []
  isPlain : ∀ name ∈ names, Path.IsPlain name
  /-- Every directory on the way can be listed, the first one included. -/
  isListable : ∀ count < names.length, fs.IsListable (path.below (names.take count))
  /-- None of the directories is left out, by its name or by what its name ends with. -/
  isIncluded : ∀ name ∈ names.dropLast, name ∉ selection.excluded ∧
    ∀ pattern ∈ selection.excluded, pattern.head? = some '*' → ¬ pattern.dropWhile (· == '*') <:+ name
  /-- There are no more directories on the way than may be gone down. -/
  depth_le : ∀ greatest, selection.maxDepth = some greatest → (names.length : Int) - 1 ≤ greatest
  isFile : ∃ place bytes denied, fs.lookup (path.below names) = .ok (place, ⟨.file bytes, denied⟩)
  suffix_mem : Text.lower (path.below names).suffix ∈ selection.suffixes

/-- A path below a place can be listed if the walk along its names ends at a place that can be
searched. -/
theorem isListable_below_iff (hplace : fs.locate path = .ok place) (hnames : [] ∉ names) :
    fs.IsListable (path.below names) ↔
      ∃ mid, fs.walk place.linksLeft place.location names = .ok mid ∧ fs.search mid.location = .ok () := by
  simp only [search_eq_ok_iff]
  constructor
  · rintro ⟨mid, node, hlookup, hnode⟩
    obtain ⟨hwalk, hfound⟩ := (lookupWithin_below hplace hnames).1 hlookup
    exact ⟨mid, hwalk, node, hfound, hnode⟩
  · rintro ⟨mid, hwalk, node, hfound, hnode⟩
    exact ⟨mid, node, (lookupWithin_below hplace hnames).2 ⟨hwalk, hfound⟩, hnode⟩

/-- The directories above a name can all be listed if the way to it is open. -/
theorem forall_isListable_concat_iff (hplace : fs.locate path = .ok place) (hnames : [] ∉ names) :
    (∀ count < (names ++ [name]).length, fs.IsListable (path.below ((names ++ [name]).take count))) ↔
      fs.IsOpenAlong place names := by
  simp only [IsOpenAlong, List.length_append, List.length_singleton, Nat.lt_succ_iff]
  refine forall_congr' fun count => imp_congr_right fun hcount => ?_
  rw [List.take_append_of_le_length hcount,
    isListable_below_iff hplace fun hmem => hnames (List.mem_of_mem_take hmem)]

/-- What a path leads to is no link. -/
theorem isFile_of_lookup (hstart : fs.IsReal (fs.startOf path))
    (hlookup : fs.lookup path = .ok (place, node)) (hdirectory : node.isDirectory = false) :
    ∃ bytes denied, node = ⟨.file bytes, denied⟩ := by
  obtain ⟨hlocate, hfound⟩ := lookup_eq_ok_iff.1 hlookup
  have hlink := (isReal_of_walk hlocate hstart).target?_eq_none
  rw [target?, hfound, Option.bind_some] at hlink
  obtain ⟨content, denied⟩ := node
  cases content with
  | file bytes => exact ⟨bytes, denied, rfl⟩
  | directory => cases hdirectory
  | link target => cases hlink

/-- In a tree, the names of a descent are ordinary. -/
theorem Descends.isOrdinary (htree : fs.IsTree) (h : fs.Descends selection place names last) : IsOrdinary names := by
  induction h with
  | here => exact nofun
  | down hstep _ ih => exact List.forall_mem_cons.2 ⟨htree.isOrdinary_of_mem_namesIn hstep.mem, ih⟩

section Located

variable (hplace : fs.locate path = .ok place)
include hplace

/-- What the search finds is a source below the path. -/
theorem Finds.exists_isSourceBelow (htree : fs.IsTree) (hroot : path.root ≠ .relative)
    (h : fs.Finds selection path place 0 file) :
    ∃ names, fs.IsSourceBelow selection path names ∧ file = path.below names := by
  obtain ⟨names, last, name, hdescends, hdepth, hholds, rfl⟩ := h
  obtain ⟨hwalk, hnames, hopen⟩ := (descends_iff htree).1 ⟨hdescends, hholds.search⟩
  obtain ⟨next, node, henter, hnode, hdirectory⟩ := hholds.found
  have hname := htree.isOrdinary_of_mem_namesIn hholds.mem
  have hplain : ∀ other ∈ names ++ [name], Path.IsPlain other :=
    fun other hother => ((hdescends.isOrdinary htree).child hname other hother).isPlain
  have hstart : fs.IsReal (fs.startOf (path.below (names ++ [name]))) := by
    rw [startOf, if_neg (show (path.below _).root ≠ .relative from hroot)]
    exact .root
  have hlookup : fs.lookup (path.below (names ++ [name])) = .ok (next, node) := by
    refine (lookupWithin_below hplace (nil_notMem_of_isPlain hplain)).2
      ⟨walk_append_eq_ok_iff.2 ⟨last, hwalk, ?_⟩, hnode⟩
    exact (walk_cons_eq_ok_iff hname.isPlain).2 ⟨hholds.search, next, henter, by rw [walk]⟩
  obtain ⟨bytes, denied, rfl⟩ := isFile_of_lookup hstart hlookup hdirectory
  have habove : [] ∉ names := nil_notMem_of_isPlain fun other hother => (hnames other hother).1
  refine ⟨names ++ [name], ⟨List.concat_ne_nil name names, hplain,
    (forall_isListable_concat_iff hplace habove).2 hopen, ?_, fun greatest hgreatest => ?_,
    ⟨next, bytes, denied, hlookup⟩, ?_⟩, rfl⟩
  · rw [List.dropLast_concat]
    exact fun other hother => Selection.excludes_eq_false_iff.1 (hnames other hother).2
  · have hle := Selection.isTooDeep_eq_false_iff.1 hdepth greatest hgreatest
    rw [List.length_append, List.length_singleton]
    omega
  · rw [Path.below_concat, Path.suffix_child]
    exact hholds.wants

/-- A source below the path is found. -/
theorem IsSourceBelow.finds (htree : fs.IsTree) (h : fs.IsSourceBelow selection path names) :
    fs.Finds selection path place 0 (path.below names) := by
  obtain ⟨above, name, rfl⟩ := (List.eq_nil_or_concat' names).resolve_left h.ne_nil
  obtain ⟨next, bytes, denied, hlookup⟩ := h.isFile
  obtain ⟨hwalk, hnode⟩ := (lookupWithin_below hplace (nil_notMem_of_isPlain h.isPlain)).1 hlookup
  obtain ⟨last, habove, hlast⟩ := walk_append_eq_ok_iff.1 hwalk
  obtain ⟨hplain, hname⟩ := List.forall_mem_append.1 h.isPlain
  obtain ⟨hsearch, next', henter, hnil⟩ := (walk_cons_eq_ok_iff (List.forall_mem_singleton.1 hname)).1 hlast
  rw [walk] at hnil
  obtain rfl : next' = next := Except.ok.inj hnil
  have hincluded := h.isIncluded
  rw [List.dropLast_concat] at hincluded
  have hnames : ∀ other ∈ above, Path.IsPlain other ∧ selection.excludes other = false := fun other hother =>
    ⟨hplain other hother, Selection.excludes_eq_false_iff.2 (hincluded other hother)⟩
  obtain ⟨hdescends, -⟩ :=
    (descends_iff htree).2 ⟨habove, hnames,
      (forall_isListable_concat_iff hplace (nil_notMem_of_isPlain hplain)).1 h.isListable⟩
  refine ⟨above, last, name, hdescends, ?_,
    ⟨hsearch, mem_namesIn_of_enter henter hnode, ⟨next', _, henter, hnode, rfl⟩, ?_⟩, rfl⟩
  · refine Selection.isTooDeep_eq_false_iff.2 fun greatest hgreatest => ?_
    have hle := h.depth_le greatest hgreatest
    rw [List.length_append, List.length_singleton] at hle
    omega
  · have hwanted := h.suffix_mem
    rwa [Path.below_concat, Path.suffix_child] at hwanted

end Located

/-- The files in a directory are those of a walk from its place, or there are none because its path leads to no place.
-/
theorem sources_cases (hresolve : fs.resolve root = .ok path) (h : fs.sources selection root = .ok files) :
    (∃ place, fs.locate path = .ok place ∧ fs.sourcesBelow selection path place 0 = .ok files) ∨
      (∀ place, fs.locate path ≠ .ok place) ∧ files = [] := by
  rw [sources_eq hresolve] at h
  cases hplace : fs.locate path with
  | error cause =>
    refine .inr ⟨nofun, ?_⟩
    rw [lookup, hplace] at h
    dsimp only at h
    split at h
    · exact (Except.ok.inj h).symm
    · split at h
      · exact (Except.ok.inj h).symm
      · cases h
  | ok place =>
    refine .inl ⟨place, rfl, ?_⟩
    cases hdepth : selection.isTooDeep 0 with
    | true =>
      rw [hdepth, if_pos rfl] at h
      rw [sourcesBelow_of_isTooDeep hdepth, h]
    | false =>
      rw [hdepth, if_neg Bool.false_ne_true, lookup, hplace] at h
      dsimp only at h
      cases hnode : fs.node? place.location with
      | none =>
        rw [hnode] at h
        cases h
      | some node =>
        rw [hnode] at h
        exact h

/-- The files of a search are those that are found from the place of its root. -/
theorem mem_sources_iff (hresolve : fs.resolve root = .ok path) (h : fs.sources selection root = .ok files) :
    file ∈ files ↔ ∃ place, fs.locate path = .ok place ∧ fs.Finds selection path place 0 file := by
  rcases sources_cases hresolve h with ⟨place, hplace, hfiles⟩ | ⟨hnone, rfl⟩
  · rw [mem_sourcesBelow_iff place hfiles, hplace]
    simp
  · exact iff_of_false List.not_mem_nil fun ⟨place, hplace, _⟩ => hnone place hplace

/-- Whenever a directory is walked without a failure, the files that come out are those below its resolved path, each
once and in the order of their paths. -/
theorem sources_exact (htree : fs.IsTree) (h : fs.sources selection root = .ok files) :
    ∃ path, fs.resolve root = .ok path ∧
      (∀ file, file ∈ files ↔ ∃ names, fs.IsSourceBelow selection path names ∧ file = path.below names) ∧
      files.Pairwise fun a b => a.le b = true ∧ a ≠ b := by
  obtain ⟨path, hresolve, -⟩ := bind_eq_ok_iff.1 h
  refine ⟨path, hresolve, fun file => ?_, ?_⟩
  · have hroot : path.root ≠ .relative := by
      rw [root_of_resolve hresolve]
      decide
    rw [mem_sources_iff hresolve h]
    constructor
    · rintro ⟨place, hplace, hfinds⟩
      exact hfinds.exists_isSourceBelow hplace htree hroot
    · rintro ⟨names, hsource, rfl⟩
      obtain ⟨place, node, hlookup, -⟩ := hsource.isListable 0 (List.length_pos_of_ne_nil hsource.ne_nil)
      rw [List.take_zero, Path.below_nil] at hlookup
      have hplace := (lookup_eq_ok_iff.1 hlookup).1
      exact ⟨place, hplace, hsource.finds hplace htree⟩
  · rcases sources_cases hresolve h with ⟨place, -, hfiles⟩ | ⟨-, rfl⟩
    · exact pairwise_sourcesBelow htree place hfiles
    · exact List.Pairwise.nil

/-- A directory with a source, a sibling whose name goes on, and a link to the directory. -/
def linkedTree : FileSystem :=
  ⟨[([['r']], ⟨.directory, false⟩), ([['r'], ['a']], ⟨.directory, false⟩),
    ([['r'], ['a'], "x.sol".toList], ⟨.file [], false⟩), ([['r'], "a-b.sol".toList], ⟨.file [], false⟩),
    ([['r'], ['l']], ⟨.link ['a'], false⟩)], []⟩

/-- Everything with the usual suffix, down to any depth. -/
def usualSelection : Selection :=
  ⟨Selection.defaultSuffixes, Selection.defaultExcluded, none⟩

theorem resolve_linkedTree : linkedTree.resolve ⟨.absolute, [['r']]⟩ = .ok ⟨.absolute, [['r']]⟩ := by
  have hlocate : linkedTree.locate ⟨.absolute, [['r']]⟩ = .ok ⟨[['r']], 40⟩ := by cbv
  exact resolve_of_locate hlocate .root rfl

/-- The directory has one source, whichever way it is come to. -/
theorem sourcesBelow_linkedTree (path : Path) (linksLeft : Nat) :
    linkedTree.sourcesBelow usualSelection path ⟨[['r'], ['a']], linksLeft⟩ 1 = .ok [path.child "x.sol".toList] := by
  have hsearch : linkedTree.search [['r'], ['a']] = .ok () := by cbv
  have hnames : Text.sort (linkedTree.namesIn [['r'], ['a']]) = ["x.sol".toList] := by cbv
  have hat : linkedTree.sourcesAt usualSelection path ⟨[['r'], ['a']], linksLeft⟩ 1 "x.sol".toList =
      .ok [path.child "x.sol".toList] := by
    have hwants : usualSelection.wants (path.child "x.sol".toList) = true := by
      rw [wants_child_iff]
      decide
    have henter : linkedTree.enter ⟨[['r'], ['a']], linksLeft⟩ "x.sol".toList =
        .ok ⟨[['r'], ['a'], "x.sol".toList], linksLeft⟩ := by cbv
    rw [sourcesAt, henter]
    dsimp only
    rw [hwants]
    rfl
  rw [sourcesBelow_of_open rfl hsearch, hnames, List.mapM_cons, hat]
  rfl

theorem sources_linkedTree :
    linkedTree.sources usualSelection ⟨.absolute, [['r']]⟩ =
      .ok [⟨.absolute, [['r'], ['a'], "x.sol".toList]⟩, ⟨.absolute, [['r'], "a-b.sol".toList]⟩,
        ⟨.absolute, [['r'], ['l'], "x.sol".toList]⟩] := by
  have hlookup : linkedTree.lookup ⟨.absolute, [['r']]⟩ = .ok (⟨[['r']], 40⟩, ⟨.directory, false⟩) := by cbv
  have hsearch : linkedTree.search [['r']] = .ok () := by cbv
  have hnames : Text.sort (linkedTree.namesIn [['r']]) = [['a'], "a-b.sol".toList, ['l']] := by cbv
  have hdirectory {name : Text} {linksLeft : Nat}
      (henter : linkedTree.enter ⟨[['r']], 40⟩ name = .ok ⟨[['r'], ['a']], linksLeft⟩)
      (hexcludes : usualSelection.excludes name = false) :
      linkedTree.sourcesAt usualSelection ⟨.absolute, [['r']]⟩ ⟨[['r']], 40⟩ 0 name =
        .ok [⟨.absolute, [['r'], name, "x.sol".toList]⟩] := by
    have hnode : linkedTree.node? [['r'], ['a']] = some ⟨.directory, false⟩ := by cbv
    rw [sourcesAt, henter]
    dsimp only
    rw [hnode]
    dsimp only
    rw [if_pos (by decide), hexcludes, if_neg Bool.false_ne_true, sourcesBelow_linkedTree]
    rfl
  have hfile : linkedTree.sourcesAt usualSelection ⟨.absolute, [['r']]⟩ ⟨[['r']], 40⟩ 0 "a-b.sol".toList =
      .ok [⟨.absolute, [['r'], "a-b.sol".toList]⟩] := by cbv
  rw [sources_eq resolve_linkedTree, hlookup]
  dsimp only
  rw [if_neg (by decide), sourcesBelow_of_open rfl hsearch, hnames, List.mapM_cons, List.mapM_cons, List.mapM_cons,
    hdirectory (by cbv) (by decide), hfile, hdirectory (by cbv) (by decide)]
  rfl

/-- The link to the directory is gone down as the directory itself is, and what lies in the directory comes before the
sibling. -/
theorem sources_exact_linkedTree :
    linkedTree.IsTree ∧ ∃ files, linkedTree.sources usualSelection ⟨.absolute, [['r']]⟩ = .ok files ∧
      files.length = 3 ∧ ∃ path, linkedTree.resolve ⟨.absolute, [['r']]⟩ = .ok path ∧
        (∀ file, file ∈ files ↔ ∃ names, linkedTree.IsSourceBelow usualSelection path names ∧ file = path.below names) ∧
        files.Pairwise fun a b => a.le b = true ∧ a ≠ b :=
  have htree : linkedTree.IsTree := by decide
  ⟨htree, _, sources_linkedTree, rfl, sources_exact htree sources_linkedTree⟩

end FileSystem

end DirectiveIndex
