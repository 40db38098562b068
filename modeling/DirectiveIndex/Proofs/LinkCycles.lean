import DirectiveIndex.Proofs.Sources

namespace DirectiveIndex

/-- There are finitely many lists of limited length with given elements. -/
theorem finite_lists {α : Type} (elements : List α) (bound : Nat) :
    {list : List α | list.length < bound ∧ ∀ a ∈ list, a ∈ elements}.Finite := by
  have : Finite {a // a ∈ elements} := (List.finite_toSet elements).to_subtype
  refine ((List.finite_length_lt {a // a ∈ elements} bound).image (List.map Subtype.val)).subset ?_
  rintro list ⟨hlength, hmem⟩
  refine ⟨list.attachWith _ hmem, ?_, List.attachWith_map_subtype_val hmem⟩
  rwa [Set.mem_ofPred_eq, List.length_attachWith]

namespace FileSystem

variable {fs : FileSystem} {selection : Selection} {path file : Path} {place next last : Place} {depth limit : Nat}
  {name : Text} {names : List Text} {files : List Path} {location : Location} {node : Node} {linksLeft : Nat}

/-- Whether a path leads to a directory that can be searched and lists the name. -/
def Lists (fs : FileSystem) (limit : Nat) (path : Path) (name : Text) : Prop :=
  ∃ place node, fs.lookupWithin limit path = .ok (place, node) ∧ fs.search place.location = .ok () ∧
    name ∈ fs.namesIn place.location

/-- The directories to which the recursion of a walk comes from a path, by the names on the way down to them. Each of
them is looked up anew by its own path, and every such look-up may follow as many links as any other. -/
inductive Recurses (fs : FileSystem) (selection : Selection) (limit : Nat) (path : Path) : List Text → Prop where
  | here : Recurses fs selection limit path []
  | down {names : List Text} {name : Text} {place : Place} {node : Node} (habove : Recurses fs selection limit path names)
      (hdepth : selection.isTooDeep names.length = false) (hlists : fs.Lists limit (path.below names) name)
      (hlookup : fs.lookupWithin limit (path.below (names ++ [name])) = .ok (place, node))
      (hdirectory : node.isDirectory = true) (hexcludes : selection.excludes name = false) :
      Recurses fs selection limit path (names ++ [name])

/-- Whether the recursion of a walk from a path yields a file. -/
def Yields (fs : FileSystem) (selection : Selection) (limit : Nat) (path file : Path) : Prop :=
  ∃ names name place node, fs.Recurses selection limit path names ∧ selection.isTooDeep names.length = false ∧
    fs.Lists limit (path.below names) name ∧ file = path.below (names ++ [name]) ∧
    fs.lookupWithin limit file = .ok (place, node) ∧ node.isDirectory = false ∧ selection.wants file = true

/-- How many directories a walk can go down at most. -/
def stepsLeft (fs : FileSystem) (place : Place) : Nat :=
  place.linksLeft * (fs.height + 1) + (fs.height - place.location.length)

/-- Going down takes a step, so that the steps left bound the recursion. -/
theorem GoesDown.stepsLeft_lt (h : fs.GoesDown selection place name next) : fs.stepsLeft next < fs.stepsLeft place := by
  obtain ⟨node, hnode, -⟩ := (Option.any_eq_true _ _).1 h.isDirectory
  unfold stepsLeft
  rcases enter_measure_lt h.enter hnode with hlinks | ⟨hlinks, hnames⟩
  · have hmul := Nat.mul_le_mul_right (fs.height + 1) (Nat.succ_le_of_lt hlinks)
    rw [Nat.succ_mul] at hmul
    omega
  · rw [hlinks]
    omega

/-- A descent is no longer than the steps left at its beginning. -/
theorem Descends.length_le (h : fs.Descends selection place names last) : names.length ≤ fs.stepsLeft place := by
  induction h with
  | here => exact Nat.zero_le _
  | down hstep _ ih => exact Nat.lt_of_le_of_lt ih hstep.stepsLeft_lt

/-- The names of everything that there is. -/
def allNames (fs : FileSystem) : List Text :=
  fs.entries.filterMap (·.1.getLast?)

/-- What stands in a directory is among all the names. -/
theorem mem_allNames_of_mem_namesIn (h : name ∈ fs.namesIn location) : name ∈ fs.allNames := by
  obtain ⟨node, hentry⟩ := mem_namesIn_iff.1 h
  exact List.mem_filterMap.2 ⟨_, hentry, List.getLast?_concat⟩

/-- The names of a recursion are among all the names. -/
theorem Recurses.mem_allNames (h : fs.Recurses selection limit path names) : ∀ name ∈ names, name ∈ fs.allNames := by
  induction h with
  | here => exact nofun
  | down _ _ hlists _ _ _ ih =>
    obtain ⟨place, node, -, -, hname⟩ := hlists
    exact List.forall_mem_append.2 ⟨ih, List.forall_mem_singleton.2 (mem_allNames_of_mem_namesIn hname)⟩

/-- A walk comes to where a look-up of the names on the way does. -/
theorem Descends.walk_eq (htree : fs.IsTree) (h : fs.Descends selection place names last) :
    fs.walk place.linksLeft place.location names = .ok last := by
  induction h with
  | here place => rw [walk]
  | @down place next _ name _ hstep _ ih =>
    have hplain := (htree.isOrdinary_of_mem_namesIn hstep.mem).isPlain
    exact (walk_cons_eq_ok_iff hplain).2 ⟨hstep.search, next, hstep.enter, ih⟩

/-- In a tree, no name of a descent is empty. -/
theorem Descends.nil_notMem (htree : fs.IsTree) (h : fs.Descends selection place names last) : [] ∉ names :=
  nil_notMem_of_isPlain fun name hname => (h.isOrdinary htree name hname).isPlain

section Located

variable (htree : fs.IsTree) (hplace : fs.walk limit (fs.startOf path) (stepsOf path) = .ok place)
  (hdescends : fs.Descends selection place names last)
include htree hplace hdescends

/-- A path lists a name if the place it leads to can be searched and has the name. -/
theorem lists_iff :
    fs.Lists limit (path.below names) name ↔ fs.search last.location = .ok () ∧ name ∈ fs.namesIn last.location := by
  constructor
  · rintro ⟨mid, node, hlookup, hlists⟩
    obtain ⟨hwalk, -⟩ := (lookupWithin_below hplace (hdescends.nil_notMem htree)).1 hlookup
    obtain rfl := Except.ok.inj ((hdescends.walk_eq htree).symm.trans hwalk)
    exact hlists
  · rintro ⟨hsearch, hname⟩
    obtain ⟨node, hnode, -⟩ := search_eq_ok_iff.1 hsearch
    have hlookup := (lookupWithin_below hplace (hdescends.nil_notMem htree)).2 ⟨hdescends.walk_eq htree, hnode⟩
    exact ⟨last, node, hlookup, hsearch, hname⟩

/-- A path with one more name is looked up by entering the name from its place. -/
theorem lookupWithin_concat_iff (hsearch : fs.search last.location = .ok ()) (hname : Path.IsPlain name) :
    fs.lookupWithin limit (path.below (names ++ [name])) = .ok (next, node) ↔
      fs.enter last name = .ok next ∧ fs.node? next.location = some node := by
  have hnames : [] ∉ names ++ [name] :=
    List.not_mem_append (hdescends.nil_notMem htree) fun hmem => hname.1 (List.mem_singleton.1 hmem).symm
  rw [lookupWithin_below hplace hnames, walk_append, hdescends.walk_eq htree]
  dsimp only [Except.bind]
  rw [walk_singleton hname, hsearch]
  rfl

/-- A walk goes down exactly into what the recursion comes to by looking up the path of the name. -/
theorem goesDown_iff_lookupWithin :
    fs.GoesDown selection last name next ↔ fs.Lists limit (path.below names) name ∧
      (∃ node, fs.lookupWithin limit (path.below (names ++ [name])) = .ok (next, node) ∧ node.isDirectory = true) ∧
      selection.excludes name = false := by
  rw [lists_iff htree hplace hdescends]
  constructor
  · intro hgoes
    obtain ⟨henter, ⟨node, hnode, hdirectory⟩, hexcludes⟩ := (goesDown_iff hgoes.search hgoes.mem).1 hgoes
    have hplain := (htree.isOrdinary_of_mem_namesIn hgoes.mem).isPlain
    have hlookup := (lookupWithin_concat_iff htree hplace hdescends hgoes.search hplain).2 ⟨henter, hnode⟩
    exact ⟨⟨hgoes.search, hgoes.mem⟩, ⟨node, hlookup, hdirectory⟩, hexcludes⟩
  · rintro ⟨⟨hsearch, hname⟩, ⟨node, hlookup, hdirectory⟩, hexcludes⟩
    have hplain := (htree.isOrdinary_of_mem_namesIn hname).isPlain
    obtain ⟨henter, hnode⟩ := (lookupWithin_concat_iff htree hplace hdescends hsearch hplain).1 hlookup
    exact (goesDown_iff hsearch hname).2 ⟨henter, ⟨node, hnode, hdirectory⟩, hexcludes⟩

/-- The sources in a directory, told by their paths. -/
theorem holdsSource_iff_lookupWithin :
    fs.HoldsSource selection last name ↔ fs.Lists limit (path.below names) name ∧
      (∃ next node, fs.lookupWithin limit (path.below (names ++ [name])) = .ok (next, node) ∧
        node.isDirectory = false) ∧
      selection.wants (path.below (names ++ [name])) = true := by
  rw [lists_iff htree hplace hdescends, Path.below_concat]
  constructor
  · intro hholds
    obtain ⟨⟨next, node, henter, hnode, hfile⟩, hwants⟩ := (holdsSource_iff hholds.search hholds.mem _).1 hholds
    have hplain := (htree.isOrdinary_of_mem_namesIn hholds.mem).isPlain
    have hlookup := (lookupWithin_concat_iff htree hplace hdescends hholds.search hplain).2 ⟨henter, hnode⟩
    rw [Path.below_concat] at hlookup
    exact ⟨⟨hholds.search, hholds.mem⟩, ⟨next, node, hlookup, hfile⟩, hwants⟩
  · rintro ⟨⟨hsearch, hname⟩, ⟨next, node, hlookup, hfile⟩, hwants⟩
    have hplain := (htree.isOrdinary_of_mem_namesIn hname).isPlain
    rw [← Path.below_concat] at hlookup
    obtain ⟨henter, hnode⟩ := (lookupWithin_concat_iff htree hplace hdescends hsearch hplain).1 hlookup
    exact (holdsSource_iff hsearch hname _).2 ⟨⟨next, node, henter, hnode, hfile⟩, hwants⟩

end Located

/-- The recursion comes only to directories that a walk comes to by going down. -/
theorem Recurses.exists_descends (htree : fs.IsTree) (hplace : fs.walk limit (fs.startOf path) (stepsOf path) = .ok place)
    (h : fs.Recurses selection limit path names) : ∃ last, fs.Descends selection place names last := by
  induction h with
  | here => exact ⟨place, .here place⟩
  | @down names name next node habove hdepth hlists hlookup hdirectory hexcludes ih =>
    obtain ⟨last, hdescends⟩ := ih
    have hgoes := (goesDown_iff_lookupWithin htree hplace hdescends).2
      ⟨hlists, ⟨node, hlookup, hdirectory⟩, hexcludes⟩
    exact ⟨next, descends_concat_iff.2 ⟨last, hdescends, hgoes⟩⟩

/-- The recursion comes to all directories that a walk comes to by going down, if they are not too deep. -/
theorem recurses_of_descends (htree : fs.IsTree) (hplace : fs.walk limit (fs.startOf path) (stepsOf path) = .ok place)
    (h : fs.Descends selection place names last) (hdepth : selection.isTooDeep names.length = false) :
    fs.Recurses selection limit path names := by
  induction names using List.reverseRecOn generalizing last with
  | nil => exact .here
  | append_singleton names name ih =>
    obtain ⟨mid, hmid, hgoes⟩ := descends_concat_iff.1 h
    obtain ⟨hlists, ⟨node, hlookup, hdirectory⟩, hexcludes⟩ :=
      (goesDown_iff_lookupWithin htree hplace hmid).1 hgoes
    have habove : selection.isTooDeep names.length = false := by
      refine Bool.eq_false_iff.2 fun hdeep => ?_
      rw [List.length_append, Selection.isTooDeep_add hdeep] at hdepth
      cases hdepth
    exact .down (ih hmid habove) habove hlists hlookup hdirectory hexcludes

/-- Where the path itself cannot be looked up, the recursion goes no further. -/
theorem Recurses.eq_nil {cause : Cause} (hplace : fs.walk limit (fs.startOf path) (stepsOf path) = .error cause)
    (h : fs.Recurses selection limit path names) : names = [] := by
  induction h with
  | here => rfl
  | @down names name _ _ _ _ hlists _ _ _ ih =>
    obtain ⟨place, node, hlookup, -⟩ := hlists
    rw [ih, Path.below_nil, lookupWithin, hplace] at hlookup
    cases hlookup

/-- No recursion is longer than the links and the height of the tree allow. -/
theorem Recurses.length_lt (htree : fs.IsTree) (h : fs.Recurses selection limit path names) :
    names.length < (limit + 1) * (fs.height + 1) := by
  cases hplace : fs.walk limit (fs.startOf path) (stepsOf path) with
  | error cause =>
    rw [h.eq_nil hplace]
    exact Nat.mul_pos (Nat.succ_pos limit) (Nat.succ_pos fs.height)
  | ok place =>
    obtain ⟨last, hdescends⟩ := h.exists_descends htree hplace
    have hlength := hdescends.length_le
    have hlinks := Nat.mul_le_mul_right (fs.height + 1) (walk_linksLeft_le hplace)
    rw [Nat.succ_mul]
    unfold stepsLeft at hlength
    omega

/-- The recursion yields what a walk finds. -/
theorem yields_iff_finds (htree : fs.IsTree) (hplace : fs.walk limit (fs.startOf path) (stepsOf path) = .ok place) :
    fs.Yields selection limit path file ↔ fs.Finds selection path place 0 file := by
  constructor
  · rintro ⟨names, name, next, node, hrecurses, hdepth, hlists, rfl, hlookup, hfile, hwants⟩
    obtain ⟨last, hdescends⟩ := hrecurses.exists_descends htree hplace
    refine ⟨names, last, name, hdescends, by rwa [Nat.zero_add], ?_, rfl⟩
    exact (holdsSource_iff_lookupWithin htree hplace hdescends).2
      ⟨hlists, ⟨next, node, hlookup, hfile⟩, hwants⟩
  · rintro ⟨names, last, name, hdescends, hdepth, hholds, rfl⟩
    rw [Nat.zero_add] at hdepth
    obtain ⟨hlists, ⟨next, node, hlookup, hfile⟩, hwants⟩ :=
      (holdsSource_iff_lookupWithin htree hplace hdescends).1 hholds
    exact ⟨names, name, next, node, recurses_of_descends htree hplace hdescends hdepth, hdepth, hlists, rfl, hlookup,
      hfile, hwants⟩

/-- Whatever links there are, and however many of them a look-up may follow, the recursion comes to finitely many
directories, none of them further down than the links and the height of the tree allow, and yields finitely many files:
those that the walk gives, each once. -/
theorem recursion_finite (htree : fs.IsTree) (selection : Selection) (limit : Nat) (path : Path) :
    {names | fs.Recurses selection limit path names}.Finite ∧
      (∀ names, fs.Recurses selection limit path names → names.length < (limit + 1) * (fs.height + 1)) ∧
      {file | fs.Yields selection limit path file}.Finite ∧
      ∀ place node files, fs.lookupWithin limit path = .ok (place, node) →
        fs.sourcesBelow selection path place 0 = .ok files →
          files.Nodup ∧ ∀ file, file ∈ files ↔ fs.Yields selection limit path file := by
  have hrecurses : {names | fs.Recurses selection limit path names}.Finite :=
    (finite_lists fs.allNames ((limit + 1) * (fs.height + 1))).subset
      fun names h => ⟨h.length_lt htree, h.mem_allNames⟩
  refine ⟨hrecurses, fun names h => h.length_lt htree, ?_, fun place node files hlookup hfiles => ?_⟩
  · refine (hrecurses.image2 (fun names name => path.below (names ++ [name])) (List.finite_toSet fs.allNames)).subset ?_
    rintro file ⟨names, name, _, _, hnames, -, ⟨_, _, -, -, hname⟩, rfl, -⟩
    exact ⟨names, hnames, name, mem_allNames_of_mem_namesIn hname, rfl⟩
  · have hplace := (lookupWithin_eq_ok_iff.1 hlookup).1
    refine ⟨(pairwise_sourcesBelow htree place hfiles).imp And.right, fun file => ?_⟩
    rw [mem_sourcesBelow_iff place hfiles, yields_iff_finds htree hplace]

/-- A directory with a source and a link to the directory itself. -/
def cyclicTree : FileSystem :=
  ⟨[([['d']], ⟨.directory, false⟩), ([['d'], "x.sol".toList], ⟨.file [], false⟩),
    ([['d'], ['l']], ⟨.link ['.'], false⟩)], []⟩

/-- The recursion goes through the link, and comes to an end. -/
theorem recursion_finite_cyclicTree :
    cyclicTree.IsTree ∧ cyclicTree.Recurses usualSelection 40 ⟨.absolute, [['d']]⟩ [['l']] ∧
      {names | cyclicTree.Recurses usualSelection 40 ⟨.absolute, [['d']]⟩ names}.Finite ∧
      {file | cyclicTree.Yields usualSelection 40 ⟨.absolute, [['d']]⟩ file}.Finite := by
  have htree : cyclicTree.IsTree := by decide
  have hroot : cyclicTree.lookupWithin 40 ⟨.absolute, [['d']]⟩ = .ok (⟨[['d']], 40⟩, ⟨.directory, false⟩) := by cbv
  have hlink : cyclicTree.lookupWithin 40 ⟨.absolute, [['d'], ['l']]⟩ = .ok (⟨[['d']], 39⟩, ⟨.directory, false⟩) := by
    cbv
  have hlists : cyclicTree.Lists 40 ⟨.absolute, [['d']]⟩ ['l'] := ⟨_, _, hroot, by cbv, by decide⟩
  obtain ⟨hfinite, -, hfiles, -⟩ := recursion_finite htree usualSelection 40 ⟨.absolute, [['d']]⟩
  exact ⟨htree, .down .here (by decide) hlists hlink (by decide) (by decide), hfinite, hfiles⟩

end FileSystem

end DirectiveIndex
