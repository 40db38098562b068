import Mathlib.Data.List.Nodup
import DirectiveIndex.Proofs.OrderedMaps
import DirectiveIndex.Proofs.Outcomes
import DirectiveIndex.Proofs.Paths
import DirectiveIndex.Proofs.Resolving
import DirectiveIndex.Report

namespace DirectiveIndex

namespace Path

variable {path above : Path}

/-- What lies below a directory is shown by the names below it. -/
theorem relativeTo?_of_append {tail : List Text} (hroot : path.root = above.root)
    (hnames : path.names = above.names ++ tail) : path.relativeTo? above = some ⟨.relative, tail⟩ := by
  have hbelow : above.names.isPrefixOf path.names := List.isPrefixOf_iff_prefix.2 (hnames ▸ List.prefix_append _ _)
  rw [relativeTo?, if_pos ⟨hroot, hbelow⟩, hnames, List.drop_left]

/-- What does not lie below a directory cannot be shown from it. -/
theorem relativeTo?_of_not_prefix (h : ¬ above.names <+: path.names) : path.relativeTo? above = none :=
  if_neg fun hbelow => h (List.isPrefixOf_iff_prefix.1 hbelow.2)

/-- Whether one path lies below the base, the other below the root of the search but not below the base, and both are
reached in the same way from there. -/
def Mirrors (base root path other : Path) : Prop :=
  ∃ tail, path.names = base.names ++ tail ∧ other.names = root.names ++ tail ∧ ¬ base.names <+: other.names

/-- Whether two different paths are written in the same way but for slashes and backslashes. -/
def DifferInSlashes (path other : Path) : Prop :=
  path ≠ other ∧ Text.replaceChar '\\' '/' path.text = Text.replaceChar '\\' '/' other.text

instance (path other : Path) : Decidable (DifferInSlashes path other) :=
  inferInstanceAs (Decidable (_ ∧ _))

instance (base root path other : Path) : Decidable (Mirrors base root path other) :=
  decidable_of_iff (base.names <+: path.names ∧ root.names <+: other.names ∧ ¬ base.names <+: other.names ∧
      path.names.drop base.names.length = other.names.drop root.names.length) <| by
    constructor
    · rintro ⟨hpath, hother, hnot, htail⟩
      refine ⟨_, (List.prefix_iff_eq_append.1 hpath).symm, ?_, hnot⟩
      rw [htail]
      exact (List.prefix_iff_eq_append.1 hother).symm
    · rintro ⟨tail, hpath, hother, hnot⟩
      refine ⟨hpath ▸ List.prefix_append _ _, hother ▸ List.prefix_append _ _, hnot, ?_⟩
      rw [hpath, hother, List.drop_left, List.drop_left]

/-- A path does not mirror itself. -/
theorem Mirrors.ne {base root path other : Path} (h : Mirrors base root path other) : path ≠ other := by
  obtain ⟨tail, hpath, -, hnot⟩ := h
  exact fun heq => hnot (heq ▸ hpath ▸ List.prefix_append _ _)

/-- A character that separates nothing occurs in a path only within its names. -/
theorem not_mem_text {path : Path} {c : Char} (hslash : c ≠ '/') (hdot : c ≠ '.')
    (hnames : ∀ name ∈ path.names, c ∉ name) : c ∉ path.text := by
  have hroot : c ∉ path.root.text := by cases path.root <;> simp [Root.text, hslash]
  unfold text
  split
  · simp [selfName, hdot]
  · rw [List.mem_append, not_or]
    exact ⟨hroot, Text.not_mem_join hslash hnames⟩

/-- Paths that differ in slashes hold a backslash. -/
theorem DifferInSlashes.exists_backslash {path other : Path} (h : DifferInSlashes path other) (hpath : path.IsProper)
    (hother : other.IsProper) : ∃ name ∈ path.names ++ other.names, '\\' ∈ name := by
  refine Decidable.byContradiction fun hnone => h.1 (eq_of_text_eq hpath hother ?_)
  have hnames (name : Text) (hname : name ∈ path.names ++ other.names) : '\\' ∉ name :=
    fun hmem => hnone ⟨name, hname, hmem⟩
  have htext := h.2
  rwa [Text.replaceChar_eq_self (not_mem_text (by decide) (by decide) fun name hname =>
      hnames name (List.mem_append_left _ hname)),
    Text.replaceChar_eq_self (not_mem_text (by decide) (by decide) fun name hname =>
      hnames name (List.mem_append_right _ hname))] at htext

end Path

namespace Frame

/-- The path under which a file is shown, given what its path resolves to: from the base, or else from the root of the
search, or else as it is. The directories of the frame are resolved. -/
def shown (frame : Frame) (resolved path : Path) : Path :=
  ((resolved.relativeTo? frame.base).or (resolved.relativeTo? frame.root)).getD path

/-- The text under which a file is shown. -/
def displayText (frame : Frame) (resolved path : Path) : Text :=
  Text.replaceChar '\\' '/' (frame.shown resolved path).text

/-- What the directories of a frame resolve to. -/
def ResolvesTo (fs : FileSystem) (frame resolved : Frame) : Prop :=
  fs.resolve frame.base = .ok resolved.base ∧ fs.resolve frame.root = .ok resolved.root

variable {fs : FileSystem} {frame ends : Frame} {path other resolved : Path}

/-- A file is shown by what its path has behind the base or behind the root of the search, or as it is. -/
theorem shown_cases (hbase : path.root = ends.base.root) (hroot : path.root = ends.root.root) :
    (∃ tail, ends.shown path path = ⟨.relative, tail⟩ ∧
      (path.names = ends.base.names ++ tail ∨
        path.names = ends.root.names ++ tail ∧ ¬ ends.base.names <+: path.names)) ∨
      ends.shown path path = path := by
  unfold shown
  by_cases hbelow : ends.base.names <+: path.names
  · obtain ⟨tail, htail⟩ := hbelow
    rw [Path.relativeTo?_of_append hbase htail.symm]
    exact .inl ⟨tail, rfl, .inl htail.symm⟩
  · rw [Path.relativeTo?_of_not_prefix hbelow, Option.none_or]
    by_cases hsearch : ends.root.names <+: path.names
    · obtain ⟨tail, htail⟩ := hsearch
      rw [Path.relativeTo?_of_append hroot htail.symm]
      exact .inl ⟨tail, rfl, .inr ⟨htail.symm, hbelow⟩⟩
    · rw [Path.relativeTo?_of_not_prefix hsearch]
      exact .inr rfl

/-- Showing a path adds no names. -/
theorem mem_names_of_shown (hbase : path.root = ends.base.root) (hroot : path.root = ends.root.root) {name : Text}
    (h : name ∈ (ends.shown path path).names) : name ∈ path.names := by
  rcases shown_cases hbase hroot with ⟨tail, hshown, hnames⟩ | hshown
  · rw [hshown] at h
    rcases hnames with hnames | ⟨hnames, -⟩ <;> exact hnames ▸ List.mem_append_right _ h
  · exact hshown ▸ h

/-- Paths that mirror each other are shown alike. -/
theorem shown_of_mirrors (hbase : path.root = ends.base.root) (hroot : path.root = ends.root.root)
    (hother : other.root = path.root) (h : Path.Mirrors ends.base ends.root path other) :
    ends.shown path path = ends.shown other other := by
  obtain ⟨tail, hpath, hnames, hnot⟩ := h
  unfold shown
  rw [Path.relativeTo?_of_append hbase hpath, Path.relativeTo?_of_not_prefix hnot,
    Path.relativeTo?_of_append (hother.trans hroot) hnames]
  rfl

/-- Two files are shown in the same way if and only if they are one file or one mirrors the other. -/
theorem shown_eq_shown_iff (hbase : path.root = ends.base.root) (hroot : path.root = ends.root.root)
    (habsolute : path.root ≠ .relative) (hother : other.root = path.root) :
    ends.shown path path = ends.shown other other ↔
      path = other ∨ Path.Mirrors ends.base ends.root path other ∨ Path.Mirrors ends.base ends.root other path := by
  constructor
  · intro h
    have hsame {names : List Text} (hpath : path.names = names) (hnames : other.names = names) : path = other := by
      obtain ⟨root, names⟩ := path
      obtain ⟨root', names'⟩ := other
      exact Path.mk.injEq .. ▸ ⟨hother.symm, hpath.trans hnames.symm⟩
    rcases shown_cases hbase hroot with ⟨tail, hshown, hpath⟩ | hshown
    · rcases shown_cases (hother.trans hbase) (hother.trans hroot) with ⟨tail', hshown', hnames⟩ | hshown'
      · rw [hshown, hshown', Path.mk.injEq] at h
        rw [← h.2] at hnames
        rcases hpath with hpath | ⟨hpath, hnot⟩ <;> rcases hnames with hnames | ⟨hnames, hnot'⟩
        · exact .inl (hsame hpath hnames)
        · exact .inr (.inl ⟨tail, hpath, hnames, hnot'⟩)
        · exact .inr (.inr ⟨tail, hnames, hpath, hnot⟩)
        · exact .inl (hsame hpath hnames)
      · rw [hshown, hshown'] at h
        exact absurd (hother ▸ congrArg Path.root h).symm habsolute
    · rcases shown_cases (hother.trans hbase) (hother.trans hroot) with ⟨tail', hshown', -⟩ | hshown'
      · rw [hshown, hshown'] at h
        exact absurd (congrArg Path.root h) habsolute
      · exact .inl (hshown.symm.trans (h.trans hshown'))
  · rintro (rfl | h | h)
    · rfl
    · exact shown_of_mirrors hbase hroot hother h
    · exact (shown_of_mirrors (hother.trans hbase) (hother.trans hroot) hother.symm h).symm

/-- When two files have one display text. -/
theorem displayText_eq_iff (path other : Path) (hbase : path.root = ends.base.root) (hroot : path.root = ends.root.root)
    (habsolute : path.root ≠ .relative) (hother : other.root = path.root) :
    ends.displayText path path = ends.displayText other other ↔
      path = other ∨ Path.Mirrors ends.base ends.root path other ∨ Path.Mirrors ends.base ends.root other path ∨
        Path.DifferInSlashes (ends.shown path path) (ends.shown other other) := by
  rw [← or_assoc, ← or_assoc, or_assoc (a := path = other), ← shown_eq_shown_iff hbase hroot habsolute hother]
  by_cases hshown : ends.shown path path = ends.shown other other
  · exact ⟨fun _ => .inl hshown, fun _ => by rw [displayText, displayText, hshown]⟩
  · exact ⟨fun h => .inr ⟨hshown, h⟩, fun h => (h.resolve_left hshown).2⟩

/-- The display text of a file, from the resolved forms of its path and of the frame. -/
theorem display_eq (hends : frame.ResolvesTo fs ends) (hpath : fs.resolve path = .ok resolved) :
    fs.display frame path = .ok (ends.displayText resolved path) := by
  have hfrom {directory above : Path} (habove : fs.resolve directory = .ok above) :
      fs.pathFrom? directory path = .ok (resolved.relativeTo? above) := by
    rw [FileSystem.pathFrom?, hpath, habove]
    rfl
  rw [FileSystem.display, hfrom hends.1]
  cases hbase : resolved.relativeTo? ends.base with
  | some shown => simp [displayText, Frame.shown, hbase, bind, Except.bind, pure, Except.pure]
  | none =>
    cases hroot : resolved.relativeTo? ends.root with
    | some shown => simp [displayText, Frame.shown, hbase, hfrom hends.2, hroot, bind, Except.bind, pure, Except.pure]
    | none => simp [displayText, Frame.shown, hbase, hfrom hends.2, hroot, bind, Except.bind, pure, Except.pure]

/-- A path is shown if neither it nor a directory of the frame leads into a loop of links. -/
theorem exists_display_eq_ok
    (h : ∀ place ∈ [path, frame.base, frame.root], ∀ failure, fs.resolve place = .error failure →
      failure = .nulCharacter) :
    ∃ text, fs.display frame path = .ok text := by
  have hfrom {directory : Path} (hdirectory : directory ∈ [path, frame.base, frame.root]) :
      ∃ shown?, fs.pathFrom? directory path = .ok shown? := by
    rw [FileSystem.pathFrom?]
    cases hpath : fs.resolve path with
    | error failure => exact ⟨none, by rw [h path List.mem_cons_self failure hpath]; rfl⟩
    | ok resolved =>
      cases habove : fs.resolve directory with
      | error failure => exact ⟨none, by rw [h directory hdirectory failure habove]; rfl⟩
      | ok above => exact ⟨resolved.relativeTo? above, rfl⟩
  obtain ⟨shown?, hbase⟩ := hfrom (List.mem_cons_of_mem _ List.mem_cons_self)
  obtain ⟨other?, hroot⟩ := hfrom (List.mem_cons_of_mem _ (List.mem_cons_of_mem _ List.mem_cons_self))
  rw [FileSystem.display, hbase]
  cases shown? with
  | some shown => exact ⟨_, rfl⟩
  | none =>
    rw [hroot]
    cases other? with
    | some shown => exact ⟨_, rfl⟩
    | none => exact ⟨_, rfl⟩

end Frame

/-- A report gives each file the display text that has been found for it. -/
theorem Report.ofIndex_eq_of_listed {fs : FileSystem} {frame : Frame} {index : Index} {name : Path → Text}
    {includeEmpty : Bool} (h : ∀ path ∈ (index.listed includeEmpty).map (·.1) ++ index.failures,
      fs.display frame path = .ok (name path)) :
    Report.ofIndex fs frame includeEmpty index = .ok (index.report includeEmpty name) := by
  have hfiles : (index.listed includeEmpty).mapM (fun entry => do return (← fs.display frame entry.1, entry.2)) =
      (.ok ((index.listed includeEmpty).map fun entry => (name entry.1, entry.2)) : Except AccessError _) := by
    apply mapM_of_forall
    intro entry hentry
    rw [h entry.1 (List.mem_append_left _ (List.mem_map_of_mem hentry))]
    rfl
  have hfailures : index.failures.mapM (fs.display frame) = .ok (index.failures.map name) :=
    mapM_of_forall fun path hpath => h path (List.mem_append_right _ hpath)
  rw [Report.ofIndex, hfiles, hfailures]
  rfl

/-- Where the paths of an index are displayed by a function, so is its report. -/
theorem Report.ofIndex_eq {fs : FileSystem} {frame : Frame} {index : Index} {name : Path → Text}
    (h : ∀ path ∈ index.paths ++ index.failures, fs.display frame path = .ok (name path)) (includeEmpty : Bool) :
    Report.ofIndex fs frame includeEmpty index = .ok (index.report includeEmpty name) := by
  have hlisted : ((index.listed includeEmpty).map (·.1)).Sublist index.paths := List.filter_sublist.map _
  exact ofIndex_eq_of_listed fun path hpath => h path ((hlisted.append_right _).subset hpath)

/-- Files with their display texts, as the directories of a resolved frame give them. -/
def Frame.members (frame : Frame) (files : List (Path × Metadata)) : List (Text × Metadata) :=
  files.map fun entry => (frame.displayText entry.1 entry.1, entry.2)

/-- Files at different resolved paths have different display texts unless one mirrors another or two differ in slashes
only. -/
theorem Frame.nodup_members_iff {ends : Frame} {files : List (Path × Metadata)}
    (hbase : ends.base.root = .absolute) (hroot : ends.root.root = .absolute)
    (habsolute : ∀ path ∈ files.map (·.1), path.root = .absolute) (hdifferent : (files.map (·.1)).Nodup) :
    ((ends.members files).map (·.1)).Nodup ↔
      ∀ path ∈ files.map (·.1), ∀ other ∈ files.map (·.1), ¬ Path.Mirrors ends.base ends.root path other ∧
        ¬ Path.DifferInSlashes (ends.shown path path) (ends.shown other other) := by
  have htexts : (ends.members files).map (·.1) =
      (files.map (·.1)).map fun path => ends.displayText path path := by
    simp [members]
  have hiff {path other : Path} (hpath : path ∈ files.map (·.1)) (hother : other ∈ files.map (·.1)) :=
    displayText_eq_iff path other ((habsolute path hpath).trans hbase.symm)
      ((habsolute path hpath).trans hroot.symm) (by rw [habsolute path hpath]; decide)
      ((habsolute other hother).trans (habsolute path hpath).symm)
  rw [htexts, List.nodup_map_iff_inj_on hdifferent]
  constructor
  · intro h path hpath other hother
    refine ⟨fun hmirrors => ?_, fun hslashes => ?_⟩
    · exact hmirrors.ne (h path hpath other hother ((hiff hpath hother).2 (.inr (.inl hmirrors))))
    · have heq := h path hpath other hother ((hiff hpath hother).2 (.inr (.inr (.inr hslashes))))
      exact hslashes.1 (by rw [heq])
  · intro h path hpath other hother htext
    rcases (hiff hpath hother).1 htext with heq | hmirrors | hmirrors | hslashes
    · exact heq
    · exact absurd hmirrors (h path hpath other hother).1
    · exact absurd hmirrors (h other hother path hpath).1
    · exact absurd hslashes (h path hpath other hother).2

/-- The files of a report on an index at resolved paths. Each display text stands once, with the metadata of the last
file that has it. The report has all files, each with its own metadata, if and only if none of those that are listed
mirrors another and no two of them differ in slashes only; and files without backslashes never do. -/
theorem report_files_complete_iff {fs : FileSystem} {frame ends : Frame} {index : Index}
    (hends : frame.ResolvesTo fs ends)
    (hresolved : ∀ path ∈ index.paths ++ index.failures, path.IsProper ∧ fs.resolve path = .ok path)
    (hdifferent : index.paths.Nodup) (includeEmpty : Bool) :
    (∀ path ∈ index.paths ++ index.failures, fs.display frame path = .ok (ends.displayText path path)) ∧
      ∃ report, Report.ofIndex fs frame includeEmpty index = .ok report ∧
        (report.files.map (·.1)).Nodup ∧
        (∀ text, report.files.lookup text = (ends.members (index.listed includeEmpty)).reverse.lookup text) ∧
        (report.files = ends.members (index.listed includeEmpty) ↔
          ∀ path ∈ (index.listed includeEmpty).map (·.1), ∀ other ∈ (index.listed includeEmpty).map (·.1),
            ¬ Path.Mirrors ends.base ends.root path other ∧
              ¬ Path.DifferInSlashes (ends.shown path path) (ends.shown other other)) ∧
        ∀ path ∈ index.paths, ∀ other ∈ index.paths,
          Path.DifferInSlashes (ends.shown path path) (ends.shown other other) →
            ∃ name ∈ path.names ++ other.names, '\\' ∈ name := by
  have hbase := FileSystem.root_of_resolve hends.1
  have hroot := FileSystem.root_of_resolve hends.2
  have habsolute {path : Path} (hpath : path ∈ index.paths) : path.root = .absolute :=
    FileSystem.root_of_resolve (hresolved path (List.mem_append_left _ hpath)).2
  have hlisted : ((index.listed includeEmpty).map (·.1)).Sublist index.paths := List.filter_sublist.map _
  have hdisplay (path : Path) (hpath : path ∈ index.paths ++ index.failures) :
      fs.display frame path = .ok (ends.displayText path path) :=
    Frame.display_eq hends (hresolved path hpath).2
  refine ⟨hdisplay, _, Report.ofIndex_eq hdisplay includeEmpty, ?_, ?_, ?_, ?_⟩
  · exact OrderedMap.nodup_keys_ofList _
  · exact fun text => OrderedMap.lookup_ofList _
  · apply OrderedMap.ofList_eq_self_iff.trans
    apply Frame.nodup_members_iff hbase hroot
    · exact fun path hpath => habsolute (hlisted.subset hpath)
    · exact hdifferent.sublist hlisted
  · intro path hpath other hother hslashes
    have hproper {path : Path} (hpath : path ∈ index.paths) : (ends.shown path path).IsProper := by
      intro name hname
      apply (hresolved path (List.mem_append_left _ hpath)).1
      exact Frame.mem_names_of_shown ((habsolute hpath).trans hbase.symm) ((habsolute hpath).trans hroot.symm) hname
    obtain ⟨name, hname, hmem⟩ := hslashes.exists_backslash (hproper hpath) (hproper hother)
    refine ⟨name, List.mem_append.2 ((List.mem_append.1 hname).imp (fun h => ?_) fun h => ?_), hmem⟩
    · exact Frame.mem_names_of_shown ((habsolute hpath).trans hbase.symm) ((habsolute hpath).trans hroot.symm) h
    · exact Frame.mem_names_of_shown ((habsolute hother).trans hbase.symm) ((habsolute hother).trans hroot.symm) h

/-- A directory with a file, a file of the same name beside the directory, and files with other names. -/
def twinFiles : FileSystem :=
  ⟨[([['r']], ⟨.directory, false⟩), ([['r'], ['a']], ⟨.directory, false⟩), ([['r'], ['a'], ['x']], ⟨.file [], false⟩),
    ([['r'], ['x']], ⟨.file [], false⟩), ([['r'], ['y']], ⟨.file [], false⟩), ([['z']], ⟨.file [], false⟩)], []⟩

/-- The directory as the base, and the one around it as the root of the search. -/
def twinFrame : Frame :=
  ⟨⟨.absolute, [['r'], ['a']]⟩, ⟨.absolute, [['r']]⟩⟩

theorem resolve_twinFiles {paths : List Path}
    (h : ∀ path ∈ paths, path.IsProper ∧ path.root = .absolute ∧ path.holdsNul = false ∧
      FileSystem.collapse [] path.names = path.names) :
    ∀ path ∈ paths, path.IsProper ∧ twinFiles.resolve path = .ok path := by
  have hlinks : twinFiles.HasNoLinks := by decide
  intro path hpath
  obtain ⟨hproper, hroot, hnul, hnames⟩ := h path hpath
  exact ⟨hproper, hlinks.resolve_eq_self hroot hnul hnames⟩

theorem resolvesTo_twinFrame : twinFrame.ResolvesTo twinFiles twinFrame := by
  have hdirectories : ∀ path ∈ [twinFrame.base, twinFrame.root], path.IsProper ∧ twinFiles.resolve path = .ok path :=
    resolve_twinFiles (by decide)
  exact ⟨(hdirectories _ List.mem_cons_self).2, (hdirectories _ (List.mem_cons_of_mem _ List.mem_cons_self)).2⟩

theorem ofIndex_twinFiles {index : Index}
    (h : ∀ path ∈ index.paths ++ index.failures, path.IsProper ∧ path.root = .absolute ∧ path.holdsNul = false ∧
      FileSystem.collapse [] path.names = path.names) (includeEmpty : Bool) :
    Report.ofIndex twinFiles twinFrame includeEmpty index =
      .ok (index.report includeEmpty fun path => twinFrame.displayText path path) :=
  Report.ofIndex_eq (fun path hpath => Frame.display_eq resolvesTo_twinFrame (resolve_twinFiles h path hpath).2)
    includeEmpty

/-- Files below the base, below the root of the search only, and below neither. -/
def apartIndex : Index :=
  ⟨[(⟨.absolute, [['r'], ['a'], ['x']]⟩, ⟨[['p']], []⟩), (⟨.absolute, [['r'], ['y']]⟩, ⟨[], []⟩),
    (⟨.absolute, [['z']]⟩, ⟨[['q']], []⟩)], [⟨.absolute, [['r'], ['x']]⟩]⟩

/-- The two files of the same name. -/
def twinIndex : Index :=
  ⟨[(⟨.absolute, [['r'], ['a'], ['x']]⟩, ⟨[['p']], []⟩), (⟨.absolute, [['r'], ['x']]⟩, ⟨[['q']], []⟩)], []⟩

theorem report_files_complete_apart :
    ∃ report, Report.ofIndex twinFiles twinFrame true apartIndex = .ok report ∧
      report.files = [(['x'], ⟨[['p']], []⟩), (['y'], ⟨[], []⟩), (['/', 'z'], ⟨[['q']], []⟩)] := by
  have hresolved : ∀ path ∈ apartIndex.paths ++ apartIndex.failures,
      path.IsProper ∧ twinFiles.resolve path = .ok path :=
    resolve_twinFiles (by decide)
  obtain ⟨-, report, hreport, -, -, hcomplete, -⟩ :=
    report_files_complete_iff resolvesTo_twinFrame hresolved (by decide) true
  exact ⟨report, hreport, hcomplete.2 (by decide)⟩

/-- Two files at different resolved paths, both listed, of which the report has only the second. -/
theorem report_files_twins :
    twinFrame.ResolvesTo twinFiles twinFrame ∧
      (∀ path ∈ twinIndex.paths ++ twinIndex.failures, path.IsProper ∧ twinFiles.resolve path = .ok path) ∧
      twinIndex.paths.Nodup ∧ (twinIndex.listed true).length = 2 ∧
      ∃ report, Report.ofIndex twinFiles twinFrame true twinIndex = .ok report ∧
        report.files = [(['x'], ⟨[['q']], []⟩)] := by
  have hresolved : ∀ path ∈ twinIndex.paths ++ twinIndex.failures,
      path.IsProper ∧ twinFiles.resolve path = .ok path :=
    resolve_twinFiles (by decide)
  have hdisplay (path : Path) (hpath : path ∈ twinIndex.paths ++ twinIndex.failures) :
      twinFiles.display twinFrame path = .ok (twinFrame.displayText path path) :=
    Frame.display_eq resolvesTo_twinFrame (hresolved path hpath).2
  exact ⟨resolvesTo_twinFrame, hresolved, by decide, rfl, _, Report.ofIndex_eq hdisplay true, rfl⟩

end DirectiveIndex
