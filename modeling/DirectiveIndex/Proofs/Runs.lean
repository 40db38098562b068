import Mathlib
import DirectiveIndex.Proofs.ArgumentTexts
import DirectiveIndex.Proofs.OpenTrees
import DirectiveIndex.Proofs.Outlines
import DirectiveIndex.Proofs.Writing

namespace DirectiveIndex

/-- Whether a path that has been given leads to nothing in its resolved form. -/
def FileSystem.IsMissing (fs : FileSystem) (given : Text) : Prop :=
  ∃ path, fs.resolve (Path.ofText given) = .ok path ∧ fs.doesExist path = .ok false

/-- Whether a path is the root of the search: the first directory among the targets, or else the current directory. -/
def FileSystem.IsSearchRoot (fs : FileSystem) (targets : List Path) (root : Path) : Prop :=
  (∃ before after, targets = before ++ root :: after ∧ fs.isDirectory root = .ok true ∧
      ∀ target ∈ before, fs.isDirectory target = .ok false) ∨
    (∀ target ∈ targets, fs.isDirectory target = .ok false) ∧
      fs.resolve (FileSystem.pathOf fs.current) = .ok root

namespace Settings

/-- The file to write to, if there is one; an empty text names none. -/
def file? (settings : Settings) : Option Path :=
  match settings.output.getD [] with
  | [] => none
  | given => some (Path.ofText given)

/-- Whether a path is the base of the display texts: the one that is given, resolved, or else the root of the search; an
empty text gives none. -/
def IsBase (settings : Settings) (fs : FileSystem) (root base : Path) : Prop :=
  match settings.relativeTo.getD [] with
  | [] => base = root
  | given => fs.resolve (Path.ofText given) = .ok base

/-- Whether a selection is what the settings ask for. -/
structure Selects (settings : Settings) (selection : Selection) : Prop where
  default_suffixes : settings.suffixes.getD [] = [] → selection.suffixes = [".sol".toList]
  /-- Suffixes that are given take the place of the default, each with a dot in front and in lower case. -/
  given_suffixes : ∀ given, settings.suffixes = some given → given ≠ [] →
    selection.suffixes = given.map fun suffix =>
      Text.lower (if suffix.head? = some '.' then suffix else '.' :: suffix)
  /-- Names that are given are left out besides those that are always left out. -/
  excluded : selection.excluded = settings.excluded.getD [] ++ Selection.defaultExcluded
  maxDepth : selection.maxDepth = settings.maxDepth

/-- Whether a text is what the exporter that the settings ask for makes of an index. Files without directives are left
out if they are to be hidden. -/
structure Exports (settings : Settings) (fs : FileSystem) (frame : Frame) (index : Index) (text : Text) : Prop where
  ascii : settings.format = .ascii → index.outline fs frame settings.style (!settings.hideEmpty) = .ok text
  json : settings.format = .json → ∃ report, Report.ofIndex fs frame (!settings.hideEmpty) index = .ok report ∧
    text = report.toJson.text (.spaces 2)
  yaml : settings.format = .yaml → ∃ report, Report.ofIndex fs frame (!settings.hideEmpty) index = .ok report ∧
    text = Yaml.write report

end Settings

/-- The text that the exporter asked for makes of the index of the resolved paths, with everything that goes into it. -/
structure Export (fs : FileSystem) (settings : Settings) where
  targets : List Path
  frame : Frame
  selection : Selection
  indexing : Indexing
  text : Text
  resolve_eq : settings.paths.mapM (fun given => fs.resolve (Path.ofText given)) = .ok targets
  isSearchRoot : fs.IsSearchRoot targets frame.root
  isBase : settings.IsBase fs frame.root frame.base
  selects : settings.Selects selection
  ofTargets_eq : Indexing.ofTargets fs selection targets = .ok indexing
  exports : settings.Exports fs frame indexing.index text

/-- Whether an outcome delivers a text: to its output, with a line feed, and nothing else changes; or to a file, in
UTF-8, with nothing in its output, a message about it, and nothing changed but the file. -/
structure Outcome.Delivers (outcome : Outcome) (fs : FileSystem) (settings : Settings) (text : Text) : Prop where
  toOutput : settings.file? = none → outcome.output = text ++ ['\n'] ∧ outcome.files = fs
  toFile : ∀ path, settings.file? = some path →
    outcome.output = [] ∧ fs.IsAfterWriting path (Utf8.encode text) outcome.files ∧
      ∃ said, outcome.messages = Text.lines (said ++ ["Output written to: ".toList ++ path.text])

/-- What the outcome of a run has to do with the file system and with the settings. -/
structure Outcome.Answers (outcome : Outcome) (fs : FileSystem) (settings : Settings) : Prop where
  code : outcome.code = 0 ∨ outcome.code = 1
  fails_iff : outcome.code = 1 ↔
    (∃ given ∈ settings.paths, fs.IsMissing given) ∨ ∃ path, settings.file? = some path ∧ ¬ fs.IsWritable path
  unchanged : outcome.code = 1 → outcome.output = [] ∧ outcome.files = fs
  /-- The first path that is missing is named as it has been given, and nothing else is said. -/
  names_missing : ∀ before given after, settings.paths = before ++ given :: after →
    (∀ other ∈ before, ¬ fs.IsMissing other) → fs.IsMissing given →
      outcome.messages = "Error: '".toList ++ given ++ "' does not exist\n".toList
  delivers : outcome.code = 0 → ∃ made : Export fs settings, outcome.Delivers fs settings made.text

namespace FileSystem

variable {fs : FileSystem} {paths : List Text} {given : Text} {targets : List Path}

/-- What is resolved and exists is not missing. -/
theorem not_isMissing {path : Path} (hresolve : fs.resolve (Path.ofText given) = .ok path)
    (hexists : fs.doesExist path = .ok true) : ¬ fs.IsMissing given := by
  rintro ⟨other, hother, hmissing⟩
  obtain rfl := Except.ok.inj (hresolve.symm.trans hother)
  cases hexists.symm.trans hmissing

/-- The first missing path is what the collection of targets answers with. -/
theorem targets_cons_of_isMissing (h : fs.IsMissing given) (rest : List Text) :
    fs.targets (given :: rest) = .ok (.error given) := by
  obtain ⟨path, hresolve, hmissing⟩ := h
  rw [targets, hresolve]
  refine bind_eq_ok_iff.2 ⟨path, rfl, ?_⟩
  rw [hmissing]
  rfl

/-- A target that exists is collected in front of the others. -/
theorem targets_cons_of_exists {path : Path} (hresolve : fs.resolve (Path.ofText given) = .ok path)
    (hexists : fs.doesExist path = .ok true) (rest : List Text) :
    fs.targets (given :: rest) = (fs.targets rest).map (·.map (path :: ·)) := by
  rw [targets, hresolve]
  cases fs.targets rest <;> simp [hexists, bind, Except.bind, pure, Except.pure, Except.map]

namespace IsOpen

variable (hopen : fs.IsOpen)
include hopen

/-- A path that is not missing resolves to one that leads to something and is resolved already. -/
theorem exists_target (hnul : '\x00' ∉ given) (h : ¬ fs.IsMissing given) :
    ∃ path, fs.resolve (Path.ofText given) = .ok path ∧ fs.doesExist path = .ok true ∧ fs.resolve path = .ok path := by
  obtain ⟨path, hresolve, hself⟩ := hopen.exists_resolve (Path.holdsNul_ofText hnul)
  obtain ⟨answer, hanswer⟩ := hopen.exists_doesExist path
  cases answer with
  | true => exact ⟨path, hresolve, hanswer, hself⟩
  | false => exact absurd ⟨path, hresolve, hanswer⟩ h

/-- The first path that is missing ends the search for targets. -/
theorem targets_of_isMissing {before : List Text} (hnul : ∀ other ∈ before, '\x00' ∉ other)
    (hbefore : ∀ other ∈ before, ¬ fs.IsMissing other) (h : fs.IsMissing given) (after : List Text) :
    fs.targets (before ++ given :: after) = .ok (.error given) := by
  induction before with
  | nil => exact targets_cons_of_isMissing h after
  | cons other before ih =>
    obtain ⟨hnulOther, hnul⟩ := List.forall_mem_cons.1 hnul
    obtain ⟨hother, hbefore⟩ := List.forall_mem_cons.1 hbefore
    obtain ⟨path, hresolve, hexists, -⟩ := hopen.exists_target hnulOther hother
    rw [List.cons_append, targets_cons_of_exists hresolve hexists, ih hnul hbefore]
    rfl

/-- Paths of which none is missing are all resolved. -/
theorem exists_targets (hnul : ∀ given ∈ paths, '\x00' ∉ given) (h : ∀ given ∈ paths, ¬ fs.IsMissing given) :
    ∃ targets, fs.targets paths = .ok (.ok targets) ∧
      paths.mapM (fun given => fs.resolve (Path.ofText given)) = .ok targets ∧
      ∀ target ∈ targets, fs.resolve target = .ok target := by
  induction paths with
  | nil => exact ⟨[], rfl, rfl, nofun⟩
  | cons given rest ih =>
    obtain ⟨hnulGiven, hnul⟩ := List.forall_mem_cons.1 hnul
    obtain ⟨hgiven, hrest⟩ := List.forall_mem_cons.1 h
    obtain ⟨path, hresolve, hexists, hself⟩ := hopen.exists_target hnulGiven hgiven
    obtain ⟨targets, htargets, hpaths, hresolved⟩ := ih hnul hrest
    refine ⟨path :: targets, ?_, ?_, List.forall_mem_cons.2 ⟨hself, hresolved⟩⟩
    · rw [targets_cons_of_exists hresolve hexists, htargets]
      rfl
    · rw [mapM_eq_ok_iff, List.map_cons, List.map_cons, hresolve, mapM_eq_ok_iff.1 hpaths]

/-- Whether there is a directory among the targets can be told, and which is the first. -/
theorem exists_firstDirectory (targets : List Path) :
    (∃ root, fs.firstDirectory targets = .ok (some root) ∧
        ∃ before after, targets = before ++ root :: after ∧ fs.isDirectory root = .ok true ∧
          ∀ target ∈ before, fs.isDirectory target = .ok false) ∨
      fs.firstDirectory targets = .ok none ∧ ∀ target ∈ targets, fs.isDirectory target = .ok false := by
  induction targets with
  | nil => exact .inr ⟨rfl, nofun⟩
  | cons target targets ih =>
    obtain ⟨answer, hanswer⟩ := hopen.exists_isDirectory target
    cases answer with
    | true =>
      refine .inl ⟨target, ?_, [], targets, rfl, hanswer, nofun⟩
      rw [firstDirectory, hanswer]
      rfl
    | false =>
      have hstep : fs.firstDirectory (target :: targets) = fs.firstDirectory targets := by
        rw [firstDirectory, hanswer]
        rfl
      rw [hstep]
      refine ih.imp ?_ fun ⟨hnone, hall⟩ => ⟨hnone, List.forall_mem_cons.2 ⟨hanswer, hall⟩⟩
      rintro ⟨root, hroot, before, after, rfl, hdirectory, hbefore⟩
      exact ⟨root, hroot, target :: before, after, rfl, hdirectory, List.forall_mem_cons.2 ⟨hanswer, hbefore⟩⟩

/-- A search has a root: the first directory among its targets, or else the current directory. -/
theorem exists_searchRoot (targets : List Path) :
    ∃ root, fs.IsSearchRoot targets root ∧
      (fs.firstDirectory targets = .ok (some root) ∨
        fs.firstDirectory targets = .ok none ∧ fs.resolve (pathOf fs.current) = .ok root) := by
  rcases hopen.exists_firstDirectory targets with ⟨root, hfirst, hroot⟩ | ⟨hfirst, hnone⟩
  · exact ⟨root, .inl hroot, .inl hfirst⟩
  · obtain ⟨root, hresolve⟩ := hopen.exists_resolve_current
    exact ⟨root, .inr ⟨hnone, hresolve⟩, .inr ⟨hfirst, hresolve⟩⟩

/-- The frame of a run. -/
theorem exists_frame {settings : Settings} (hnul : ∀ given ∈ settings.relativeTo, '\x00' ∉ given)
    (targets : List Path) :
    ∃ frame, fs.frame settings targets = .ok frame ∧ fs.IsSearchRoot targets frame.root ∧
      settings.IsBase fs frame.root frame.base := by
  obtain ⟨root, hsearch, hroot⟩ := hopen.exists_searchRoot targets
  have hframe {base : Path} (hbase : (match settings.relativeTo.getD [] with
      | [] => pure ⟨root, root⟩
      | given => do return ⟨← fs.resolve (Path.ofText given), root⟩ : Except AccessError Frame) = .ok ⟨base, root⟩) :
      fs.frame settings targets = .ok ⟨base, root⟩ := by
    rcases hroot with hfirst | ⟨hfirst, hcurrent⟩
    · rw [frame, hfirst]
      exact hbase
    · rw [frame, hfirst]
      exact bind_eq_ok_iff.2 ⟨none, rfl, bind_eq_ok_iff.2 ⟨root, hcurrent, hbase⟩⟩
  cases hgiven : settings.relativeTo.getD [] with
  | nil =>
    refine ⟨⟨root, root⟩, hframe ?_, hsearch, ?_⟩
    · rw [hgiven]
      rfl
    · rw [Settings.IsBase, hgiven]
  | cons c rest =>
    have hmem : c :: rest ∈ settings.relativeTo := by
      cases hrelative : settings.relativeTo with
      | none => rw [hrelative] at hgiven; cases hgiven
      | some given => rw [hrelative] at hgiven; exact congrArg some hgiven
    obtain ⟨base, hresolve, -⟩ := hopen.exists_resolve (Path.holdsNul_ofText (hnul _ hmem))
    refine ⟨⟨base, root⟩, hframe ?_, hsearch, ?_⟩
    · rw [hgiven]
      exact bind_eq_ok_iff.2 ⟨base, hresolve, rfl⟩
    · rw [Settings.IsBase, hgiven]
      exact hresolve

end IsOpen

end FileSystem

section Outcomes

variable {fs : FileSystem} {settings : Settings} {text : Text}

/-- The selection that settings are turned into is the one that they describe. -/
theorem Settings.selects_selection (settings : Settings) : settings.Selects settings.selection where
  default_suffixes h := by
    rw [selection, h]
    rfl
  given_suffixes given hgiven hne := by
    rw [selection, hgiven, Option.getD_some]
    split
    · contradiction
    · rfl
  excluded := rfl
  maxDepth := rfl

/-- What is rendered is the text of the chosen format. -/
theorem Settings.exports_of_render {frame : Frame} {index : Index} (h : index.render fs frame settings = .ok text) :
    settings.Exports fs frame index text := by
  have hreport {write : Report → Text}
      (h : (do return write (← Report.ofIndex fs frame (!settings.hideEmpty) index) : Except AccessError Text) =
        .ok text) :
      ∃ report, Report.ofIndex fs frame (!settings.hideEmpty) index = .ok report ∧ text = write report := by
    obtain ⟨report, hofIndex, hwrite⟩ := bind_eq_ok_iff.1 h
    exact ⟨report, hofIndex, (Except.ok.inj hwrite).symm⟩
  unfold Index.render at h
  constructor <;> intro hformat <;> rw [hformat] at h
  · exact h
  · exact hreport h
  · exact hreport h

/-- A file that is asked for is named by an output that is given and is not empty. -/
theorem Settings.exists_output_of_file? {path : Path} (h : settings.file? = some path) :
    ∃ given, settings.output = some given ∧ given ≠ [] ∧ path = Path.ofText given := by
  unfold file? at h
  cases houtput : settings.output with
  | none => rw [houtput] at h; cases h
  | some given =>
    rw [houtput, Option.getD_some] at h
    split at h
    · cases h
    · rename_i hne
      exact ⟨given, rfl, hne, (Option.some.inj h).symm⟩

/-- Without a file, the text goes to the output with a line feed behind it. -/
theorem Settings.deliver_of_none (hfile : settings.file? = none) (said : List Text) :
    settings.deliver fs said text = .ok ⟨0, text ++ ['\n'], Text.lines said, fs⟩ := by
  unfold file? at hfile
  split at hfile
  · rename_i hnone
    rw [deliver, hnone]
  · cases hfile

/-- With a file that can be written, the text goes there and the output stays empty. -/
theorem Settings.deliver_of_write {path : Path} {files : FileSystem} (hfile : settings.file? = some path)
    (hwrite : fs.write path (Utf8.encode text) = .ok files) (said : List Text) :
    settings.deliver fs said text =
      .ok ⟨0, [], Text.lines (said ++ ["Output written to: ".toList ++ path.text]), files⟩ := by
  obtain ⟨given, houtput, hne, rfl⟩ := exists_output_of_file? hfile
  rw [deliver, houtput, Option.getD_some]
  split
  · exact absurd rfl hne
  · simp only [hwrite]

/-- With a file that cannot be written, nothing is changed. -/
theorem Settings.deliver_of_refused {path : Path} {cause : Cause} (hfile : settings.file? = some path)
    (hwrite : fs.write path (Utf8.encode text) = .error (.refused cause path)) (said : List Text) :
    ∃ messages, settings.deliver fs said text = .ok ⟨1, [], messages, fs⟩ := by
  obtain ⟨given, houtput, hne, rfl⟩ := exists_output_of_file? hfile
  rw [deliver, houtput, Option.getD_some]
  split
  · exact absurd rfl hne
  · simp only [hwrite]
    exact ⟨_, rfl⟩

/-- Whether no text of some settings that names a file or a directory holds a NUL character. -/
def Settings.IsFreeOfNul (settings : Settings) : Prop :=
  settings.Admits fun text => '\x00' ∉ text

/-- Arguments without NUL give settings without NUL. -/
theorem Settings.isFreeOfNul_ofArguments {arguments : List Text} (hnul : ∀ argument ∈ arguments, '\x00' ∉ argument)
    (h : Settings.ofArguments arguments = .ok settings) : settings.IsFreeOfNul :=
  admits_ofArguments (fun _ _ hend htext hmem => htext (hend.mem hmem)) (by decide) hnul h

/-- Settings without NUL name a file without one. -/
theorem Settings.holdsNul_of_file? (hnul : settings.IsFreeOfNul) {path : Path} (h : settings.file? = some path) :
    path.holdsNul = false := by
  obtain ⟨given, houtput, -, rfl⟩ := exists_output_of_file? h
  exact Path.holdsNul_ofText (hnul.output given houtput)

/-- If no path is missing, nothing but the output can fail. -/
theorem Outcome.answers_of_not_isMissing {outcome : Outcome}
    (hmissing : ¬ ∃ given ∈ settings.paths, fs.IsMissing given) (hcode : outcome.code = 0 ∨ outcome.code = 1)
    (hfails : outcome.code = 1 ↔ ∃ path, settings.file? = some path ∧ ¬ fs.IsWritable path)
    (hunchanged : outcome.code = 1 → outcome.output = [] ∧ outcome.files = fs)
    (hdelivers : outcome.code = 0 → ∃ made : Export fs settings, outcome.Delivers fs settings made.text) :
    outcome.Answers fs settings where
  code := hcode
  fails_iff := hfails.trans (or_iff_right hmissing).symm
  unchanged := hunchanged
  names_missing _ given _ hpaths _ h :=
    absurd ⟨given, hpaths ▸ List.mem_append_right _ List.mem_cons_self, h⟩ hmissing
  delivers := hdelivers

section Open

variable (hopen : fs.IsOpen) (hnul : settings.IsFreeOfNul)
include hopen hnul

/-- A missing path ends the run before anything is read or written. -/
theorem Settings.execute_of_isMissing {before after : List Text} {given : Text}
    (hpaths : settings.paths = before ++ given :: after) (hbefore : ∀ other ∈ before, ¬ fs.IsMissing other)
    (h : fs.IsMissing given) :
    settings.execute fs = .ok ⟨1, [], "Error: '".toList ++ given ++ "' does not exist\n".toList, fs⟩ := by
  have htargets : fs.targets settings.paths = .ok (.error given) := by
    rw [hpaths]
    refine hopen.targets_of_isMissing (fun other hother => hnul.paths other ?_) hbefore h after
    rw [hpaths]
    exact List.mem_append_left _ hother
  rw [execute, htargets]
  simp [Text.lines, bind, Except.bind, pure, Except.pure]

/-- A path that is missing is a failure, whatever else is asked for. -/
theorem Settings.answers_of_isMissing (h : ∃ given ∈ settings.paths, fs.IsMissing given) :
    ∃ outcome, settings.execute fs = .ok outcome ∧ outcome.Answers fs settings := by
  classical
  have hfound : (settings.paths.find? fun given => decide (fs.IsMissing given)).isSome = true := by
    obtain ⟨other, hother, hmissing⟩ := h
    exact List.find?_isSome.2 ⟨other, hother, decide_eq_true hmissing⟩
  obtain ⟨given, hfirst⟩ := Option.isSome_iff_exists.1 hfound
  obtain ⟨hgiven, before, after, hpaths, hbefore⟩ := List.find?_eq_some_iff_append.1 hfirst
  have hexecute := execute_of_isMissing hopen hnul hpaths (fun other hother => by simpa using hbefore other hother)
    (of_decide_eq_true hgiven)
  refine ⟨_, hexecute, .inr rfl, ⟨fun _ => .inl h, fun _ => rfl⟩, fun _ => ⟨rfl, rfl⟩, ?_, nofun⟩
  intro before' given' after' hpaths' hbefore' h'
  have hagain := execute_of_isMissing hopen hnul hpaths' hbefore' h'
  exact congrArg Outcome.messages (Except.ok.inj (hexecute.symm.trans hagain))

/-- If no path is missing, everything goes well up to the delivery of the text. -/
theorem Settings.exists_export (h : ∀ given ∈ settings.paths, ¬ fs.IsMissing given) :
    ∃ (made : Export fs settings) (said : List Text), settings.execute fs = settings.deliver fs said made.text := by
  obtain ⟨targets, htargets, hpaths, hresolved⟩ := hopen.exists_targets hnul.paths h
  obtain ⟨frame, hframe, hroot, hbase⟩ := hopen.exists_frame hnul.relativeTo targets
  obtain ⟨indexing, hindexing⟩ := hopen.exists_ofTargets settings.selection hresolved
  obtain ⟨text, htext⟩ := hopen.links.exists_render frame settings indexing.index
  let notices := indexing.notices ++ [.finished indexing.index.size]
  refine ⟨⟨targets, frame, settings.selection, indexing, text, hpaths, hroot, hbase, settings.selects_selection,
    hindexing, Settings.exports_of_render htext⟩,
    (notices.filter settings.shows).map Notice.line, ?_⟩
  rw [execute, htargets]
  simp only [bind, Except.bind, hframe, hindexing, htext]
  rfl

/-- Every run ends with an answer. -/
theorem Settings.execute_answers : ∃ outcome, settings.execute fs = .ok outcome ∧ outcome.Answers fs settings := by
  by_cases hmissing : ∃ given ∈ settings.paths, fs.IsMissing given
  · exact answers_of_isMissing hopen hnul hmissing
  obtain ⟨made, said, hexecute⟩ := exists_export hopen hnul fun given hgiven h => hmissing ⟨given, hgiven, h⟩
  cases hfile : settings.file? with
  | none =>
    refine ⟨_, hexecute.trans (deliver_of_none hfile said), ?_⟩
    refine Outcome.answers_of_not_isMissing hmissing (.inl rfl) ⟨nofun, ?_⟩ nofun fun _ => ⟨made, ?_, ?_⟩
    · exact fun ⟨path, hpath, _⟩ => nomatch hfile.symm.trans hpath
    · exact fun _ => ⟨rfl, rfl⟩
    · exact fun path hpath => nomatch hfile.symm.trans hpath
  | some path =>
    have hpathNul := holdsNul_of_file? hnul hfile
    by_cases hwritable : fs.IsWritable path
    · obtain ⟨files, hwrite, hafter⟩ := hopen.links.exists_write hpathNul hwritable (Utf8.encode made.text)
      refine ⟨_, hexecute.trans (deliver_of_write hfile hwrite said), ?_⟩
      refine Outcome.answers_of_not_isMissing hmissing (.inl rfl) ⟨nofun, ?_⟩ nofun fun _ => ⟨made, ?_, ?_⟩
      · rintro ⟨other, hother, hnot⟩
        exact absurd (Option.some.inj (hfile.symm.trans hother) ▸ hwritable) hnot
      · exact fun hnofile => nomatch hfile.symm.trans hnofile
      · intro other hother
        obtain rfl := Option.some.inj (hfile.symm.trans hother)
        exact ⟨rfl, hafter, said, rfl⟩
    · obtain ⟨cause, hwrite⟩ := FileSystem.write_of_not_isWritable hpathNul hwritable (Utf8.encode made.text)
      obtain ⟨messages, hdeliver⟩ := deliver_of_refused hfile hwrite said
      refine ⟨_, hexecute.trans hdeliver, ?_⟩
      refine Outcome.answers_of_not_isMissing hmissing (.inr rfl) ?_ (fun _ => ⟨rfl, rfl⟩) nofun
      exact ⟨fun _ => ⟨path, hfile, hwritable⟩, fun _ => rfl⟩

end Open

end Outcomes

/-- A current directory with a source and a closed file. -/
def sourceBesideClosed : FileSystem :=
  ⟨[([['d']], ⟨.directory, false⟩), ([['d'], "a.sol".toList], ⟨.file (Utf8.encode "import 'p';".toList), false⟩),
    ([['d'], "b.sol".toList], ⟨.file [], true⟩)], [['d']]⟩

/-- The source and the closed file as an index has them. -/
def indexBesideClosed : Index :=
  ⟨[(⟨.absolute, [['d'], "a.sol".toList]⟩, ⟨[['p']], []⟩)], [⟨.absolute, [['d'], "b.sol".toList]⟩]⟩

/-- The settings of a run that writes over the source. -/
def overwriting : Settings :=
  { output := some "a.sol".toList }

theorem resolve_sourceBesideClosed (path : Path) (h : path.root = .absolute ∧ path.holdsNul = false ∧
    FileSystem.collapse [] path.names = path.names) : sourceBesideClosed.resolve path = .ok path := by
  have hlinks : sourceBesideClosed.HasNoLinks := by decide
  exact hlinks.resolve_eq_self h.1 h.2.1 h.2.2

theorem ofTargets_sourceBesideClosed :
    Indexing.ofTargets sourceBesideClosed ⟨[".sol".toList], Selection.defaultExcluded, none⟩ [⟨.absolute, [['d']]⟩] =
      .ok (.ofFiles sourceBesideClosed
        [⟨.absolute, [['d'], "a.sol".toList]⟩, ⟨.absolute, [['d'], "b.sol".toList]⟩]) := by
  have hdirectory : sourceBesideClosed.isDirectory ⟨.absolute, [['d']]⟩ = .ok true := by cbv
  have hsources : sourceBesideClosed.sources ⟨[".sol".toList], Selection.defaultExcluded, none⟩ ⟨.absolute, [['d']]⟩ =
      .ok [⟨.absolute, [['d'], "a.sol".toList]⟩, ⟨.absolute, [['d'], "b.sol".toList]⟩] := by
    rw [FileSystem.sources_eq (resolve_sourceBesideClosed _ (by decide))]
    cbv
  rw [Indexing.ofTargets_eq, List.mapM_cons, FileSystem.filesOf_eq hdirectory, if_pos rfl, hsources]
  rfl

theorem index_ofFiles_sourceBesideClosed :
    (Indexing.ofFiles sourceBesideClosed
      [⟨.absolute, [['d'], "a.sol".toList]⟩, ⟨.absolute, [['d'], "b.sol".toList]⟩]).index = indexBesideClosed := by
  have hsource : sourceBesideClosed.readSource ⟨.absolute, [['d'], "a.sol".toList]⟩ = .ok "import 'p';".toList := by cbv
  have hclosed : sourceBesideClosed.readSource ⟨.absolute, [['d'], "b.sol".toList]⟩ =
      .error (.access (.refused .denied ⟨.absolute, [['d'], "b.sol".toList]⟩)) := by cbv
  have hextract : extract "import 'p';".toList = ⟨[['p']], []⟩ := by
    rw [extract, scan, Scanner.directives_eq]
    decide
  simp only [Indexing.ofFiles, List.foldl, Indexing.addFile, hsource, hclosed, hextract]
  rfl

/-- The current directory as the base and as the root of the search. -/
def frameBesideClosed : Frame :=
  ⟨⟨.absolute, [['d']]⟩, ⟨.absolute, [['d']]⟩⟩

theorem outline_indexBesideClosed :
    indexBesideClosed.outline sourceBesideClosed frameBesideClosed .tree true =
      .ok "a.sol\n└── import p\n\nb.sol [UNREADABLE]".toList := by
  have hends : frameBesideClosed.ResolvesTo sourceBesideClosed frameBesideClosed :=
    ⟨resolve_sourceBesideClosed _ (by decide), resolve_sourceBesideClosed _ (by decide)⟩
  have hpaths : ∀ path ∈ (indexBesideClosed.listed true).map (·.1) ++ indexBesideClosed.failures,
      path.root = .absolute ∧ path.holdsNul = false ∧ FileSystem.collapse [] path.names = path.names := by decide
  refine (Index.outline_eq .tree fun path hpath =>
    Frame.display_eq hends (resolve_sourceBesideClosed path (hpaths path hpath))).trans ?_
  cbv

/-- An export for these settings has this text, since all that goes into it is determined. -/
theorem text_of_overwriting (made : Export sourceBesideClosed overwriting) :
    made.text = "a.sol\n└── import p\n\nb.sol [UNREADABLE]".toList := by
  obtain ⟨targets, ⟨base, root⟩, ⟨suffixes, excluded, maxDepth⟩, ⟨index, notices⟩, text, htargets, hsearch, hbase,
    hselects, hindexing, hexports⟩ := made
  have hresolve : sourceBesideClosed.resolve (.ofText Path.selfName) = .ok ⟨.absolute, [['d']]⟩ := by cbv
  have hpaths : overwriting.paths.mapM (fun given => sourceBesideClosed.resolve (Path.ofText given)) =
      .ok [⟨.absolute, [['d']]⟩] := by
    rw [overwriting, List.mapM_cons, hresolve]
    rfl
  obtain rfl : [⟨.absolute, [['d']]⟩] = targets := Except.ok.inj (hpaths.symm.trans htargets)
  obtain rfl : base = root := hbase
  obtain rfl : base = ⟨.absolute, [['d']]⟩ := by
    rcases hsearch with ⟨before, after, htargets, -⟩ | ⟨hnone, -⟩
    · cases before with
      | nil => exact (List.cons.inj htargets).1.symm
      | cons target before => cases before <;> cases (List.cons.inj htargets).2
    · have hdirectory : sourceBesideClosed.isDirectory ⟨.absolute, [['d']]⟩ = .ok true := by cbv
      cases hdirectory.symm.trans (hnone _ List.mem_cons_self)
  obtain rfl : suffixes = [".sol".toList] := hselects.default_suffixes rfl
  obtain rfl : excluded = Selection.defaultExcluded := hselects.excluded
  obtain rfl : maxDepth = none := hselects.maxDepth
  obtain rfl : indexBesideClosed = index := by
    rw [← index_ofFiles_sourceBesideClosed]
    exact congrArg Indexing.index (Except.ok.inj (ofTargets_sourceBesideClosed.symm.trans hindexing))
  exact Except.ok.inj ((hexports.ascii rfl).symm.trans outline_indexBesideClosed)

end DirectiveIndex
