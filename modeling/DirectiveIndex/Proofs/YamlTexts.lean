import DirectiveIndex.Proofs.DisplayTexts
import DirectiveIndex.Proofs.YamlScalars
import DirectiveIndex.Yaml.Document

namespace DirectiveIndex.Yaml

/-- What comes before an item of a list at an indentation. -/
def dash (indent : Nat) : Text :=
  List.replicate indent ' ' ++ ['-', ' ']

/-- Reads the items of a list at an indentation. -/
def readItems (indent : Nat) (text : Text) : Option (List Text × Text) :=
  match text.dropPrefix? (dash indent) with
  | none => some ([], text)
  | some rest => do
    let (item, rest) ← readScalar (indent + 2) rest
    let rest ← rest.dropPrefix? ['\n']
    if rest.length < text.length then
      let (items, rest) ← readItems indent rest
      return (item :: items, rest)
    else none
termination_by text.length

/-- Reads a list behind its name. -/
def readList (name : Text) (indent : Nat) (text : Text) : Option (List Text × Text) := do
  let rest ← text.dropPrefix? (name ++ [':'])
  match rest.dropPrefix? " []\n".toList with
  | some rest => return ([], rest)
  | none => readItems indent (← rest.dropPrefix? ['\n'])

/-- Reads a display text and what parts it from the metadata. -/
def readKey (text : Text) : Option (Text × Text) :=
  match text.dropPrefix? "? ".toList with
  | some rest => do
    let (key, rest) ← readScalar 4 rest
    return (key, ← rest.dropPrefix? "\n  : ".toList)
  | none => do
    let (key, rest) ← readScalar 4 text
    return (key, ← rest.dropPrefix? ":\n    ".toList)

/-- Reads the metadata of a file. -/
def readMetadata (text : Text) : Option (Metadata × Text) := do
  let (imports, rest) ← readList "imports".toList 4 text
  let rest ← rest.dropPrefix? "    ".toList
  let (solidity, rest) ← readList "solidity".toList 4 rest
  return (⟨imports, solidity⟩, rest)

/-- Reads the files of a report, each with its metadata. -/
def readEntries (text : Text) : Option (List (Text × Metadata) × Text) :=
  match text.dropPrefix? "  ".toList with
  | none => some ([], text)
  | some rest => do
    let (key, rest) ← readKey rest
    let (metadata, rest) ← readMetadata rest
    if rest.length < text.length then
      let (entries, rest) ← readEntries rest
      return ((key, metadata) :: entries, rest)
    else none
termination_by text.length

/-- Reads a report. -/
def read (text : Text) : Option Report := do
  let (files, rest) ←
    match text.dropPrefix? "files: \x7b\x7d\n".toList with
    | some rest => some ([], rest)
    | none => readEntries (← text.dropPrefix? "files:\n".toList)
  let (failures, rest) ← readList "failures".toList 0 rest
  if rest = [] then some ⟨files, failures⟩ else none

/-- An expected text is dropped. -/
theorem dropPrefix?_append (expected rest : Text) : (expected ++ rest).dropPrefix? expected = some rest :=
  List.dropPrefix?_append_of_beq rest BEq.rfl

theorem dropPrefix?_lineFeed (rest : Text) : ('\n' :: rest).dropPrefix? ['\n'] = some rest :=
  dropPrefix?_append ['\n'] rest

/-- A text that does not begin as expected is left. -/
theorem dropPrefix?_eq_none {expected text : Text} (h : expected.isPrefixOf text = false) :
    text.dropPrefix? expected = none := by
  refine Option.eq_none_iff_forall_ne_some.2 fun rest hrest => ?_
  obtain ⟨found, rfl, hfound⟩ := List.dropPrefix?_eq_some_iff.1 hrest
  rw [beq_iff_eq.1 hfound] at h
  exact Bool.eq_false_iff.1 h (List.isPrefixOf_iff_prefix.2 (List.prefix_append _ _))

variable {indent : Nat} {rest : Text}

/-- A text that does not begin with some spaces does not begin with more. -/
theorem isPrefixOf_spaces_of_le {more : Nat} (hle : indent ≤ more)
    (h : (List.replicate indent ' ').isPrefixOf rest = false) : (List.replicate more ' ').isPrefixOf rest = false := by
  refine Bool.eq_false_iff.2 fun hmore => Bool.eq_false_iff.1 h ?_
  rw [List.isPrefixOf_iff_prefix] at hmore ⊢
  refine List.IsPrefix.trans ?_ hmore
  obtain ⟨k, rfl⟩ := Nat.exists_eq_add_of_le hle
  rw [List.replicate_add]
  exact List.prefix_append _ _

/-- A dash is indented less than what it introduces. -/
theorem isPrefixOf_spaces_dash (indent : Nat) (rest : Text) :
    (List.replicate (indent + 2) ' ').isPrefixOf (dash indent ++ rest) = false := by
  induction indent with
  | zero => rfl
  | succ indent ih => exact ih

/-- A text that is indented less than a dash does not begin with one. -/
theorem dropPrefix?_dash (h : (List.replicate indent ' ').isPrefixOf rest = false) :
    rest.dropPrefix? (dash indent) = none := by
  refine dropPrefix?_eq_none (Bool.eq_false_iff.2 fun hdash => Bool.eq_false_iff.1 h ?_)
  rw [List.isPrefixOf_iff_prefix] at hdash ⊢
  exact (List.prefix_append _ _).trans hdash

/-- The items of a list as they are written. -/
def writeItems (indent : Nat) (items : List Text) : Text :=
  items.flatMap fun item => dash indent ++ writeScalar ⟨indent + 2, indent + 2, true⟩ item ++ ['\n']

/-- The items of a list are read back, up to a text that neither goes on with the last item nor is another one. -/
theorem readItems_writeItems (hwidth : indent + 2 < Margin.width) (items : List Text)
    (hindent : (List.replicate (indent + 2) ' ').isPrefixOf rest = false)
    (hdash : rest.dropPrefix? (dash indent) = none) :
    readItems indent (writeItems indent items ++ rest) = some (items, rest) := by
  induction items with
  | nil =>
    rw [readItems]
    simp only [writeItems, List.flatMap_nil, List.nil_append, hdash]
  | cons item items ih =>
    have hnext : (List.replicate (indent + 2) ' ').isPrefixOf (writeItems indent items ++ rest) = false := by
      cases items with
      | nil => exact hindent
      | cons next items =>
        rw [writeItems, List.flatMap_cons, List.append_assoc, List.append_assoc, List.append_assoc]
        exact isPrefixOf_spaces_dash indent _
    have hscalar : readScalar (indent + 2) (writeScalar ⟨indent + 2, indent + 2, true⟩ item ++
        '\n' :: (writeItems indent items ++ rest)) = some (item, '\n' :: (writeItems indent items ++ rest)) :=
      readScalar_writeScalar _ item (Nat.succ_pos _) hwidth (.inr ⟨_, rfl, hnext⟩)
    have htext : writeItems indent (item :: items) ++ rest = dash indent ++
        (writeScalar ⟨indent + 2, indent + 2, true⟩ item ++ '\n' :: (writeItems indent items ++ rest)) := by
      simp [writeItems]
    have hshorter : (writeItems indent items ++ rest).length < (writeItems indent (item :: items) ++ rest).length := by
      rw [htext]
      simp only [List.length_append, List.length_cons]
      omega
    rw [readItems, htext, dropPrefix?_append, ← htext]
    simp only [hscalar, dropPrefix?_lineFeed, if_pos hshorter, ih, Option.bind_eq_bind, Option.bind_some]
    rfl

/-- A list is read back as it was, in front of anything that goes on with neither its indent nor its
dash. -/
theorem readList_writeList (name : Text) (hwidth : indent + 2 < Margin.width) (items : List Text)
    (hindent : (List.replicate (indent + 2) ' ').isPrefixOf rest = false)
    (hdash : rest.dropPrefix? (dash indent) = none) :
    readList name indent (writeList name indent items ++ rest) = some (items, rest) := by
  rw [writeList, readList]
  split
  · rename_i hnil
    subst hnil
    have htext : name ++ ": []\n".toList ++ rest = (name ++ [':']) ++ (" []\n".toList ++ rest) := by simp
    rw [htext, dropPrefix?_append]
    simp only [dropPrefix?_append, Option.bind_eq_bind, Option.bind_some]
    rfl
  · have htext : name ++ ":\n".toList ++ writeItems indent items ++ rest =
        (name ++ [':']) ++ '\n' :: (writeItems indent items ++ rest) := by simp
    have hitems : ('\n' :: (writeItems indent items ++ rest)).dropPrefix? " []\n".toList = none := rfl
    have hread := readItems_writeItems hwidth items hindent hdash
    change (name ++ ":\n".toList ++ writeItems indent items ++ rest).dropPrefix? (name ++ [':']) >>= _ = _
    rw [htext, dropPrefix?_append]
    simp only [hitems, dropPrefix?_lineFeed, hread, Option.bind_eq_bind, Option.bind_some]

/-- What is written before the metadata of a file, without the first two spaces. -/
def writeKey (key : Text) : Text :=
  if isSimpleKey key then writeScalar ⟨2, 4, false⟩ key ++ ":\n    ".toList
  else "? ".toList ++ writeScalar ⟨4, 4, true⟩ key ++ "\n  : ".toList

/-- A display text is read back, before a colon or behind a question mark. -/
theorem readKey_writeKey (key rest : Text) : readKey (writeKey key ++ rest) = some (key, rest) := by
  rw [writeKey]
  split
  · have hmark : (writeScalar ⟨2, 4, false⟩ key ++ (":\n    ".toList ++ rest)).dropPrefix? "? ".toList = none := by
      obtain ⟨c, others, htext, -, hc⟩ := exists_first_of_writeScalar ⟨2, 4, false⟩ key (":\n    ".toList ++ rest)
      refine dropPrefix?_eq_none (Bool.eq_false_iff.2 fun hprefix => ?_)
      obtain ⟨more, hmore⟩ := List.isPrefixOf_iff_prefix.1 hprefix
      obtain ⟨rfl, rfl⟩ := List.cons.inj (hmore.trans htext)
      exact hc rfl rfl
    have hscalar : readScalar 4 (writeScalar ⟨2, 4, false⟩ key ++ (":\n    ".toList ++ rest)) =
        some (key, ":\n    ".toList ++ rest) :=
      readScalar_writeScalar _ key (by decide) (by decide) (.inl ⟨"    ".toList ++ rest, rfl⟩)
    rw [readKey, List.append_assoc, hmark]
    simp only [hscalar, dropPrefix?_append, Option.bind_eq_bind, Option.bind_some]
    rfl
  · have hscalar : readScalar 4 (writeScalar ⟨4, 4, true⟩ key ++ ("\n  : ".toList ++ rest)) =
        some (key, "\n  : ".toList ++ rest) :=
      readScalar_writeScalar _ key (by decide) (by decide) (.inr ⟨"  : ".toList ++ rest, rfl, rfl⟩)
    rw [readKey, List.append_assoc, List.append_assoc, dropPrefix?_append]
    simp only [hscalar, dropPrefix?_append, Option.bind_eq_bind, Option.bind_some]
    rfl

/-- A key does not begin with a blank. -/
theorem exists_first_of_writeKey (key tail : Text) : ∃ c rest, writeKey key ++ tail = c :: rest ∧ c ≠ ' ' := by
  rw [writeKey]
  split
  · obtain ⟨c, rest, htext, hc, -⟩ := exists_first_of_writeScalar ⟨2, 4, false⟩ key (":\n    ".toList ++ tail)
    exact ⟨c, rest, (List.append_assoc ..).trans htext, hc⟩
  · exact ⟨'?', _, rfl, by decide⟩

/-- An entry is its key with the lists of its imports and of its compiler versions. -/
theorem writeEntry_eq (key : Text) (metadata : Metadata) :
    writeEntry key metadata = "  ".toList ++ (writeKey key ++ (writeList "imports".toList 4 metadata.imports ++
      ("    ".toList ++ writeList "solidity".toList 4 metadata.solidity))) := by
  rw [writeEntry, writeKey]
  split <;> simp

theorem exists_writeList (name : Text) (indent : Nat) (items : List Text) :
    ∃ written, writeList name indent items = name ++ written := by
  rw [writeList]
  split
  · exact ⟨_, rfl⟩
  · exact ⟨_, List.append_assoc ..⟩

/-- The metadata of a file are read back, up to a text that is less indented. -/
theorem readMetadata_append (metadata : Metadata) (hrest : (List.replicate 4 ' ').isPrefixOf rest = false) :
    readMetadata (writeList "imports".toList 4 metadata.imports ++
      ("    ".toList ++ (writeList "solidity".toList 4 metadata.solidity ++ rest))) = some (metadata, rest) := by
  have hsolidity := readList_writeList "solidity".toList (by decide) metadata.solidity
    (isPrefixOf_spaces_of_le (Nat.le_add_right 4 2) hrest) (dropPrefix?_dash hrest)
  have himports : readList "imports".toList 4 (writeList "imports".toList 4 metadata.imports ++
      ("    ".toList ++ (writeList "solidity".toList 4 metadata.solidity ++ rest))) =
        some (metadata.imports, "    ".toList ++ (writeList "solidity".toList 4 metadata.solidity ++ rest)) := by
    obtain ⟨written, hwritten⟩ := exists_writeList "solidity".toList 4 metadata.solidity
    rw [hwritten]
    exact readList_writeList _ (by decide) _ rfl rfl
  rw [readMetadata, himports]
  simp only [dropPrefix?_append, hsolidity, Option.bind_eq_bind, Option.bind_some]
  rfl

/-- The files of a report as they are written. -/
def writeEntries (entries : List (Text × Metadata)) : Text :=
  entries.flatMap fun entry => writeEntry entry.1 entry.2

/-- The first entry stands in front of the others. -/
theorem writeEntries_cons (entry : Text × Metadata) (entries : List (Text × Metadata)) (rest : Text) :
    writeEntries (entry :: entries) ++ rest = "  ".toList ++ (writeKey entry.1 ++
      (writeList "imports".toList 4 entry.2.imports ++ ("    ".toList ++
        (writeList "solidity".toList 4 entry.2.solidity ++ (writeEntries entries ++ rest))))) := by
  simp [writeEntries, writeEntry_eq]

/-- Entries are indented less than what they hold. -/
theorem isPrefixOf_spaces_writeEntries (entries : List (Text × Metadata))
    (hrest : (List.replicate 2 ' ').isPrefixOf rest = false) :
    (List.replicate 4 ' ').isPrefixOf (writeEntries entries ++ rest) = false := by
  cases entries with
  | nil => exact isPrefixOf_spaces_of_le (by decide) hrest
  | cons entry entries =>
    obtain ⟨c, others, htext, hc⟩ := exists_first_of_writeKey entry.1
      (writeList "imports".toList 4 entry.2.imports ++ ("    ".toList ++
        (writeList "solidity".toList 4 entry.2.solidity ++ (writeEntries entries ++ rest))))
    have hspace : (' ' == c) = false := beq_eq_false_iff_ne.2 (Ne.symm hc)
    rw [writeEntries_cons, htext]
    simp [List.replicate, List.isPrefixOf, hspace]

/-- The files of a report are read back, up to a text that is not indented. -/
theorem readEntries_writeEntries (entries : List (Text × Metadata))
    (hrest : (List.replicate 2 ' ').isPrefixOf rest = false) :
    readEntries (writeEntries entries ++ rest) = some (entries, rest) := by
  induction entries with
  | nil =>
    have hnone : rest.dropPrefix? "  ".toList = none := dropPrefix?_eq_none hrest
    rw [readEntries]
    simp only [writeEntries, List.flatMap_nil, List.nil_append, hnone]
  | cons entry entries ih =>
    have hmetadata := readMetadata_append entry.2 (isPrefixOf_spaces_writeEntries entries hrest)
    have hshorter : (writeEntries entries ++ rest).length < (writeEntries (entry :: entries) ++ rest).length := by
      rw [writeEntries_cons]
      simp only [List.length_append]
      have : "  ".toList.length = 2 := rfl
      omega
    rw [readEntries, writeEntries_cons, dropPrefix?_append, ← writeEntries_cons]
    simp only [readKey_writeKey, hmetadata, if_pos hshorter, ih, Option.bind_eq_bind, Option.bind_some]
    rfl

/-- Every report is read back from its text. -/
theorem read_write (report : Report) : read (write report) = some report := by
  have hfailures : readList "failures".toList 0 (writeList "failures".toList 0 report.failures) =
      some (report.failures, []) := by
    rw [← List.append_nil (writeList _ _ _)]
    exact readList_writeList _ (by decide) _ rfl rfl
  rw [write]
  split
  · rename_i hnil
    rw [read, dropPrefix?_append]
    simp only [hfailures, Option.bind_eq_bind, Option.bind_some]
    rw [← hnil]
    rfl
  · have htext : "files:\n".toList ++ writeEntries report.files ++ writeList "failures".toList 0 report.failures =
        "files:\n".toList ++ (writeEntries report.files ++ writeList "failures".toList 0 report.failures) :=
      List.append_assoc ..
    have hnone : ("files:\n".toList ++ (writeEntries report.files ++
        writeList "failures".toList 0 report.failures)).dropPrefix? "files: \x7b\x7d\n".toList = none := rfl
    have hentries : readEntries (writeEntries report.files ++ writeList "failures".toList 0 report.failures) =
        some (report.files, writeList "failures".toList 0 report.failures) := by
      obtain ⟨written, hwritten⟩ := exists_writeList "failures".toList 0 report.failures
      rw [hwritten]
      exact readEntries_writeEntries _ rfl
    change read ("files:\n".toList ++ writeEntries report.files ++ writeList "failures".toList 0 report.failures) = _
    rw [htext, read, hnone]
    simp only [dropPrefix?_append, hentries, hfailures, Option.bind_eq_bind, Option.bind_some]
    rfl

/-- Two indexes that are exported as one YAML text are exported as one report, which is read back from the text: the
same files by their display texts, in the same order and with the same lists, and the same failures. Where the files
are, from which directories they are shown, and whether files without directives are listed may differ. -/
theorem write_determines_report {fs fs' : FileSystem} {frame frame' : Frame} {includeEmpty includeEmpty' : Bool}
    {index index' : Index} {text : Text}
    (h : (Report.ofIndex fs frame includeEmpty index).map write = .ok text)
    (h' : (Report.ofIndex fs' frame' includeEmpty' index').map write = .ok text) :
    ∃ report, Report.ofIndex fs frame includeEmpty index = .ok report ∧
      Report.ofIndex fs' frame' includeEmpty' index' = .ok report ∧ read text = some report := by
  obtain ⟨report, hreport, rfl⟩ := map_eq_ok_iff.1 h
  obtain ⟨report', hreport', hsame⟩ := map_eq_ok_iff.1 h'
  have hread := read_write report
  rw [← hsame, read_write report'] at hread
  obtain rfl := Option.some.inj hread
  exact ⟨report', hreport, hreport', hsame ▸ read_write report'⟩

/-- A file with a pragma value that begins with a space. -/
def quotedEntry : Path × Metadata :=
  (⟨.absolute, [['r'], ['a'], ['x']]⟩, ⟨[], [[' ', '8']]⟩)

/-- A file without directives. -/
def emptyEntry : Path × Metadata :=
  (⟨.absolute, [['r'], ['y']]⟩, .empty)

theorem write_determines_report_quoted :
    ∃ report, Report.ofIndex twinFiles twinFrame false ⟨[quotedEntry, emptyEntry], []⟩ = .ok report ∧
      Report.ofIndex twinFiles twinFrame true ⟨[quotedEntry], []⟩ = .ok report ∧
      read "files:\n  x:\n    imports: []\n    solidity:\n    - ' 8'\nfailures: []\n".toList =
        some report := by
  have hreport : Report.ofIndex twinFiles twinFrame false ⟨[quotedEntry, emptyEntry], []⟩ =
      .ok ⟨[(['x'], quotedEntry.2)], []⟩ := by
    rw [ofIndex_twinFiles (by decide), Index.report, Text.sort, List.map_nil, List.mergeSort_nil]
    rfl
  have hreport' : Report.ofIndex twinFiles twinFrame true ⟨[quotedEntry], []⟩ = .ok ⟨[(['x'], quotedEntry.2)], []⟩ := by
    rw [ofIndex_twinFiles (by decide), Index.report, Text.sort, List.map_nil, List.mergeSort_nil]
    rfl
  have htext : write ⟨[(['x'], quotedEntry.2)], []⟩ =
      "files:\n  x:\n    imports: []\n    solidity:\n    - ' 8'\nfailures: []\n".toList := rfl
  refine write_determines_report ?_ ?_
  · rw [hreport, ← htext]
    rfl
  · rw [hreport', ← htext]
    rfl

end DirectiveIndex.Yaml
