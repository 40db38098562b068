import Mathlib
import DirectiveIndex.FileSystem.Change
import DirectiveIndex.Json
import DirectiveIndex.Outline
import DirectiveIndex.Proofs.DisplayTexts
import DirectiveIndex.Proofs.Orders
import DirectiveIndex.Proofs.Scan
import DirectiveIndex.Proofs.Trees

namespace DirectiveIndex

namespace Text

variable {separator : Char}

/-- Texts joined by a character are cut into the pieces of each of them. -/
theorem split_join_eq_flatMap {texts : List Text} (hne : texts ≠ []) :
    split separator (join [separator] texts) = texts.flatMap (split separator) := by
  induction texts with
  | nil => exact absurd rfl hne
  | cons text texts ih =>
    cases texts with
    | nil => rw [join, List.flatMap_singleton]
    | cons next texts =>
      rw [join_cons_cons, List.append_assoc, List.singleton_append, split_append, ih (List.cons_ne_nil _ _),
        ← List.flatMap_cons]

/-- Where texts are joined by a character written twice, an empty piece stands between the pieces of two of them. -/
theorem split_join_twice {texts : List Text} (hne : texts ≠ []) :
    split separator (join [separator, separator] texts) = [[]].intercalate (texts.map (split separator)) := by
  induction texts with
  | nil => exact absurd rfl hne
  | cons text texts ih =>
    cases texts with
    | nil => rw [join, List.map_singleton, List.intercalate_singleton]
    | cons next texts =>
      rw [join_cons_cons, List.append_assoc, List.cons_append, List.singleton_append, split_append, split_cons_self,
        ih (List.cons_ne_nil _ _), List.map_cons, List.map_cons, List.map_cons, List.intercalate_cons_cons,
        List.append_assoc, List.singleton_append]

/-- Texts without the separator are split into themselves. -/
theorem flatMap_split_eq_self {texts : List Text} (h : ∀ text ∈ texts, separator ∉ text) :
    texts.flatMap (split separator) = texts := by
  induction texts with
  | nil => rfl
  | cons text texts ih =>
    obtain ⟨htext, htexts⟩ := List.forall_mem_cons.1 h
    rw [List.flatMap_cons, split_of_not_mem htext, ih htexts, List.singleton_append]

end Text

/-- What lies in a list lies in the lists put together. -/
theorem mem_intercalate_of_mem {α : Type} (separator : List α) {list : List α} {lists : List (List α)} {a : α}
    (hlist : list ∈ lists) (ha : a ∈ list) : a ∈ separator.intercalate lists := by
  induction lists with
  | nil => cases hlist
  | cons first lists ih =>
    cases lists with
    | nil =>
      rw [List.intercalate_singleton]
      exact List.mem_singleton.1 hlist ▸ ha
    | cons next lists =>
      rw [List.intercalate_cons_cons, List.append_assoc, List.mem_append, List.mem_append]
      rcases List.mem_cons.1 hlist with rfl | hlist
      · exact .inl ha
      · exact .inr (.inr (ih hlist))

/-- Leaves as lines: the last one behind the connector for the last, all others behind the one for branches. -/
def Connectors.lines (connectors : Connectors) (leaves : List Text) : List Text :=
  leaves.mapIdx fun i leaf => (if i + 1 = leaves.length then connectors.last else connectors.branch) ++ leaf

/-- The leaves are attached to the connectors as described: the last one differs. -/
theorem Connectors.attach_eq_lines (connectors : Connectors) (leaves : List Text) :
    connectors.attach leaves = connectors.lines leaves := by
  induction leaves with
  | nil => rfl
  | cons leaf leaves ih =>
    cases leaves with
    | nil => rfl
    | cons next leaves =>
      have hnotLast : ¬ 0 + 1 = (leaf :: next :: leaves).length := by simp
      have hlines : connectors.lines (leaf :: next :: leaves) =
          (connectors.branch ++ leaf) :: connectors.lines (next :: leaves) := by
        rw [lines, List.mapIdx_cons, if_neg hnotLast, lines]
        simp only [List.length_cons, Nat.add_right_cancel_iff]
      rw [attach, ih, hlines]
      exact nofun

/-- A line is a connector before a leaf. -/
theorem Connectors.mem_lines {connectors : Connectors} {leaves : List Text} {line : Text}
    (h : line ∈ connectors.lines leaves) :
    ∃ connector ∈ [connectors.last, connectors.branch], ∃ leaf ∈ leaves, connector ++ leaf = line := by
  obtain ⟨i, hi, rfl⟩ := List.mem_mapIdx.1 h
  refine ⟨_, ?_, leaves[i], List.getElem_mem hi, rfl⟩
  split
  · exact List.mem_cons_self
  · exact List.mem_cons_of_mem _ List.mem_cons_self

/-- Every leaf has its line. -/
theorem Connectors.exists_mem_lines (connectors : Connectors) {leaves : List Text} {leaf : Text} (h : leaf ∈ leaves) :
    ∃ connector, connector ++ leaf ∈ connectors.lines leaves := by
  obtain ⟨i, hi, rfl⟩ := List.mem_iff_getElem.1 h
  exact ⟨_, List.mem_mapIdx.2 ⟨i, hi, rfl⟩⟩

/-- What an outline shows of a file: the display text that heads it, what is written behind that, and the leaves. -/
structure Block where
  heading : Text
  mark : Text
  leaves : List Text

/-- The lines of a block, if none of its texts goes over several lines. -/
def Block.lines (connectors : Connectors) (block : Block) : List Text :=
  (block.heading ++ block.mark) :: connectors.lines block.leaves

/-- A block as it is written. -/
def Block.text (connectors : Connectors) (block : Block) : Text :=
  Text.join ['\n'] (block.lines connectors)

/-- The blocks of the files in an index, given their display texts: first those that are listed, then those that could
not be read. -/
def Index.blocks (index : Index) (includeEmpty : Bool) (name : Path → Text) : List Block :=
  ((index.listed includeEmpty).map fun entry => ⟨name entry.1, [], entry.2.leaves⟩) ++
    (Path.sort index.failures).map fun path => ⟨name path, unreadableMark, []⟩

variable {fs : FileSystem} {frame : Frame} {index : Index} {includeEmpty : Bool} {name : Path → Text}

/-- A block is that of an entry or that of a failure. -/
theorem Index.mem_blocks_iff {block : Block} :
    block ∈ index.blocks includeEmpty name ↔
      (∃ entry ∈ index.listed includeEmpty, (⟨name entry.1, [], entry.2.leaves⟩ : Block) = block) ∨
        ∃ path ∈ index.failures, (⟨name path, unreadableMark, []⟩ : Block) = block := by
  rw [blocks, List.mem_append, List.mem_map, List.mem_map]
  simp only [(Path.sort_perm _).mem_iff]

/-- An outline is its blocks with blank lines between them. -/
theorem Index.outline_eq (style : OutlineStyle) (h : ∀ path ∈ (index.listed includeEmpty).map (·.1) ++ index.failures,
    fs.display frame path = .ok (name path)) :
    index.outline fs frame style includeEmpty =
      .ok (Text.join ['\n', '\n'] ((index.blocks includeEmpty name).map (Block.text style.connectors))) := by
  have hfiles : (index.listed includeEmpty).mapM (fun entry => do
      let name ← fs.display frame entry.1
      return Text.join ['\n'] (name :: style.connectors.attach entry.2.leaves)) =
      (.ok ((index.listed includeEmpty).map fun entry =>
        Text.join ['\n'] (name entry.1 :: style.connectors.attach entry.2.leaves)) : Except AccessError _) := by
    apply mapM_of_forall
    intro entry hentry
    rw [h entry.1 (List.mem_append_left _ (List.mem_map_of_mem hentry))]
    rfl
  have hfailures : (Path.sort index.failures).mapM (fun path => do return (← fs.display frame path) ++ unreadableMark) =
      (.ok ((Path.sort index.failures).map fun path => name path ++ unreadableMark) : Except AccessError _) := by
    apply mapM_of_forall
    intro path hpath
    rw [h path (List.mem_append_right _ (List.mem_mergeSort.1 hpath))]
    rfl
  have hblocks : (index.blocks includeEmpty name).map (Block.text style.connectors) =
      ((index.listed includeEmpty).map fun entry =>
        Text.join ['\n'] (name entry.1 :: style.connectors.attach entry.2.leaves)) ++
      (Path.sort index.failures).map fun path => name path ++ unreadableMark := by
    rw [blocks, List.map_append, List.map_map, List.map_map]
    congr 1
    refine List.map_congr_left fun entry _ => ?_
    rw [Function.comp_apply, Block.text, Block.lines, List.append_nil, Connectors.attach_eq_lines]
  rw [outline, hfiles, hfailures, hblocks]
  rfl

/-- The lines of an outline are those of its blocks and an empty one between two of them, if and only if no line of a
block holds a line feed. -/
theorem split_outline (connectors : Connectors) {blocks : List Block} (hne : blocks ≠ []) :
    Text.split '\n' (Text.join ['\n', '\n'] (blocks.map (Block.text connectors))) =
        [[]].intercalate (blocks.map fun block => (block.lines connectors).flatMap (Text.split '\n')) ∧
      (Text.split '\n' (Text.join ['\n', '\n'] (blocks.map (Block.text connectors))) =
          [[]].intercalate (blocks.map (Block.lines connectors)) ↔
        ∀ block ∈ blocks, ∀ line ∈ block.lines connectors, '\n' ∉ line) := by
  have hpieces : Text.split '\n' (Text.join ['\n', '\n'] (blocks.map (Block.text connectors))) =
      [[]].intercalate (blocks.map fun block => (block.lines connectors).flatMap (Text.split '\n')) := by
    rw [Text.split_join_twice (by rwa [Ne, List.map_eq_nil_iff]), List.map_map]
    congr 1
    exact List.map_congr_left fun block _ => Text.split_join_eq_flatMap (List.cons_ne_nil _ _)
  refine ⟨hpieces, fun h block hblock line hline => ?_, fun h => ?_⟩
  · have hlines := mem_intercalate_of_mem [[]] (List.mem_map_of_mem hblock) hline
    rw [← h] at hlines
    exact Text.not_mem_of_mem_split hlines
  · rw [hpieces]
    congr 1
    refine List.map_congr_left fun block hblock => ?_
    exact Text.flatMap_split_eq_self (h block hblock)

/-- The connectors of both styles are visible and within a line. -/
theorem OutlineStyle.connectors_spec (style : OutlineStyle) :
    ∀ connector ∈ [style.connectors.last, style.connectors.branch], connector ≠ [] ∧ '\n' ∉ connector := by
  cases style <;> decide

/-- The leaves are within a line if the values are. -/
theorem Metadata.lineFeed_not_mem_leaves_iff {metadata : Metadata} :
    (∀ leaf ∈ metadata.leaves, '\n' ∉ leaf) ↔
      ∀ value ∈ metadata.imports ++ metadata.solidity.map Text.strip, '\n' ∉ value := by
  have hlead {lead : Text} (h : '\n' ∉ lead) (value : Text) : '\n' ∉ lead ++ value ↔ '\n' ∉ value := by
    rw [List.mem_append, or_iff_right h]
  rw [leaves, List.forall_mem_append, List.forall_mem_append, List.forall_mem_map, List.forall_mem_map,
    List.forall_mem_map]
  simp only [hlead (show '\n' ∉ "import ".toList by decide), hlead (show '\n' ∉ "pragma solidity ".toList by decide)]

/-- The lines of a block are lines if its heading, its mark and its leaves are within one. -/
theorem Block.lineFeed_not_mem_lines_iff {style : OutlineStyle} {block : Block} :
    (∀ line ∈ block.lines style.connectors, '\n' ∉ line) ↔
      '\n' ∉ block.heading ++ block.mark ∧ ∀ leaf ∈ block.leaves, '\n' ∉ leaf := by
  rw [lines, List.forall_mem_cons]
  refine and_congr_right fun _ => ⟨fun h leaf hleaf hmem => ?_, fun h line hline => ?_⟩
  · obtain ⟨connector, hline⟩ := style.connectors.exists_mem_lines hleaf
    exact h _ hline (List.mem_append_right connector hmem)
  · obtain ⟨connector, hconnector, leaf, hleaf, rfl⟩ := Connectors.mem_lines hline
    rw [List.mem_append, not_or]
    exact ⟨(style.connectors_spec connector hconnector).2, h leaf hleaf⟩

/-- A block with a heading has no blank line. -/
theorem Block.ne_nil_of_mem_lines {style : OutlineStyle} {block : Block} (hheading : block.heading ≠ []) {line : Text}
    (h : line ∈ block.lines style.connectors) : line ≠ [] := by
  rcases List.mem_cons.1 h with rfl | hline
  · exact List.append_ne_nil_of_left_ne_nil hheading _
  · obtain ⟨connector, hconnector, leaf, -, rfl⟩ := Connectors.mem_lines hline
    exact List.append_ne_nil_of_left_ne_nil (style.connectors_spec connector hconnector).1 _

namespace Path

/-- A path without empty names has a text. -/
theorem text_ne_nil {path : Path} (h : ∀ part ∈ path.names, part ≠ []) : path.text ≠ [] := by
  unfold text
  split
  · exact List.cons_ne_nil _ _
  · rename_i hself
    cases hroot : path.root with
    | relative =>
      obtain ⟨first, rest, hnames⟩ := List.exists_cons_of_ne_nil fun hnil => hself ⟨hroot, hnil⟩
      have hfirst := h first (hnames ▸ List.mem_cons_self)
      rw [hnames]
      cases rest with
      | nil => exact hfirst
      | cons next rest => exact List.append_ne_nil_of_left_ne_nil (List.append_ne_nil_of_left_ne_nil hfirst _) _
    | absolute => exact List.cons_ne_nil _ _
    | doubleSlash => exact List.cons_ne_nil _ _

end Path

namespace FileSystem

/-- In a tree, a path from a directory has no empty names. -/
theorem ne_nil_of_pathFrom? (htree : fs.IsTree) {directory path shown : Path}
    (h : fs.pathFrom? directory path = .ok (some shown)) : ∀ part ∈ shown.names, part ≠ [] := by
  unfold pathFrom? at h
  dsimp only at h
  split at h
  · cases h
  · obtain ⟨resolved, hresolved, h⟩ := bind_eq_ok_iff.1 h
    obtain ⟨above, -, h⟩ := bind_eq_ok_iff.1 h
    have hrelative : resolved.relativeTo? above = some shown := Except.ok.inj h
    unfold Path.relativeTo? at hrelative
    split at hrelative
    · rw [← Option.some.inj hrelative]
      exact fun part hpart => (htree.isOrdinary_of_resolve hresolved part (List.mem_of_mem_drop hpart)).1
    · cases hrelative

/-- No file is shown under the empty text. -/
theorem ne_nil_of_display (htree : fs.IsTree) {path : Path} (hpath : path.IsProper) {text : Text}
    (h : fs.display frame path = .ok text) : text ≠ [] := by
  have htext {shown : Path} (hnames : ∀ part ∈ shown.names, part ≠ []) : Text.replaceChar '\\' '/' shown.text ≠ [] :=
    fun hnil => Path.text_ne_nil hnames (List.map_eq_nil_iff.1 hnil)
  obtain ⟨fromBase?, hbase, h⟩ := bind_eq_ok_iff.1 h
  cases fromBase? with
  | some shown => exact Except.ok.inj h ▸ htext (ne_nil_of_pathFrom? htree hbase)
  | none =>
    obtain ⟨fromRoot?, hroot, h⟩ := bind_eq_ok_iff.1 h
    cases fromRoot? with
    | some shown => exact Except.ok.inj h ▸ htext (ne_nil_of_pathFrom? htree hroot)
    | none => exact Except.ok.inj h ▸ htext fun part hpart => (hpath part hpart).1

end FileSystem

/-- The lines of an outline. Each listed file has its display text and then its leaves, each file that could not be read
its display text with the mark, these by the order of their paths, and a line is empty only between two files. The
leaves have one line each if and only if no import and no trimmed pragma value of a listed file holds a line feed. -/
theorem Index.outline_lines_iff (style : OutlineStyle) (htree : fs.IsTree)
    (hproper : ∀ path ∈ (index.listed includeEmpty).map (·.1) ++ index.failures, path.IsProper)
    (hname : ∀ path ∈ (index.listed includeEmpty).map (·.1) ++ index.failures,
      fs.display frame path = .ok (name path) ∧ '\n' ∉ name path)
    (hne : index.listed includeEmpty ≠ [] ∨ index.failures ≠ []) :
    ∃ text, index.outline fs frame style includeEmpty = .ok text ∧
      ((Path.sort index.failures).Perm index.failures ∧
        (Path.sort index.failures).Pairwise fun path other => path.le other = true) ∧
      (∀ block ∈ index.blocks includeEmpty name, ∀ line ∈ block.lines style.connectors, line ≠ []) ∧
      Text.split '\n' text = [[]].intercalate ((index.blocks includeEmpty name).map fun block =>
        (block.lines style.connectors).flatMap (Text.split '\n')) ∧
      (Text.split '\n' text = [[]].intercalate ((index.blocks includeEmpty name).map (Block.lines style.connectors)) ↔
        ∀ entry ∈ index.listed includeEmpty, ∀ value ∈ entry.2.imports ++ entry.2.solidity.map Text.strip,
          '\n' ∉ value) := by
  have hblocks : index.blocks includeEmpty name ≠ [] := by
    rw [blocks, Ne, List.append_eq_nil_iff, List.map_eq_nil_iff, List.map_eq_nil_iff, not_and_or]
    exact hne.imp_right fun hfailures hnil => hfailures (hnil ▸ Path.sort_perm index.failures).nil_eq.symm
  obtain ⟨hpieces, hlines⟩ := split_outline style.connectors hblocks
  refine ⟨_, outline_eq style fun path hpath => (hname path hpath).1,
    ⟨Path.sort_perm _, Path.pairwise_sort _⟩, ?_, hpieces, hlines.trans ?_⟩
  · have hnonempty (path : Path) (hpath : path ∈ (index.listed includeEmpty).map (·.1) ++ index.failures) :
        name path ≠ [] :=
      FileSystem.ne_nil_of_display htree (hproper path hpath) (hname path hpath).1
    obtain ⟨hlisted, hfailed⟩ := List.forall_mem_append.1 hnonempty
    intro block hblock line hline
    refine Block.ne_nil_of_mem_lines ?_ hline
    rcases mem_blocks_iff.1 hblock with ⟨entry, hentry, rfl⟩ | ⟨path, hpath, rfl⟩
    · exact List.forall_mem_map.1 hlisted entry hentry
    · exact hfailed path hpath
  · obtain ⟨hlisted, hfailed⟩ := List.forall_mem_append.1 hname
    constructor
    · intro h entry hentry
      have hblock := h _ (mem_blocks_iff.2 (.inl ⟨entry, hentry, rfl⟩))
      exact Metadata.lineFeed_not_mem_leaves_iff.1 (Block.lineFeed_not_mem_lines_iff.1 hblock).2
    · intro h block hblock
      rw [Block.lineFeed_not_mem_lines_iff, List.mem_append, not_or]
      rcases mem_blocks_iff.1 hblock with ⟨entry, hentry, rfl⟩ | ⟨path, hpath, rfl⟩
      · have hheading := (List.forall_mem_map.1 hlisted entry hentry).2
        exact ⟨⟨hheading, List.not_mem_nil⟩, Metadata.lineFeed_not_mem_leaves_iff.2 (h entry hentry)⟩
      · have hmark : '\n' ∉ unreadableMark := by decide
        exact ⟨⟨(hfailed path hpath).2, hmark⟩, nofun⟩

/-- The search of a directory, shown from that directory. -/
def searchFrame : Frame :=
  ⟨⟨.absolute, [['r']]⟩, ⟨.absolute, [['r']]⟩⟩

theorem display_searchFrame {path : Path} (h : path.root = .absolute ∧ path.holdsNul = false ∧
    FileSystem.collapse [] path.names = path.names) :
    FileSystem.empty.display searchFrame path = .ok (searchFrame.displayText path path) := by
  obtain ⟨hroot, hnul, hnames⟩ := h
  have hlinks : FileSystem.empty.HasNoLinks := by decide
  have hdirectory : FileSystem.empty.resolve ⟨.absolute, [['r']]⟩ = .ok ⟨.absolute, [['r']]⟩ :=
    hlinks.resolve_eq_self rfl (by decide) (by decide)
  exact Frame.display_eq ⟨hdirectory, hdirectory⟩ (hlinks.resolve_eq_self hroot hnul hnames)

/-- A file with a pragma whose line ends before the semicolon, and two files that could not be read. -/
def trimmedIndex : Index :=
  ⟨[(⟨.absolute, [['r'], ['x']]⟩, ⟨["a.sol".toList], [" ^0.8.0\n".toList]⟩)],
    [⟨.absolute, [['r'], ['z']]⟩, ⟨.absolute, [['r'], ['y']]⟩]⟩

theorem Index.outline_lines_iff_trimmed :
    ∃ text, trimmedIndex.outline FileSystem.empty searchFrame .tree true = .ok text ∧
      Text.split '\n' text = ["x".toList, "├── import a.sol".toList, "└── pragma solidity ^0.8.0".toList, [],
        "y [UNREADABLE]".toList, [], "z [UNREADABLE]".toList] := by
  have htree : FileSystem.empty.IsTree := by decide
  have hproper : ∀ path ∈ (trimmedIndex.listed true).map (·.1) ++ trimmedIndex.failures, path.IsProper := by decide
  have hpaths : ∀ path ∈ (trimmedIndex.listed true).map (·.1) ++ trimmedIndex.failures,
      (path.root = .absolute ∧ path.holdsNul = false ∧ FileSystem.collapse [] path.names = path.names) ∧
        '\n' ∉ searchFrame.displayText path path := by decide
  obtain ⟨text, htext, -, -, -, hlines⟩ := outline_lines_iff .tree htree hproper
    (fun path hpath => ⟨display_searchFrame (hpaths path hpath).1, (hpaths path hpath).2⟩) (.inl (by decide))
  have hflat : ∀ entry ∈ trimmedIndex.listed true, ∀ value ∈ entry.2.imports ++ entry.2.solidity.map Text.strip,
      '\n' ∉ value := by decide
  refine ⟨text, htext, (hlines.2 hflat).trans ?_⟩
  cbv

/-- The index of one source, in which a pragma value goes over two lines. -/
def brokenIndex : Index :=
  Index.empty.add ⟨.absolute, [['r'], ['x']]⟩ (extract "pragma solidity a\nb;".toList)

/-- A file of one directive that has three lines in the outline, the last of them without a connector. -/
theorem Index.outline_lines_broken :
    FileSystem.empty.display searchFrame ⟨.absolute, [['r'], ['x']]⟩ = .ok ['x'] ∧
      ∃ text, brokenIndex.outline FileSystem.empty searchFrame .tree true = .ok text ∧
        Text.split '\n' text = ["x".toList, "└── pragma solidity a".toList, "b".toList] ∧
        Text.split '\n' text ≠ [[]].intercalate ((brokenIndex.blocks true fun path =>
          searchFrame.displayText path path).map (Block.lines OutlineStyle.tree.connectors)) := by
  have hextract : extract "pragma solidity a\nb;".toList = ⟨[], [" a\nb".toList]⟩ := by
    rw [extract, scan, Scanner.directives_eq]
    decide
  have hdisplay : FileSystem.empty.display searchFrame ⟨.absolute, [['r'], ['x']]⟩ = .ok ['x'] :=
    display_searchFrame (by decide)
  have houtline : brokenIndex.outline FileSystem.empty searchFrame .tree true =
      .ok "x\n└── pragma solidity a\nb".toList := by
    have hname (path : Path) (hpath : path ∈ (brokenIndex.listed true).map (·.1) ++ brokenIndex.failures) :
        FileSystem.empty.display searchFrame path = .ok (searchFrame.displayText path path) := by
      rw [List.mem_singleton.1 hpath]
      exact hdisplay
    refine (outline_eq .tree hname).trans ?_
    rw [brokenIndex, hextract]
    cbv
  have hlines : [[]].intercalate ((brokenIndex.blocks true fun path =>
      searchFrame.displayText path path).map (Block.lines OutlineStyle.tree.connectors)) =
      ["x".toList, "└── pragma solidity a\nb".toList] := by
    rw [brokenIndex, hextract]
    cbv
  refine ⟨hdisplay, _, houtline, by decide, ?_⟩
  rw [hlines]
  decide

/-- What an outline and a report on one index list, where no two display texts are the same. Both list the same files
in the same order, and the same ones as unreadable: the outline by the order of their paths, the report by that of their
display texts. The lists are the same exactly if the first order has the display texts by code points. -/
theorem Index.outline_headings_iff (style : OutlineStyle)
    (hname : ∀ path ∈ (index.listed includeEmpty).map (·.1) ++ index.failures, fs.display frame path = .ok (name path))
    (hdifferent : (((index.listed includeEmpty).map (·.1) ++ index.failures).map name).Nodup) :
    ∃ report members failed,
      index.outline fs frame style includeEmpty =
          .ok (Text.join ['\n', '\n'] ((index.blocks includeEmpty name).map (Block.text style.connectors))) ∧
        Report.ofIndex fs frame includeEmpty index = .ok report ∧
        report.toJson = .object [("files".toList, .object members), ("failures".toList, .ofTexts failed)] ∧
        (index.blocks includeEmpty name).map Block.heading = members.map (·.1) ++ (Path.sort index.failures).map name ∧
        ((Path.sort index.failures).map name).Perm failed ∧
        ((Path.sort index.failures).Pairwise fun path other => path.le other = true) ∧
        (failed.Pairwise fun text other => Text.le text other = true) ∧
        ((index.blocks includeEmpty name).map Block.heading = members.map (·.1) ++ failed ↔
          ((Path.sort index.failures).map name).Pairwise fun text other => Text.le text other = true) := by
  have hkeys : (((index.listed includeEmpty).map fun entry => (name entry.1, entry.2)).map (·.1)).Nodup := by
    rw [List.map_append, List.map_map] at hdifferent
    rw [List.map_map]
    exact (List.nodup_append.1 hdifferent).1
  have hfiles : (index.report includeEmpty name).files =
      (index.listed includeEmpty).map fun entry => (name entry.1, entry.2) :=
    OrderedMap.ofList_eq_self_iff.2 hkeys
  have hheadings : (index.blocks includeEmpty name).map Block.heading =
      ((index.report includeEmpty name).files.map fun entry => (entry.1, entry.2.toJson)).map (·.1) ++
        (Path.sort index.failures).map name := by
    rw [hfiles, blocks, List.map_append, List.map_map, List.map_map, List.map_map, List.map_map]
    rfl
  have hsame : ((Path.sort index.failures).map name).Perm (index.report includeEmpty name).failures :=
    ((Path.sort_perm _).map name).trans (List.mergeSort_perm _ _).symm
  have hsorted := Text.pairwise_sort (index.failures.map name)
  refine ⟨_, _, _, outline_eq style hname, Report.ofIndex_eq_of_listed hname, rfl, hheadings, hsame,
    Path.pairwise_sort _, hsorted, ?_⟩
  rw [hheadings, List.append_cancel_left_eq]
  constructor
  · intro heq
    rw [heq]
    exact hsorted
  · intro hordered
    exact hsame.eq_of_pairwise (fun _ _ _ _ => Text.le_antisymm) hordered hsorted

theorem Index.outline_headings_iff_trimmed :
    ∃ report members failed, Report.ofIndex FileSystem.empty searchFrame true trimmedIndex = .ok report ∧
      report.toJson = .object [("files".toList, .object members), ("failures".toList, .ofTexts failed)] ∧
      (trimmedIndex.blocks true fun path => searchFrame.displayText path path).map Block.heading =
        members.map (·.1) ++ failed := by
  have hpaths : ∀ path ∈ (trimmedIndex.listed true).map (·.1) ++ trimmedIndex.failures,
      path.root = .absolute ∧ path.holdsNul = false ∧ FileSystem.collapse [] path.names = path.names := by decide
  have hsort : Path.sort trimmedIndex.failures = [⟨.absolute, [['r'], ['y']]⟩, ⟨.absolute, [['r'], ['z']]⟩] := by cbv
  obtain ⟨report, members, failed, -, hreport, hjson, -, -, -, -, hiff⟩ :=
    outline_headings_iff .tree (fun path hpath => display_searchFrame (hpaths path hpath)) (by decide)
  rw [hsort] at hiff
  exact ⟨report, members, failed, hreport, hjson, hiff.2 (by decide)⟩

/-- A file in a directory, and one beside the directory whose name goes on with a character before the slash. -/
def crossedIndex : Index :=
  ⟨[], [⟨.absolute, [['r'], ['a'], ['b']]⟩, ⟨.absolute, [['r'], "a-b".toList]⟩]⟩

/-- Two unreadable files that the outline and the report have in different orders. -/
theorem Index.outline_headings_crossed :
    (crossedIndex.failures.map fun path => searchFrame.displayText path path).Nodup ∧
      crossedIndex.outline FileSystem.empty searchFrame .tree true =
        .ok "a/b [UNREADABLE]\n\na-b [UNREADABLE]".toList ∧
      ∃ report, Report.ofIndex FileSystem.empty searchFrame true crossedIndex = .ok report ∧
        report.toJson = .object [("files".toList, .object []),
          ("failures".toList, .ofTexts ["a-b".toList, "a/b".toList])] ∧
        (crossedIndex.blocks true fun path => searchFrame.displayText path path).map Block.heading ≠
          ["a-b".toList, "a/b".toList] := by
  have hpaths : ∀ path ∈ (crossedIndex.listed true).map (·.1) ++ crossedIndex.failures,
      path.root = .absolute ∧ path.holdsNul = false ∧ FileSystem.collapse [] path.names = path.names := by decide
  have hname (path : Path) (hpath : path ∈ (crossedIndex.listed true).map (·.1) ++ crossedIndex.failures) :
      FileSystem.empty.display searchFrame path = .ok (searchFrame.displayText path path) :=
    display_searchFrame (hpaths path hpath)
  have hreport : crossedIndex.report true (fun path => searchFrame.displayText path path) =
      ⟨[], ["a-b".toList, "a/b".toList]⟩ := by cbv
  have hheadings : (crossedIndex.blocks true fun path => searchFrame.displayText path path).map Block.heading =
      ["a/b".toList, "a-b".toList] := by cbv
  refine ⟨by decide, (outline_eq .tree hname).trans ?_, _, Report.ofIndex_eq_of_listed hname, ?_, ?_⟩
  · cbv
  · rw [hreport]
    rfl
  · rw [hheadings]
    decide

end DirectiveIndex
