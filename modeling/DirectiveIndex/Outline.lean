import DirectiveIndex.Report

namespace DirectiveIndex

/-- What leads to a leaf: one form for all leaves of a file but the last, and one for the last. -/
structure Connectors where
  branch : Text
  last : Text
deriving DecidableEq, Repr

/-- The two looks of an outline: with box-drawing characters, or in ASCII. -/
inductive OutlineStyle where
  | tree
  | ascii
deriving DecidableEq, Repr

/-- The connectors of a style. -/
def OutlineStyle.connectors : OutlineStyle → Connectors
  | tree => ⟨"├── ".toList, "└── ".toList⟩
  | ascii => ⟨"|-- ".toList, "\\-- ".toList⟩

/-- The leaves of a file, in source order; pragma values are shown without the white space at their
ends. -/
def Metadata.leaves (metadata : Metadata) : List Text :=
  metadata.imports.map ("import ".toList ++ ·) ++
    metadata.solidity.map fun value => "pragma solidity ".toList ++ Text.strip value

/-- Leaves behind their connectors. -/
def Connectors.attach (connectors : Connectors) : List Text → List Text
  | [] => []
  | [leaf] => [connectors.last ++ leaf]
  | leaf :: leaves => (connectors.branch ++ leaf) :: attach connectors leaves

/-- What follows the display text of a file that could not be read. -/
def unreadableMark : Text :=
  " [UNREADABLE]".toList

/-- An index as an outline: a block for each file, and the files that could not be read behind them in the order of
their paths, with a blank line between neighbours. -/
def Index.outline (fs : FileSystem) (frame : Frame) (style : OutlineStyle) (includeEmpty : Bool)
    (index : Index) : Except AccessError Text := do
  let files ← (index.listed includeEmpty).mapM fun entry => do
    let name ← fs.display frame entry.1
    return Text.join ['\n'] (name :: style.connectors.attach entry.2.leaves)
  let failures ← (Path.sort index.failures).mapM fun path => do
    return (← fs.display frame path) ++ unreadableMark
  return Text.join ['\n', '\n'] (files ++ failures)

end DirectiveIndex
