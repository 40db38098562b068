import DirectiveIndex.Report
import DirectiveIndex.Yaml.Scalar

namespace DirectiveIndex.Yaml

/-- The length from which a display text is too long to stand before a colon. -/
def simpleKeyLimit : Nat := 123

/-- Whether a display text can stand before a colon; one that cannot is written behind a question mark. -/
def isSimpleKey (key : Text) : Bool :=
  key != [] && key.length < simpleKeyLimit && !key.any isBreak

/-- A list of texts behind its name, each on its own line behind a dash. -/
def writeList (name : Text) (indent : Nat) (items : List Text) : Text :=
  if items = [] then
    name ++ ": []\n".toList
  else
    let dash := List.replicate indent ' ' ++ ['-', ' ']
    name ++ ":\n".toList ++
      items.flatMap fun item => dash ++ writeScalar ⟨indent + 2, indent + 2, true⟩ item ++ ['\n']

/-- The metadata of a file behind its display text. -/
def writeEntry (key : Text) (metadata : Metadata) : Text :=
  let lead :=
    if isSimpleKey key then
      "  ".toList ++ writeScalar ⟨2, 4, false⟩ key ++ ":\n    ".toList
    else
      "  ? ".toList ++ writeScalar ⟨4, 4, true⟩ key ++ "\n  : ".toList
  lead ++ writeList "imports".toList 4 metadata.imports ++ "    ".toList ++
    writeList "solidity".toList 4 metadata.solidity

/-- A report as a YAML document in block style. -/
def write (report : Report) : Text :=
  let files :=
    if report.files = [] then
      "files: \x7b\x7d\n".toList
    else
      "files:\n".toList ++ report.files.flatMap fun entry => writeEntry entry.1 entry.2
  files ++ writeList "failures".toList 0 report.failures

end DirectiveIndex.Yaml
