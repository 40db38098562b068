import DirectiveIndex.Report
import DirectiveIndex.Text.Quoted

namespace DirectiveIndex

/-- The JSON values that reports are made of. -/
inductive Json where
  | string (text : Text)
  | array (items : List Json)
  | object (members : List (Text × Json))

namespace Json

/-- How items are laid out: on one line, or each on a line of its own behind the given text once for
each level. -/
inductive Layout where
  | compact
  | indented (unit : Text)
deriving DecidableEq, Repr

/-- A code unit of sixteen bits as an escape. -/
def unitEscape (unit : Nat) : Text :=
  '\\' :: 'u' :: Text.hex 4 unit

/-- A character inside a string: printable ASCII as it is, except for the quote and the backslash, and
all else as an escape, beyond U+FFFF as a pair of surrogates. -/
def escapeChar (c : Char) : Text :=
  if c = '"' then ['\\', '"']
  else if c = '\\' then ['\\', '\\']
  else if c = '\n' then ['\\', 'n']
  else if c = '\r' then ['\\', 'r']
  else if c = '\t' then ['\\', 't']
  else if c = '\x08' then ['\\', 'b']
  else if c = '\x0c' then ['\\', 'f']
  else if 0x20 ≤ c.toNat ∧ c.toNat ≤ 0x7E then [c]
  else if c.toNat ≤ 0xFFFF then unitEscape c.toNat
  else
    let above := c.toNat - 0x10000
    unitEscape (0xD800 + above / 0x400) ++ unitEscape (0xDC00 + above % 0x400)

/-- A string in quotes. -/
def quote (text : Text) : Text :=
  '"' :: text.flatMap escapeChar ++ ['"']

/-- What stands before an item at a level: nothing, or a line break and the indentation. -/
def Layout.lead (layout : Layout) (level : Nat) : Text :=
  match layout with
  | compact => []
  | indented unit => '\n' :: (List.replicate level unit).flatten

/-- What stands between two items of a level. -/
def Layout.separator (layout : Layout) (level : Nat) : Text :=
  match layout with
  | compact => [',', ' ']
  | indented _ => ',' :: layout.lead level

/-- Items between brackets, each on its own line where the layout says so; nothing stands between the
brackets if there are no items. -/
def enclose (layout : Layout) (level : Nat) (opening closing : Char) (items : List Text) : Text :=
  if items = [] then
    [opening, closing]
  else
    opening :: layout.lead (level + 1) ++ Text.join (layout.separator (level + 1)) items ++
      layout.lead level ++ [closing]

mutual

/-- Writes a value whose brackets stand at a level. -/
def write (layout : Layout) (level : Nat) : Json → Text
  | string text => quote text
  | array items => enclose layout level '[' ']' (writeItems layout (level + 1) items)
  | object members => enclose layout level '\x7b' '\x7d' (writeMembers layout (level + 1) members)

/-- Writes the items of an array. -/
def writeItems (layout : Layout) (level : Nat) : List Json → List Text
  | [] => []
  | item :: items => write layout level item :: writeItems layout level items

/-- Writes the members of an object. -/
def writeMembers (layout : Layout) (level : Nat) : List (Text × Json) → List Text
  | [] => []
  | (key, value) :: members =>
    (quote key ++ [':', ' '] ++ write layout level value) :: writeMembers layout level members

end

/-- The JSON text of a value. -/
def text (layout : Layout) (value : Json) : Text :=
  write layout 0 value

/-- An array of strings. -/
def ofTexts (texts : List Text) : Json :=
  array (texts.map string)

end Json

/-- The JSON value of a file's metadata. -/
def Metadata.toJson (metadata : Metadata) : Json :=
  .object [("imports".toList, .ofTexts metadata.imports), ("solidity".toList, .ofTexts metadata.solidity)]

/-- The JSON value of a report. -/
def Report.toJson (report : Report) : Json :=
  .object
    [("files".toList, .object (report.files.map fun entry => (entry.1, entry.2.toJson))),
      ("failures".toList, .ofTexts report.failures)]

/-- The layout with a number of spaces for each level; a negative number counts as zero. -/
def Json.Layout.spaces (width : Int) : Json.Layout :=
  .indented (List.replicate width.toNat ' ')

end DirectiveIndex
