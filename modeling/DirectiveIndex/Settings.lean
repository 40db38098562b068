import DirectiveIndex.Outline

namespace DirectiveIndex

/-- The form in which an index is written. -/
inductive Format where
  | ascii
  | json
  | yaml
deriving DecidableEq, Repr

/-- What a run is asked to do. -/
structure Settings where
  /-- The files and directories to look at. -/
  paths : List Text := [Path.selfName]
  /-- The file to write to. -/
  output : Option Text := none
  format : Format := .ascii
  style : OutlineStyle := .tree
  /-- The suffixes of the files to look for in directories. -/
  suffixes : Option (List Text) := none
  /-- The names of further directories to leave out. -/
  excluded : Option (List Text) := none
  maxDepth : Option Int := none
  /-- The directory from which display texts are given. -/
  relativeTo : Option Text := none
  hideEmpty : Bool := false
  verbose : Bool := false
deriving DecidableEq, Repr

/-- The formats and their names, in the order in which messages list them. -/
def Format.names : List (Text × Format) :=
  [("ascii".toList, .ascii), ("json".toList, .json), ("yaml".toList, .yaml)]

/-- The styles and their names, in the order in which messages list them. -/
def OutlineStyle.names : List (Text × OutlineStyle) :=
  [("tree".toList, .tree), ("ascii".toList, .ascii)]

/-- What a command line can switch. -/
inductive Switch where
  | help
  | output
  | format
  | style
  | suffixes
  | excluded
  | maxDepth
  | relativeTo
  | hideEmpty
  | verbose
deriving DecidableEq, Repr

namespace Switch

/-- All switches, in the order in which messages list them. -/
def all : List Switch :=
  [help, output, format, style, suffixes, excluded, maxDepth, relativeTo, hideEmpty, verbose]

/-- The letter after a single dash that stands for a switch. -/
def letter? : Switch → Option Char
  | help => some 'h'
  | output => some 'o'
  | format => some 'f'
  | verbose => some 'v'
  | _ => none

/-- The word after two dashes that stands for a switch. -/
def word : Switch → Text
  | help => "help".toList
  | output => "output".toList
  | format => "format".toList
  | style => "ascii-style".toList
  | suffixes => "include-ext".toList
  | excluded => "exclude-dir".toList
  | maxDepth => "max-depth".toList
  | relativeTo => "relative-to".toList
  | hideEmpty => "hide-empty".toList
  | verbose => "verbose".toList

/-- How many values a switch takes. -/
inductive Arity where
  | zero
  | one
  | several
deriving DecidableEq, Repr

/-- How many values a switch takes. -/
def arity : Switch → Arity
  | help | hideEmpty | verbose => .zero
  | output | format | style | maxDepth | relativeTo => .one
  | suffixes | excluded => .several

/-- A switch by its word. -/
def longName (switch : Switch) : Text :=
  '-' :: '-' :: switch.word

/-- A switch by its letter. -/
def shortName? (switch : Switch) : Option Text :=
  switch.letter?.map fun letter => ['-', letter]

/-- All names of a switch as messages give them. -/
def names (switch : Switch) : Text :=
  Text.join ['/'] (switch.shortName?.toList ++ [switch.longName])

/-- The switch that a letter stands for. -/
def ofLetter? (letter : Char) : Option Switch :=
  all.find? (·.letter? == some letter)

/-- The switch that a word stands for. -/
def ofWord? (word : Text) : Option Switch :=
  all.find? (·.word == word)

end Switch

end DirectiveIndex
