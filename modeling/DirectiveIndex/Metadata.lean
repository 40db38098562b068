import DirectiveIndex.Scanner

namespace DirectiveIndex

/-- The import paths and `solidity` pragma values of a source as they are written, in source order and with
repetitions. -/
structure Metadata where
  imports : List Text
  solidity : List Text
deriving DecidableEq, Repr

namespace Metadata

/-- The metadata of a source without directives. -/
def empty : Metadata :=
  ⟨[], []⟩

/-- Whether no directive was found. -/
def isEmpty (metadata : Metadata) : Bool :=
  metadata.imports.isEmpty && metadata.solidity.isEmpty

/-- The name of the pragmas whose values are kept. -/
def solidityName : Text :=
  "solidity".toList

/-- The path that a directive imports. -/
def importPath? : Directive → Option Text
  | .imported path _ => some path
  | .pragma _ _ _ => none

/-- The value of a directive that is a `solidity` pragma. -/
def solidityValue? : Directive → Option Text
  | .imported _ _ => none
  | .pragma name value _ => if name = solidityName then some value else none

/-- The metadata of a list of directives. -/
def ofDirectives (directives : List Directive) : Metadata :=
  ⟨directives.filterMap importPath?, directives.filterMap solidityValue?⟩

end Metadata

/-- The metadata of a source. -/
def extract (source : Text) : Metadata :=
  .ofDirectives (scan source)

end DirectiveIndex
