import DirectiveIndex.Text.Basic

namespace DirectiveIndex

/-- The offsets from `start` up to, but not including, `stop`. -/
structure Span where
  start : Nat
  stop : Nat
deriving DecidableEq, Repr

/-- A directive of a contract source. -/
inductive Directive where
  /-- An import; `path` is the text of its first string literal. -/
  | imported (path : Text) (span : Span)
  /-- A pragma with its name and the text after it, comments cut out. An unfinished pragma has no
  name and no value. -/
  | pragma (name value : Text) (span : Span)
deriving DecidableEq, Repr

/-- The stretch of the source that a directive covers. -/
def Directive.span : Directive → Span
  | imported _ span => span
  | pragma _ _ span => span

/-- Anything that the scanner reports. -/
inductive Record where
  | directive (directive : Directive)
  | comment (span : Span)
  | string (value : Text) (span : Span)
  | semicolon (span : Span)
deriving DecidableEq, Repr

/-- The directive that a record holds, if it is one. -/
def Record.directive? : Record → Option Directive
  | directive d => some d
  | _ => none

end DirectiveIndex
