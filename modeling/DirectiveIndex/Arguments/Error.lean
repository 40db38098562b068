import DirectiveIndex.Settings
import DirectiveIndex.Text.Quoted

namespace DirectiveIndex

/-- What is wrong with a command line. -/
inductive ArgumentError where
  /-- An abbreviated switch that may be any of several. -/
  | ambiguous (argument : Text) (candidates : List Switch)
  /-- A switch without the one value that it takes. -/
  | missingValue (switch : Switch)
  /-- A switch without any of the values that it takes. -/
  | missingValues (switch : Switch)
  /-- A value for a switch that takes none. -/
  | unexpectedValue (switch : Switch) (value : Text)
  /-- A value that is not among the choices of its switch. -/
  | invalidChoice (switch : Switch) (value : Text) (choices : List Text)
  /-- A value that is no integer. -/
  | invalidInteger (switch : Switch) (value : Text)
  /-- Arguments that mean nothing. -/
  | unrecognized (arguments : List Text)
deriving DecidableEq, Repr

/-- A message about one switch. -/
def Switch.complaint (switch : Switch) (message : Text) : Text :=
  "argument ".toList ++ switch.names ++ [':', ' '] ++ message

/-- The wording of an error. -/
def ArgumentError.message : ArgumentError → Text
  | ambiguous argument candidates =>
    "ambiguous option: ".toList ++ argument ++ " could match ".toList ++
      Text.join [',', ' '] (candidates.map Switch.longName)
  | missingValue switch => switch.complaint "expected one argument".toList
  | missingValues switch => switch.complaint "expected at least one argument".toList
  | unexpectedValue switch value =>
    switch.complaint ("ignored explicit argument ".toList ++ Text.quoted value)
  | invalidChoice switch value choices =>
    switch.complaint
      ("invalid choice: ".toList ++ Text.quoted value ++ " (choose from ".toList ++
        Text.join [',', ' '] (choices.map Text.quoted) ++ [')'])
  | invalidInteger switch value => switch.complaint ("invalid int value: ".toList ++ Text.quoted value)
  | unrecognized arguments => "unrecognized arguments: ".toList ++ Text.join [' '] arguments

end DirectiveIndex
