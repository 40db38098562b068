import DirectiveIndex.Text.Basic

namespace DirectiveIndex

/-- A regular expression. -/
inductive Regex where
  /-- Matches nothing. -/
  | never
  /-- Matches the empty text. -/
  | done
  /-- Matches one character of a class. -/
  | one (accepts : Char → Bool)
  /-- Matches a text of the first followed by one of the second. -/
  | seq (first second : Regex)
  /-- Matches what either of the two matches. -/
  | either (left right : Regex)
  /-- Matches any number of texts one after the other. -/
  | many (inner : Regex)

namespace Regex

/-- One after the other. -/
def andThen : Regex → Regex → Regex
  | never, _ => never
  | done, second => second
  | first, second => seq first second

/-- One or the other. -/
def orElse : Regex → Regex → Regex
  | never, right => right
  | left, never => left
  | left, right => either left right

/-- Whether the empty text matches. -/
def acceptsNil : Regex → Bool
  | never => false
  | done => true
  | one _ => false
  | seq first second => first.acceptsNil && second.acceptsNil
  | either left right => left.acceptsNil || right.acceptsNil
  | many _ => true

/-- What may follow a first character. -/
def derive (c : Char) : Regex → Regex
  | never => never
  | done => never
  | one accepts => if accepts c then done else never
  | seq first second =>
    let through := andThen (derive c first) second
    if first.acceptsNil then orElse through (derive c second) else through
  | either left right => orElse (derive c left) (derive c right)
  | many inner => andThen (derive c inner) (many inner)

/-- Whether a whole text matches, character by character: after each one, the derivative of the expression says what may
still follow. -/
def accepts (regex : Regex) : Text → Bool
  | [] => regex.acceptsNil
  | c :: rest =>
    match derive c regex with
    | never => false
    | next => accepts next rest

/-- Several expressions one after the other. -/
def inOrder (parts : List Regex) : Regex :=
  parts.foldr seq done

/-- Any of several expressions. -/
def anyOf (choices : List Regex) : Regex :=
  choices.foldr either never

/-- At least once. -/
def some (inner : Regex) : Regex :=
  seq inner (many inner)

/-- Once or not at all. -/
def optional (inner : Regex) : Regex :=
  either inner done

/-- One of the given characters. -/
def oneOf (characters : Text) : Regex :=
  one characters.contains

/-- One character from a range. -/
def range (first last : Char) : Regex :=
  one fun c => first ≤ c && c ≤ last

/-- Exactly the given text. -/
def exactly (text : Text) : Regex :=
  inOrder (text.map fun c => one (· == c))

end Regex

end DirectiveIndex
