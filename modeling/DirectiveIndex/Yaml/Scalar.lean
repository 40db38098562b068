import DirectiveIndex.Text.Quoted
import DirectiveIndex.Yaml.Reserved

namespace DirectiveIndex.Yaml

/-- The line breaks of YAML, the carriage return left aside. -/
def isBreak (c : Char) : Bool :=
  c == '\n' || c == '\u0085' || c == '\u2028' || c == '\u2029'

/-- What may set off a sign from its neighbours. -/
def isGap (c : Char) : Bool :=
  c == '\x00' || c == ' ' || c == '\t' || c == '\r' || isBreak c

/-- Whether a character may stand in a scalar without an escape. -/
def isPlainCharacter (c : Char) : Bool :=
  let code := c.toNat
  c == '\n' || (0x20 ≤ code && code ≤ 0x7E) || code == 0x85 || (0xA0 ≤ code && code ≤ 0xD7FF) ||
    (0xE000 ≤ code && code ≤ 0xFFFD && code != 0xFEFF) || (0x10000 ≤ code && code ≤ 0x10FFFE)

/-- The signs that cannot begin a plain scalar. -/
def indicators : Text :=
  "#,[]\x7b\x7d&*!|>'\"%@`".toList

/-- Whether what follows sets off the sign before it. -/
def isSetOff (rest : Text) : Bool :=
  rest.head?.all isGap

/-- Whether the beginning of a text would be taken for a sign of the format. -/
def startsWithIndicator : Text → Bool
  | [] => false
  | c :: rest =>
    "---".toList.isPrefixOf (c :: rest) || "...".toList.isPrefixOf (c :: rest) || indicators.contains c ||
      ((c == '?' || c == '-') && isSetOff rest)

/-- Whether a colon or a number sign inside a text would be taken for a sign of the format, given the
character before the text. -/
def holdsIndicator (previous? : Option Char) : Text → Bool
  | [] => false
  | c :: rest =>
    (c == ':' && isSetOff rest) || (c == '#' && previous?.any isGap) || holdsIndicator (some c) rest

/-- Whether two neighbouring characters of a text are related. -/
def holdsPair (related : Char → Char → Bool) : Text → Bool
  | a :: b :: rest => related a b || holdsPair related (b :: rest)
  | _ => false

/-- Whether a text needs escapes: it holds a character that may not stand for itself, or spaces beside
a line break. -/
def needsEscapes (text : Text) : Bool :=
  text.any (!isPlainCharacter ·) || holdsPair (fun a b => isBreak a && b == ' ') text ||
    holdsPair (fun a b => a == ' ' && isBreak b) text

/-- Whether a character is lost at the end of a plain scalar. -/
def isEdge (c : Char) : Bool :=
  c == ' ' || isBreak c

/-- Whether a text can be written without quotes. -/
def isPlain (text : Text) : Bool :=
  !startsWithIndicator text && !holdsIndicator none text && !needsEscapes text && !text.any isBreak &&
    !text.head?.any isEdge && !text.getLast?.any isEdge && !isReserved text

/-- Where a scalar stands: the column at which it begins, the indentation of its further lines, and
whether it may have any. -/
structure Margin where
  column : Nat
  indent : Nat
  folds : Bool
deriving DecidableEq, Repr

namespace Margin

/-- The column behind which lines are folded, at a lone space or, in double quotes, anywhere. -/
def width : Nat := 80

/-- The margin further to the right. -/
def advance (margin : Margin) (n : Nat) : Margin :=
  { margin with column := margin.column + n }

/-- The margin at a column of a new line. -/
def newLine (margin : Margin) (column : Nat) : Margin :=
  { margin with column := column }

/-- The spaces before a further line. -/
def spaces (margin : Margin) : Text :=
  List.replicate margin.indent ' '

end Margin

/-- Whether a space stands alone between characters that are no spaces. -/
def isLoneSpace (previous? : Option Char) (rest : Text) : Bool :=
  previous? != some ' ' && rest.head? != some ' '

/-- Writes the rest of a plain scalar, given the character before it. -/
def writePlain (margin : Margin) (previous? : Option Char) : Text → Text
  | [] => []
  | c :: rest =>
    if c = ' ' ∧ isLoneSpace previous? rest ∧ margin.folds ∧ margin.column > Margin.width then
      '\n' :: margin.spaces ++ writePlain (margin.newLine margin.indent) (some c) rest
    else
      c :: writePlain (margin.advance 1) (some c) rest

/-- Writes the rest of a scalar in single quotes, given the character before it. A quote is written
twice; a run of line breaks begins with one more if it begins with a line feed, and ends with the
indentation of the next line. -/
def writeSingle (margin : Margin) (previous? : Option Char) : Text → Text
  | [] => []
  | c :: rest =>
    if c = ' ' ∧ isLoneSpace previous? rest ∧ previous?.isSome ∧ !rest.isEmpty ∧ margin.folds ∧
        margin.column > Margin.width then
      '\n' :: margin.spaces ++ writeSingle (margin.newLine margin.indent) (some c) rest
    else if isBreak c then
      let extra := if c = '\n' ∧ !previous?.any isBreak then ['\n'] else []
      if rest.head?.any isBreak then
        extra ++ c :: writeSingle (margin.newLine 0) (some c) rest
      else
        extra ++ c :: margin.spaces ++ writeSingle (margin.newLine margin.indent) (some c) rest
    else if c = '\x27' then
      '\x27' :: '\x27' :: writeSingle (margin.advance 2) (some c) rest
    else
      c :: writeSingle (margin.advance 1) (some c) rest

/-- The escape of a character in double quotes, if it needs one. -/
def escape? (c : Char) : Option Text :=
  let code := c.toNat
  if c = '"' ∨ c = '\\' then some ['\\', c]
  else if code = 0x85 then some ['\\', 'N']
  else if code = 0x2028 then some ['\\', 'L']
  else if code = 0x2029 then some ['\\', 'P']
  else if code ≠ 0xFEFF ∧
      (0x20 ≤ code ∧ code ≤ 0x7E ∨ 0xA0 ≤ code ∧ code ≤ 0xD7FF ∨ 0xE000 ≤ code ∧ code ≤ 0xFFFD) then
    none
  else if code = 0 then some ['\\', '0']
  else if code = 7 then some ['\\', 'a']
  else if code = 8 then some ['\\', 'b']
  else if code = 9 then some ['\\', 't']
  else if code = 10 then some ['\\', 'n']
  else if code = 11 then some ['\\', 'v']
  else if code = 12 then some ['\\', 'f']
  else if code = 13 then some ['\\', 'r']
  else if code = 0x1B then some ['\\', 'e']
  else if code ≤ 0xFF then some ('\\' :: 'x' :: Text.hexUpper 2 code)
  else if code ≤ 0xFFFF then some ('\\' :: 'u' :: Text.hexUpper 4 code)
  else some ('\\' :: 'U' :: Text.hexUpper 8 code)

/-- The end of a line in double quotes: a backslash, and before the next line's first character, if
that is a space, another one. -/
def foldDouble (margin : Margin) (next? : Option Char) : Text × Margin :=
  if next? = some ' ' then
    ('\\' :: '\n' :: margin.spaces ++ ['\\'], margin.newLine (margin.indent + 1))
  else
    ('\\' :: '\n' :: margin.spaces, margin.newLine margin.indent)

/-- Writes the rest of a scalar in double quotes. The characters in `held` come before the rest and are
not written yet, so that a line can still end before them; `isFirst` tells whether the rest begins
the scalar. Neither the first nor the last character ends a line. -/
def writeDouble (margin : Margin) (isFirst : Bool) (held : Text) : Text → Text
  | [] => held
  | c :: rest =>
    let mayFold := margin.folds && !isFirst && !rest.isEmpty
    match escape? c with
    | some escaped =>
      let written := held ++ escaped
      let margin := margin.advance written.length
      if mayFold ∧ margin.column > Margin.width + 1 then
        let (fold, margin) := foldDouble margin rest.head?
        written ++ fold ++ writeDouble margin false [] rest
      else
        written ++ writeDouble margin false [] rest
    | none =>
      if mayFold ∧ (c = ' ' ∨ held = []) ∧ margin.column + held.length > Margin.width then
        let (fold, margin) := foldDouble margin (some c)
        held ++ fold ++ writeDouble margin false [c] rest
      else
        writeDouble margin false (held ++ [c]) rest

/-- Writes a text as a scalar: without quotes if it can be read back so, in single quotes if it needs no escapes, and
else in double quotes. -/
def writeScalar (margin : Margin) (text : Text) : Text :=
  if isPlain text then
    writePlain margin none text
  else if needsEscapes text then
    '"' :: writeDouble (margin.advance 1) true [] text ++ ['"']
  else
    '\x27' :: writeSingle (margin.advance 1) none text ++ ['\x27']

end DirectiveIndex.Yaml
