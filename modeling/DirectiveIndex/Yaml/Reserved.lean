import DirectiveIndex.Text.Regex

namespace DirectiveIndex.Yaml

open Regex

/-- The texts that stand for nothing, and the signs for a default value and for merging. -/
def reservedSigns : List Text :=
  ["", "~", "null", "Null", "NULL", "=", "<<"].map String.toList

/-- The texts that stand for truth values: each word in lower case, capitalised and in upper case. -/
def truthWords : List Text :=
  ["yes", "Yes", "YES", "no", "No", "NO", "true", "True", "TRUE", "false", "False", "FALSE", "on", "On",
    "ON", "off", "Off", "OFF"].map String.toList

/-- An ASCII digit. -/
def digit : Regex :=
  range '0' '9'

/-- A digit or an underscore. -/
def spacedDigit : Regex :=
  oneOf "0123456789_".toList

/-- A sign, or none. -/
def sign : Regex :=
  optional (oneOf "+-".toList)

/-- The places of a number to the base sixty that follow its first one. -/
def sixties : Regex :=
  Regex.some (inOrder [oneOf [':'], optional (range '0' '5'), digit])

/-- A decimal exponent, or none. -/
def exponent : Regex :=
  optional (inOrder [oneOf "eE".toList, oneOf "+-".toList, Regex.some digit])

/-- Integers to the bases two, eight, ten, sixteen and sixty. -/
def integer : Regex :=
  anyOf
    [inOrder [sign, exactly "0b".toList, Regex.some (oneOf "01_".toList)],
      inOrder [sign, exactly "0".toList, Regex.some (oneOf "01234567_".toList)],
      inOrder [sign, either (exactly "0".toList) (seq (range '1' '9') (many spacedDigit))],
      inOrder [sign, exactly "0x".toList, Regex.some (oneOf "0123456789abcdefABCDEF_".toList)],
      inOrder [sign, range '1' '9', many spacedDigit, sixties]]

/-- Numbers with a point, the infinities, and what is no number. -/
def decimal : Regex :=
  anyOf
    [inOrder [sign, digit, many spacedDigit, oneOf ['.'], many spacedDigit, exponent],
      inOrder [oneOf ['.'], digit, many spacedDigit, exponent],
      inOrder [sign, digit, many spacedDigit, sixties, oneOf ['.'], many spacedDigit],
      inOrder [sign, oneOf ['.'], anyOf (["inf", "Inf", "INF"].map (exactly ·.toList))],
      inOrder [oneOf ['.'], anyOf (["nan", "NaN", "NAN"].map (exactly ·.toList))]]

/-- One digit or two. -/
def oneOrTwoDigits : Regex :=
  seq digit (optional digit)

/-- Exactly two digits. -/
def twoDigits : Regex :=
  seq digit digit

/-- Spaces and tabulators, or none. -/
def gap : Regex :=
  many (oneOf [' ', '\t'])

/-- A distance from universal time. -/
def zone : Regex :=
  either (oneOf ['Z'])
    (inOrder [oneOf "+-".toList, oneOrTwoDigits, optional (seq (oneOf [':']) twoDigits)])

/-- Days, and times of a day. -/
def time : Regex :=
  let year := seq twoDigits twoDigits
  let dash := oneOf ['-']
  let colon := oneOf [':']
  either (inOrder [year, dash, twoDigits, dash, twoDigits])
    (inOrder
      [year, dash, oneOrTwoDigits, dash, oneOrTwoDigits,
        either (oneOf ['T', 't']) (Regex.some (oneOf [' ', '\t'])),
        oneOrTwoDigits, colon, twoDigits, colon, twoDigits,
        optional (seq (oneOf ['.']) (many digit)),
        optional (seq gap zone)])

/-- Whether a text without quotes is read as something else than a string: as nothing, a truth value, a number, a
time, or a sign with a meaning of its own. -/
def isReserved (text : Text) : Bool :=
  reservedSigns.contains text || truthWords.contains text || integer.accepts text ||
    decimal.accepts text || time.accepts text

end DirectiveIndex.Yaml
