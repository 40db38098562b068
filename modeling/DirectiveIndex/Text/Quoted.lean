import DirectiveIndex.Text.Printable

namespace DirectiveIndex.Text

/-- A number in exactly `width` lower-case hexadecimal digits. -/
def hex (width n : Nat) : Text :=
  let digits := Nat.toDigits 16 n
  List.replicate (width - digits.length) '0' ++ digits

/-- A number in exactly `width` upper-case hexadecimal digits. -/
def hexUpper (width n : Nat) : Text :=
  (hex width n).map Char.toUpper

/-- A character inside a quoted text. -/
def quoteChar (quote c : Char) : Text :=
  if c = quote || c = '\\' then ['\\', c]
  else if c = '\t' then ['\\', 't']
  else if c = '\n' then ['\\', 'n']
  else if c = '\r' then ['\\', 'r']
  else if isPrintable c then [c]
  else if c.toNat ≤ 0xFF then '\\' :: 'x' :: hex 2 c.toNat
  else if c.toNat ≤ 0xFFFF then '\\' :: 'u' :: hex 4 c.toNat
  else '\\' :: 'U' :: hex 8 c.toNat

/-- A text in quotes, as messages show it: in double quotes if it holds a single quote and no double one, and else in
single quotes. -/
def quoted (text : Text) : Text :=
  let quote := if '\x27' ∈ text ∧ '"' ∉ text then '"' else '\x27'
  quote :: text.flatMap (quoteChar quote) ++ [quote]

end DirectiveIndex.Text
