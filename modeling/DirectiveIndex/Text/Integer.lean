import DirectiveIndex.Text.Blank
import DirectiveIndex.Text.Digit

namespace DirectiveIndex.Text

/-- The greatest number of digits of a written integer. -/
def maxDigits : Nat := 4300

/-- White space that may surround an integer: the information separators are no part of it. -/
def isIntegerBlank (c : Char) : Bool :=
  isBlank c && !(0x1C ≤ c.toNat && c.toNat ≤ 0x1F)

/-- The value of digits, the most significant first. -/
def ofDigits (digits : List Nat) : Nat :=
  digits.foldl (fun value digit => value * 10 + digit) 0

/-- Reads a number without a sign: digits of any script, perhaps with single underscores between them. -/
def readNat? (text : Text) : Option Nat := do
  let groups := split '_' text
  let digits ← (groups.flatten.mapM digitValue?)
  if groups.any List.isEmpty || digits.length > maxDigits then none else some (ofDigits digits)

/-- Reads an integer. -/
def readInt? (text : Text) : Option Int :=
  let trimmed := ((text.dropWhile isIntegerBlank).reverse.dropWhile isIntegerBlank).reverse
  match trimmed with
  | '-' :: rest => (readNat? rest).map fun n => -(n : Int)
  | '+' :: rest => (readNat? rest).map fun n => (n : Int)
  | rest => (readNat? rest).map fun n => (n : Int)

end DirectiveIndex.Text
