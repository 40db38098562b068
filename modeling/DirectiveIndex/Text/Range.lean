import DirectiveIndex.Text.Basic

namespace DirectiveIndex.Text

/-- The code points from `first` to `last`, both included. -/
structure Range where
  first : Nat
  last : Nat

/-- Whether a code point lies in a range. -/
def Range.contains (range : Range) (code : Nat) : Bool :=
  range.first ≤ code && code ≤ range.last

/-- Whether a character lies in one of several ranges. -/
def inRanges (ranges : List Range) (c : Char) : Bool :=
  ranges.any (·.contains c.toNat)

end DirectiveIndex.Text
