import DirectiveIndex.Text.Range

namespace DirectiveIndex.Text

/-- The white space characters: those that the Unicode standard lists as spaces and line breaks, and the information
separators U+001C to U+001F. -/
def blanks : List Range :=
  [⟨0x09, 0x0D⟩, ⟨0x1C, 0x20⟩, ⟨0x85, 0x85⟩, ⟨0xA0, 0xA0⟩, ⟨0x1680, 0x1680⟩, ⟨0x2000, 0x200A⟩,
   ⟨0x2028, 0x2029⟩, ⟨0x202F, 0x202F⟩, ⟨0x205F, 0x205F⟩, ⟨0x3000, 0x3000⟩]

/-- Whether a character is white space. -/
def isBlank (c : Char) : Bool :=
  inRanges blanks c

/-- A text without the white space at its end. -/
def stripRight (text : Text) : Text :=
  (text.reverse.dropWhile isBlank).reverse

/-- A text without the white space at both ends. -/
def strip (text : Text) : Text :=
  stripRight (text.dropWhile isBlank)

end DirectiveIndex.Text
