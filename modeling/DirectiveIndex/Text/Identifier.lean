import DirectiveIndex.Text.Basic

namespace DirectiveIndex.Text

/-- Letters and digits of ASCII, the underscore and the dollar sign. -/
def isIdentifier (c : Char) : Bool :=
  c.isAlphanum || c == '_' || c == '$'

end DirectiveIndex.Text
