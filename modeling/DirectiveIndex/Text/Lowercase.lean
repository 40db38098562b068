import DirectiveIndex.Text.Casing

namespace DirectiveIndex.Text

/-- Whether the first character that counts for casing has case. -/
def startsCased (text : Text) : Bool :=
  match text.dropWhile (inRanges caseIgnorables) with
  | [] => false
  | c :: _ => inRanges casedRanges c

/-- The lower-case form of a character that is not a capital sigma, by the Unicode standard; that of `İ` has two
characters. -/
def lowerChar (c : Char) : Text :=
  if c = 'İ' then
    ['i', '\u0307']
  else
    match lowerRuns.find? (·.contains c.toNat) with
    | none => [c]
    | some run => [Char.ofNat (c.toNat + run.shift).toNat]

/-- Lower-cases what follows a text; `before` holds that text with its nearest character first. -/
def lowerAfter (before : Text) : Text → Text
  | [] => []
  | c :: rest =>
    let lowered :=
      if c = 'Σ' then
        if startsCased before && !startsCased rest then ['ς'] else ['σ']
      else
        lowerChar c
    lowered ++ lowerAfter (c :: before) rest

/-- A text in lower case. A capital sigma becomes `ς` at the end of a word and `σ` elsewhere. -/
def lower (text : Text) : Text :=
  lowerAfter [] text

end DirectiveIndex.Text
