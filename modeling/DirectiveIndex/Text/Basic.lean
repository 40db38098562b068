namespace DirectiveIndex

/-- A text, character by character: a place in a text is a number of characters passed, and what lies ahead of it is a
suffix of the list. -/
abbrev Text := List Char

namespace Text

/-- Whether one text comes before or at another in the order by code points, in which a proper
beginning comes first. -/
def le : Text → Text → Bool
  | [], _ => true
  | _ :: _, [] => false
  | a :: as, b :: bs => a.toNat < b.toNat || (a == b && le as bs)

/-- Sorts texts by code points; equal texts stay together. -/
def sort (texts : List Text) : List Text :=
  texts.mergeSort le

/-- The texts that occur in a list, each once, in order by code points. -/
def sortDistinct (texts : List Text) : List Text :=
  sort texts.eraseDups

/-- Cuts a text at every occurrence of a character; a text without it is one piece, and the pieces
joined by the character give the text back. -/
def split (separator : Char) : Text → List Text
  | [] => [[]]
  | c :: rest =>
    if c = separator then
      [] :: split separator rest
    else
      match split separator rest with
      | [] => [[c]]
      | piece :: pieces => (c :: piece) :: pieces

/-- Writes texts one after the other with a separator between neighbours. -/
def join (separator : Text) : List Text → Text
  | [] => []
  | [last] => last
  | piece :: pieces => piece ++ separator ++ join separator pieces

/-- Cuts a text at the first occurrence of a character, which is dropped; there is no second part
if the character does not occur. -/
def cutAt (separator : Char) (text : Text) : Text × Option Text :=
  match text.dropWhile (· != separator) with
  | [] => (text, none)
  | _ :: rest => (text.takeWhile (· != separator), some rest)

/-- Every occurrence of one character replaced by another. -/
def replaceChar (old new : Char) (text : Text) : Text :=
  text.map fun c => if c = old then new else c

/-- A natural number in decimal digits. -/
def ofNat (n : Nat) : Text :=
  Nat.toDigits 10 n

/-- An integer in decimal digits, with a sign only if it is negative. -/
def ofInt : Int → Text
  | .ofNat n => ofNat n
  | .negSucc n => '-' :: ofNat (n + 1)

end Text

end DirectiveIndex
