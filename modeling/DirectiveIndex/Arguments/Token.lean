import DirectiveIndex.Arguments.Error
import DirectiveIndex.Text.Digit
import DirectiveIndex.Text.Regex

namespace DirectiveIndex

/-- What stands behind the letter or the word of a switch in the same argument. -/
inductive Tail where
  | nothing
  /-- A text behind an equals sign. -/
  | value (text : Text)
  /-- A text, not empty, right behind a letter: a value, or more letters. -/
  | bundle (first : Char) (rest : Text)
deriving DecidableEq, Repr

/-- How many characters stand behind the letter or the word. -/
def Tail.length : Tail → Nat
  | nothing => 0
  | value text => text.length + 1
  | bundle _ rest => rest.length + 1

/-- What an argument is by itself. -/
inductive Token where
  | plain (text : Text)
  | short (switch : Switch) (tail : Tail)
  | long (switch : Switch) (value? : Option Text)
  /-- An argument that looks like a switch and is none. -/
  | unknown (text : Text)
  /-- The two dashes behind which every argument is a value. -/
  | separator
deriving DecidableEq, Repr

namespace Token

/-- The two dashes. -/
def separatorText : Text := ['-', '-']

/-- Negative numbers, with a point or without, perhaps with a line feed at the end. -/
def negativeNumber : Regex :=
  let digit := Regex.one Text.isDigit
  Regex.inOrder
    [Regex.oneOf ['-'],
      Regex.either (Regex.some digit)
        (Regex.inOrder [Regex.many digit, Regex.oneOf ['.'], Regex.some digit]),
      Regex.optional (Regex.oneOf ['\n'])]

/-- What an argument is that starts with a dash and names no switch: negative numbers and texts with a
space are values. -/
def ofUnknown (argument : Text) : Token :=
  if negativeNumber.accepts argument || argument.contains ' ' then .plain argument else .unknown argument

/-- What an argument with two dashes and a word is. The word may be abbreviated as long as only one switch fits. -/
def ofLong (argument body : Text) : Except ArgumentError Token :=
  match Switch.ofWord? body with
  | some switch => .ok (.long switch none)
  | none =>
    let (word, value?) := Text.cutAt '=' body
    match (if value?.isSome then Switch.ofWord? word else none) with
    | some switch => .ok (.long switch value?)
    | none =>
      match Switch.all.filter fun switch => word.isPrefixOf switch.word with
      | [] => .ok (ofUnknown argument)
      | [switch] => .ok (.long switch value?)
      | candidates => .error (.ambiguous argument candidates)

/-- What stands behind a letter. -/
def tailOf : Text → Tail
  | [] => .nothing
  | '=' :: value => .value value
  | first :: rest => .bundle first rest

@[simp]
theorem length_tailOf (text : Text) : (tailOf text).length = text.length := by
  unfold tailOf
  split <;> rfl

/-- What an argument is by itself. -/
def ofArgument (argument : Text) : Except ArgumentError Token :=
  match argument with
  | '-' :: '-' :: body => ofLong argument body
  | '-' :: letter :: rest =>
    match Switch.ofLetter? letter with
    | some switch => .ok (.short switch (tailOf rest))
    | none => .ok (ofUnknown argument)
  | _ => .ok (.plain argument)

/-- What the arguments of a command line are, in order. -/
def ofArguments : List Text → Except ArgumentError (List Token)
  | [] => .ok []
  | argument :: arguments =>
    if argument = separatorText then
      .ok (.separator :: arguments.map .plain)
    else do
      let token ← ofArgument argument
      return token :: (← ofArguments arguments)

end Token

end DirectiveIndex
