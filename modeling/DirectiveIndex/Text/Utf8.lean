import DirectiveIndex.Text.Quoted

namespace DirectiveIndex.Utf8

/-- What is wrong with the bytes of a character. -/
inductive Fault where
  | badStart
  | badContinuation
  | truncated
deriving DecidableEq, Repr

/-- A failure to read a character: its first byte, the positions of its first and last byte, and
what is wrong with them. -/
structure DecodeError where
  byte : UInt8
  first : Nat
  last : Nat
  fault : Fault
deriving DecidableEq, Repr

/-- The wording of a fault. -/
def Fault.message : Fault → Text
  | .badStart => "invalid start byte".toList
  | .badContinuation => "invalid continuation byte".toList
  | .truncated => "unexpected end of data".toList

/-- The wording of a failure. -/
def DecodeError.message (e : DecodeError) : Text :=
  let place :=
    if e.first = e.last then
      "byte 0x".toList ++ Text.hex 2 e.byte.toNat ++ " in position ".toList ++ Text.ofNat e.first
    else
      "bytes in position ".toList ++ Text.ofNat e.first ++ ['-'] ++ Text.ofNat e.last
  "'utf-8' codec can't decode ".toList ++ place ++ [':', ' '] ++ e.fault.message

/-- A character of which some bytes have been read: its first byte and that byte's position, the
number that its bits give so far, how many bytes follow the next one, and the range from which the
next one must come. The range is narrower than 80 to BF where a wider one would admit a second form
of a character, a surrogate or a number beyond U+10FFFF. -/
structure Partial where
  byte : UInt8
  start : Nat
  value : Nat
  more : Nat
  low : UInt8
  high : UInt8

/-- The character that a byte above 7F begins, if it can begin one. -/
def Partial.begin? (b : UInt8) (position : Nat) : Option Partial :=
  if 0xC2 ≤ b && b ≤ 0xDF then some ⟨b, position, b.toNat - 0xC0, 0, 0x80, 0xBF⟩
  else if b == 0xE0 then some ⟨b, position, 0, 1, 0xA0, 0xBF⟩
  else if b == 0xED then some ⟨b, position, 0xD, 1, 0x80, 0x9F⟩
  else if 0xE1 ≤ b && b ≤ 0xEF then some ⟨b, position, b.toNat - 0xE0, 1, 0x80, 0xBF⟩
  else if b == 0xF0 then some ⟨b, position, 0, 2, 0x90, 0xBF⟩
  else if b == 0xF4 then some ⟨b, position, 4, 2, 0x80, 0x8F⟩
  else if 0xF1 ≤ b && b ≤ 0xF3 then some ⟨b, position, b.toNat - 0xF0, 2, 0x80, 0xBF⟩
  else none

/-- Reads bytes from a position on, either between characters or inside one. -/
def decodeFrom (position : Nat) : Option Partial → List UInt8 → Except DecodeError Text
  | none, [] => .ok []
  | some p, [] => .error ⟨p.byte, p.start, position - 1, .truncated⟩
  | none, b :: rest =>
    if b < 0x80 then
      (decodeFrom (position + 1) none rest).map (Char.ofNat b.toNat :: ·)
    else
      match Partial.begin? b position with
      | none => .error ⟨b, position, position, .badStart⟩
      | some p => decodeFrom (position + 1) (some p) rest
  | some p, b :: rest =>
    if p.low ≤ b && b ≤ p.high then
      let value := p.value * 64 + (b.toNat - 0x80)
      match p.more with
      | 0 => (decodeFrom (position + 1) none rest).map (Char.ofNat value :: ·)
      | more + 1 => decodeFrom (position + 1) (some ⟨p.byte, p.start, value, more, 0x80, 0xBF⟩) rest
    else
      .error ⟨p.byte, p.start, position - 1, .badContinuation⟩

/-- The text that bytes stand for. -/
def decode (bytes : List UInt8) : Except DecodeError Text :=
  decodeFrom 0 none bytes

/-- The bytes of a text. -/
def encode (text : Text) : List UInt8 :=
  text.flatMap String.utf8EncodeChar

/-- The bytes of U+FEFF, which may mark the start of a file. -/
def byteOrderMark : List UInt8 :=
  [0xEF, 0xBB, 0xBF]

/-- The text of a file, without one byte order mark at its start; positions in a failure count from
after it. A file that is nothing but the beginning of the mark holds no text. -/
def decodeFile (bytes : List UInt8) : Except DecodeError Text :=
  if byteOrderMark.isPrefixOf bytes then
    decode (bytes.drop byteOrderMark.length)
  else if bytes.isPrefixOf byteOrderMark then
    .ok []
  else
    decode bytes

/-- Every line ending of a text written as a line feed: a carriage return alone or before a line
feed ends a line too. -/
def unifyLineEndings : Text → Text
  | [] => []
  | '\r' :: '\n' :: rest => '\n' :: unifyLineEndings rest
  | c :: rest => (if c = '\r' then '\n' else c) :: unifyLineEndings rest

end DirectiveIndex.Utf8
