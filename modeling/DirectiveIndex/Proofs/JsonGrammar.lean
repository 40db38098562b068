import DirectiveIndex.Proofs.Hexadecimals
import DirectiveIndex.Text.Regex

namespace DirectiveIndex.Json

/-- A JSON value as it is read. -/
inductive Value where
  | null
  | boolean (truth : Bool)
  | number (digits : Text)
  | string (codes : List Nat)
  | array (items : List Value)
  | object (members : List (List Nat × Value))

/-- The characters that may stand around tokens. -/
def isBlank (c : Char) : Bool :=
  c == ' ' || c == '\t' || c == '\n' || c == '\r'

/-- Whether a text may stand around tokens. -/
def IsGap (text : Text) : Prop :=
  ∀ c ∈ text, isBlank c = true

/-- Numbers: a sign or none, digits without needless zeros, and perhaps a fraction and an exponent. -/
def numberForm : Regex :=
  let digit := Regex.range '0' '9'
  .inOrder
    [.optional (.oneOf ['-']), .either (.exactly ['0']) (.seq (.range '1' '9') (.many digit)),
      .optional (.seq (.oneOf ['.']) (.some digit)),
      .optional (.inOrder [.oneOf ['e', 'E'], .optional (.oneOf ['+', '-']), .some digit])]

/-- The characters that stand for others behind a backslash. -/
def escapes : List (Char × Char) :=
  [('"', '"'), ('\\', '\\'), ('/', '/'), ('b', '\x08'), ('f', '\x0c'), ('n', '\n'), ('r', '\r'), ('t', '\t')]

/-- Whether what stands between the quotes of a string denotes some units: a code point for each character that stands
for itself or behind a backslash, and the number given by each escape in four digits. -/
inductive DenotesUnits : Text → List Nat → Prop where
  | nil : DenotesUnits [] []
  | plain {c : Char} {body : Text} {units : List Nat} (hcontrol : 0x20 ≤ c.toNat) (hquote : c ≠ '"')
      (hbackslash : c ≠ '\\') (hrest : DenotesUnits body units) : DenotesUnits (c :: body) (c.toNat :: units)
  | letter {letter c : Char} {body : Text} {units : List Nat} (hletter : escapes.lookup letter = some c)
      (hrest : DenotesUnits body units) : DenotesUnits ('\\' :: letter :: body) (c.toNat :: units)
  | code {digits body : Text} {unit : Nat} {units : List Nat} (hlength : digits.length = 4)
      (hdigits : Text.ofHex? digits = some unit) (hrest : DenotesUnits body units) :
      DenotesUnits ('\\' :: 'u' :: (digits ++ body)) (unit :: units)

/-- The first half of a surrogate pair. -/
def isHighSurrogate (unit : Nat) : Bool :=
  0xD800 ≤ unit && unit ≤ 0xDBFF

/-- The second half of a surrogate pair. -/
def isLowSurrogate (unit : Nat) : Bool :=
  0xDC00 ≤ unit && unit ≤ 0xDFFF

/-- The code points of a string: halves of a surrogate pair are joined where they follow each other. -/
def joinPairs : List Nat → List Nat
  | high :: low :: units =>
    if isHighSurrogate high && isLowSurrogate low then
      (0x10000 + (high - 0xD800) * 0x400 + (low - 0xDC00)) :: joinPairs units
    else
      high :: joinPairs (low :: units)
  | units => units

mutual

/-- Whether a text denotes a value. -/
inductive Denotes : Text → Value → Prop where
  | null : Denotes "null".toList .null
  | yes : Denotes "true".toList (.boolean true)
  | no : Denotes "false".toList (.boolean false)
  | number {digits : Text} (h : numberForm.accepts digits = true) : Denotes digits (.number digits)
  | string {body : Text} {units : List Nat} (h : DenotesUnits body units) :
      Denotes ('"' :: (body ++ ['"'])) (.string (joinPairs units))
  | emptyArray {gap : Text} (h : IsGap gap) : Denotes ('[' :: (gap ++ [']'])) (.array [])
  | array {text : Text} {items : List Value} (h : DenotesItems text items) :
      Denotes ('[' :: (text ++ [']'])) (.array items)
  | emptyObject {gap : Text} (h : IsGap gap) : Denotes ('\x7b' :: (gap ++ ['\x7d'])) (.object [])
  | object {text : Text} {members : List (List Nat × Value)} (h : DenotesMembers text members) :
      Denotes ('\x7b' :: (text ++ ['\x7d'])) (.object members)

/-- Whether a text denotes a value, blanks around it left aside. -/
inductive DenotesSpaced : Text → Value → Prop where
  | spaced {before text after : Text} {value : Value} (hbefore : IsGap before) (h : Denotes text value)
      (hafter : IsGap after) : DenotesSpaced (before ++ (text ++ after)) value

/-- Whether what stands between the brackets of an array denotes some items. -/
inductive DenotesItems : Text → List Value → Prop where
  | last {text : Text} {value : Value} (h : DenotesSpaced text value) : DenotesItems text [value]
  | more {text texts : Text} {value : Value} {values : List Value} (h : DenotesSpaced text value)
      (hrest : DenotesItems texts values) : DenotesItems (text ++ ',' :: texts) (value :: values)

/-- Whether a text denotes a member of an object: a string, a colon and a value. -/
inductive DenotesMember : Text → List Nat × Value → Prop where
  | member {before body after text : Text} {units : List Nat} {value : Value} (hbefore : IsGap before)
      (hkey : DenotesUnits body units) (hafter : IsGap after) (h : DenotesSpaced text value) :
      DenotesMember (before ++ '"' :: (body ++ '"' :: (after ++ ':' :: text))) (joinPairs units, value)

/-- Whether what stands between the braces of an object denotes some members. -/
inductive DenotesMembers : Text → List (List Nat × Value) → Prop where
  | last {text : Text} {member : List Nat × Value} (h : DenotesMember text member) : DenotesMembers text [member]
  | more {text texts : Text} {member : List Nat × Value} {members : List (List Nat × Value)}
      (h : DenotesMember text member) (hrest : DenotesMembers texts members) :
      DenotesMembers (text ++ ',' :: texts) (member :: members)

end

end DirectiveIndex.Json
