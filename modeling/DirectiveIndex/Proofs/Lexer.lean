import DirectiveIndex.Mark

namespace DirectiveIndex

/-- What may begin at a place outside comments and string literals. -/
inductive Sign where
  | keyword (word : Keyword)
  | comment (kind : CommentKind)
  | quote (mark : Quote)
  | semicolon
  | identifier
deriving DecidableEq, Repr

namespace Sign

/-- All signs; a keyword takes precedence over the identifier characters that it is made of. -/
def all : List Sign :=
  [.keyword .importWord, .keyword .pragmaWord, .comment .block, .comment .line,
   .quote .double, .quote .single, .semicolon, .identifier]

/-- Whether the sign begins at a place; a keyword must be a whole word. -/
def beginsAt (place : Cursor) : Sign → Bool
  | .keyword word =>
    word.text.isPrefixOf place.rest && !place.last?.any Text.isIdentifier &&
      !Pattern.startsIdentifier (place.rest.drop word.text.length)
  | .comment kind => kind.opening.isPrefixOf place.rest
  | .quote mark => [mark.char].isPrefixOf place.rest
  | .semicolon => [';'].isPrefixOf place.rest
  | .identifier => Pattern.startsIdentifier place.rest

end Sign

namespace Cursor

/-- The identifier characters from the place on. -/
def word (place : Cursor) : Text :=
  place.rest.takeWhile Text.isIdentifier

/-- What begins at the place, if it lies outside comments and string literals. -/
def sign? (place : Cursor) : Option Sign :=
  Sign.all.find? (·.beginsAt place)

/-- Whether a line ending, with or without a carriage return, is ahead. -/
def atLineEnd (place : Cursor) : Bool :=
  ['\n'].isPrefixOf place.rest || ['\r', '\n'].isPrefixOf place.rest

end Cursor

/-- The state of the lexer before a character. `opening` and `closing` stand between the two
characters of a comment's opening and of a block comment's end; a string literal carries the text
read so far. -/
inductive Lexer where
  | code
  | opening (kind : CommentKind)
  | comment (kind : CommentKind)
  | closing
  | string (mark : Quote) (content : Text)
deriving DecidableEq, Repr

namespace Lexer

/-- The state that counts at a place: a line comment is over just before the line ending. -/
def settle (place : Cursor) : Lexer → Lexer
  | .comment .line => if place.atLineEnd then .code else .comment .line
  | lexer => lexer

/-- The state behind the first character of a sign met outside comments and string literals. -/
def enter : Option Sign → Lexer
  | some (.comment kind) => .opening kind
  | some (.quote mark) => .string mark []
  | _ => .code

/-- The state behind the next character. -/
def step (lexer : Lexer) (place : Cursor) : Lexer :=
  match place.rest with
  | [] => lexer
  | c :: _ =>
    match lexer.settle place with
    | .code => enter place.sign?
    | .opening kind => .comment kind
    | .comment .block => if "*/".toList.isPrefixOf place.rest then .closing else .comment .block
    | .comment .line => .comment .line
    | .closing => .code
    | .string mark content => if c = mark.char then .code else .string mark (content ++ [c])

/-- The kind of the open string literal. -/
def mark? : Lexer → Option Quote
  | .string mark _ => some mark
  | _ => none

/-- Settling ends line comments and nothing else. -/
theorem settle_eq_or (lexer : Lexer) (place : Cursor) :
    lexer.settle place = lexer ∨ lexer = .comment .line ∧ lexer.settle place = .code := by
  unfold settle
  split
  · split
    · exact .inr ⟨rfl, rfl⟩
    · exact .inl rfl
  · exact .inl rfl

/-- What settles on anything but code has been so before. -/
theorem settle_eq_self {lexer : Lexer} {place : Cursor} (hcode : lexer.settle place ≠ .code) :
    lexer.settle place = lexer :=
  (settle_eq_or lexer place).resolve_right fun h => hcode h.2

/-- In code, a step enters what begins. -/
theorem step_of_code {lexer : Lexer} {last? : Option Char} {offset : Nat} {c : Char} {rest : Text}
    (hcode : lexer.settle ⟨last?, offset, c :: rest⟩ = .code) :
    lexer.step ⟨last?, offset, c :: rest⟩ = enter (Cursor.sign? ⟨last?, offset, c :: rest⟩) := by
  simp only [step, hcode]

/-- A string literal opens outside comments only. -/
theorem mark?_step {lexer : Lexer} {place : Cursor} (hcode : lexer.settle place ≠ .code)
    (hmark : lexer.mark? = none) : (lexer.step place).mark? = none := by
  unfold step
  split
  · exact hmark
  · split
    · contradiction
    · rfl
    · split <;> rfl
    · rfl
    · rfl
    · rename_i hstring
      rw [← settle_eq_self hcode, hstring] at hmark
      cases hmark

end Lexer

/-- The place in a source behind its first `p` characters. -/
def placeAt (source : Text) (p : Nat) : Cursor :=
  (Cursor.ofText source).skip p

/-- The state of the plain lexer behind the first `p` characters of a source. -/
def lexerAt (source : Text) : Nat → Lexer
  | 0 => .code
  | p + 1 => (lexerAt source p).step (placeAt source p)

end DirectiveIndex
