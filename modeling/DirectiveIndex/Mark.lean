import DirectiveIndex.Cursor

namespace DirectiveIndex

/-- The words that begin a directive. -/
inductive Keyword where
  | importWord
  | pragmaWord
deriving DecidableEq, Repr

/-- A keyword as it is written. -/
def Keyword.text : Keyword → Text
  | importWord => "import".toList
  | pragmaWord => "pragma".toList

/-- The two kinds of comments: from `/*` to `*/`, and from `//` to the end of the line. -/
inductive CommentKind where
  | block
  | line
deriving DecidableEq, Repr

/-- What begins a comment. -/
def CommentKind.opening : CommentKind → Text
  | block => "/*".toList
  | line => "//".toList

/-- What ends a comment. A line comment leaves its line ending alone. -/
def CommentKind.closing : CommentKind → Pattern
  | block => .literal "*/".toList
  | line => .lineEnd

/-- The two quote marks; a string literal ends at the next mark of the kind that began it. -/
inductive Quote where
  | double
  | single
deriving DecidableEq, Repr

/-- A quote mark as it is written. -/
def Quote.char : Quote → Char
  | double => '"'
  | single => '\x27'

/-- What may begin outside a directive. -/
inductive Opener where
  | keyword (word : Keyword)
  | comment (kind : CommentKind)
  | quote (mark : Quote)
deriving DecidableEq, Repr

/-- What may follow inside a statement. -/
inductive StatementMark where
  | opener (opener : Opener)
  | semicolon
deriving DecidableEq, Repr

/-- What may follow where the name of a pragma is looked for. -/
inductive NameMark where
  | keyword (word : Keyword)
  | comment (kind : CommentKind)
  | semicolon
  | name
deriving DecidableEq, Repr

/-- A keyword as an anchor. -/
def Keyword.anchor (word : Keyword) : Anchor Keyword :=
  ⟨word, .keyword word.text⟩

/-- The beginning of a comment as an anchor. -/
def CommentKind.anchor (kind : CommentKind) : Anchor CommentKind :=
  ⟨kind, .literal kind.opening⟩

/-- A quote mark as an anchor. -/
def Quote.anchor (mark : Quote) : Anchor Quote :=
  ⟨mark, .literal [mark.char]⟩

/-- The end of a statement. -/
def semicolonPattern : Pattern :=
  .literal [';']

/-- The anchors outside directives. -/
def openers : List (Anchor Opener) :=
  [Keyword.importWord, .pragmaWord].map (·.anchor.relabel .keyword) ++
    [CommentKind.block, .line].map (·.anchor.relabel .comment) ++
    [Quote.double, .single].map (·.anchor.relabel .quote)

/-- The anchors inside a statement. -/
def statementMarks : List (Anchor StatementMark) :=
  openers.map (·.relabel .opener) ++ [⟨.semicolon, semicolonPattern⟩]

/-- The anchors where the name of a pragma is looked for: quote marks are none of them. -/
def nameMarks : List (Anchor NameMark) :=
  [Keyword.importWord, .pragmaWord].map (·.anchor.relabel .keyword) ++
    [CommentKind.block, .line].map (·.anchor.relabel .comment) ++
    [⟨.semicolon, semicolonPattern⟩, ⟨.name, .identifier⟩]

theorem openers_consume : ∀ anchor ∈ openers, anchor.pattern.consumes = true := by decide

theorem statementMarks_consume : ∀ anchor ∈ statementMarks, anchor.pattern.consumes = true := by decide

theorem nameMarks_consume : ∀ anchor ∈ nameMarks, anchor.pattern.consumes = true := by decide

namespace Cursor

/-- Moves behind a comment whose opening has just been passed. A comment that is not closed runs to
the end of the source. -/
def skipComment (kind : CommentKind) (cursor : Cursor) : Cursor :=
  (cursor.advance [⟨(), kind.closing⟩]).2

/-- Reads a string literal whose opening quote mark has just been passed. There are no escapes: it
ends at the next quote mark of the same kind, or at the end of the source. -/
def readString (mark : Quote) (cursor : Cursor) : Text × Cursor :=
  match cursor.advance? [mark.anchor] with
  | none => (cursor.rest, cursor.toEnd)
  | some (found, after) => (cursor.textTo found.start, after)

theorem skipComment_rest_le (kind : CommentKind) (cursor : Cursor) :
    (cursor.skipComment kind).rest.length ≤ cursor.rest.length :=
  advance_rest_le _ _

theorem readString_rest_le (mark : Quote) (cursor : Cursor) :
    (cursor.readString mark).2.rest.length ≤ cursor.rest.length := by
  unfold readString
  split
  · simp
  · exact advance?_rest_le ‹_›

end Cursor

end DirectiveIndex
