import DirectiveIndex.Mark
import DirectiveIndex.Record

namespace DirectiveIndex

/-- The outcome of reading a clause: its directive, unless an import finds no path; the directives
begun by keywords that cut a pragma short, in source order; and the place where reading stopped. -/
structure Clause where
  directive? : Option Directive
  followers : List Directive
  after : Cursor

/-- All directives of a clause, in source order. -/
def Clause.directives (clause : Clause) : List Directive :=
  clause.directive?.toList ++ clause.followers

/-- The outcome of reading a pragma from behind its name: the value, the end of the pragma, and what
the keyword that cut it short has begun. -/
structure PragmaTail where
  value : Text
  stop : Nat
  followers : List Directive
  after : Cursor

mutual

/-- Reads the clause of a keyword that begins at `start` and has just been passed. -/
def readClause (word : Keyword) (start : Nat) (cursor : Cursor) : Clause :=
  match word with
  | .importWord => readImport start cursor
  | .pragmaWord => readPragma start cursor
termination_by (cursor.rest.length, 1)

/-- Reads an import up to its first string literal. Everything before it is skipped, except that a
directive keyword means the import was incomplete, and takes its place. -/
def readImport (start : Nat) (cursor : Cursor) : Clause :=
  match _found : cursor.advance? openers with
  | none => ⟨none, [], cursor.toEnd⟩
  | some (⟨.keyword word, wordStart, _⟩, next) => readClause word wordStart next
  | some (⟨.comment kind, _, _⟩, next) => readImport start (next.skipComment kind)
  | some (⟨.quote mark, _, _⟩, next) =>
    let (path, after) := next.readString mark
    ⟨some (.imported path ⟨start, after.offset⟩), [], after⟩
termination_by (cursor.rest.length, 0)
decreasing_by
  · have := Cursor.advance?_rest_lt openers_consume _found
    exact Prod.Lex.left _ _ this
  · have := Cursor.advance?_rest_lt openers_consume _found
    have := next.skipComment_rest_le kind
    exact Prod.Lex.left _ _ (by omega)

/-- Reads a pragma: first its name, with comments before it skipped, then its value. -/
def readPragma (start : Nat) (cursor : Cursor) : Clause :=
  match _found : cursor.advance? nameMarks with
  | none => ⟨some (.pragma [] [] ⟨start, cursor.length⟩), [], cursor.toEnd⟩
  | some (⟨.keyword word, wordStart, _⟩, next) =>
    let clause := readClause word wordStart next
    ⟨some (.pragma [] [] ⟨start, wordStart⟩), clause.directives, clause.after⟩
  | some (⟨.comment kind, _, _⟩, next) => readPragma start (next.skipComment kind)
  | some (⟨.semicolon, _, stop⟩, next) => ⟨some (.pragma [] [] ⟨start, stop⟩), [], next⟩
  | some (⟨.name, nameStart, nameStop⟩, next) =>
    let tail := readValue next
    ⟨some (.pragma (cursor.textBetween nameStart nameStop) tail.value ⟨start, tail.stop⟩), tail.followers,
      tail.after⟩
termination_by (cursor.rest.length, 0)
decreasing_by
  · have := Cursor.advance?_rest_lt nameMarks_consume _found
    exact Prod.Lex.left _ _ this
  · have := Cursor.advance?_rest_lt nameMarks_consume _found
    have := next.skipComment_rest_le kind
    exact Prod.Lex.left _ _ (by omega)
  · have := Cursor.advance?_rest_lt nameMarks_consume _found
    exact Prod.Lex.left _ _ this

/-- Reads the value of a pragma: the text up to its semicolon, to the keyword that cuts it short or
to the end of the source, string literals included and comments left out. -/
def readValue (cursor : Cursor) : PragmaTail :=
  match _found : cursor.advance? statementMarks with
  | none => ⟨cursor.rest, cursor.length, [], cursor.toEnd⟩
  | some (⟨.opener (.keyword word), wordStart, _⟩, next) =>
    let clause := readClause word wordStart next
    ⟨cursor.textTo wordStart, wordStart, clause.directives, clause.after⟩
  | some (⟨.opener (.comment kind), commentStart, _⟩, next) =>
    let tail := readValue (next.skipComment kind)
    { tail with value := cursor.textTo commentStart ++ tail.value }
  | some (⟨.opener (.quote mark), _, _⟩, next) =>
    let after := (next.readString mark).2
    let tail := readValue after
    { tail with value := cursor.textTo after.offset ++ tail.value }
  | some (⟨.semicolon, valueStop, stop⟩, next) => ⟨cursor.textTo valueStop, stop, [], next⟩
termination_by (cursor.rest.length, 0)
decreasing_by
  · have := Cursor.advance?_rest_lt statementMarks_consume _found
    exact Prod.Lex.left _ _ this
  · have := Cursor.advance?_rest_lt statementMarks_consume _found
    have := next.skipComment_rest_le kind
    exact Prod.Lex.left _ _ (by omega)
  · have := Cursor.advance?_rest_lt statementMarks_consume _found
    have := next.readString_rest_le mark
    exact Prod.Lex.left _ _ (by omega)

end

/-- What each reader leaves ahead is no longer than what it was given, for sources up to a length. -/
private theorem readers_rest_le (n : Nat) :
    ∀ cursor : Cursor, cursor.rest.length ≤ n →
      (∀ word start, (readClause word start cursor).after.rest.length ≤ cursor.rest.length) ∧
      (readValue cursor).after.rest.length ≤ cursor.rest.length := by
  induction n with
  | zero =>
    intro cursor hcursor
    have hend : cursor.atEnd = true := by simpa [Cursor.atEnd] using hcursor
    have hnone {κ : Type} (anchors : List (Anchor κ)) : cursor.advance? anchors = none := by
      simp [Cursor.advance?, hend]
    refine ⟨fun word start => ?_, ?_⟩
    · cases word
      · rw [readClause, readImport]
        split <;> simp_all
      · rw [readClause, readPragma]
        split <;> simp_all
    · rw [readValue]
      split <;> simp_all
  | succ n ih =>
    intro cursor hcursor
    refine ⟨fun word start => ?_, ?_⟩
    · cases word
      · rw [readClause, readImport]
        split
        · simp
        · rename_i next hfound
          have hlt := Cursor.advance?_rest_lt openers_consume hfound
          have := (ih next (by omega)).1
          grind
        · rename_i kind _ _ next hfound
          have hlt := Cursor.advance?_rest_lt openers_consume hfound
          have hle := next.skipComment_rest_le kind
          have := (ih (next.skipComment kind) (by omega)).1 .importWord start
          rw [readClause] at this
          omega
        · rename_i mark _ _ next hfound
          have hlt := Cursor.advance?_rest_lt openers_consume hfound
          have hle := next.readString_rest_le mark
          dsimp only
          omega
      · rw [readClause, readPragma]
        split
        · simp
        · rename_i next hfound
          have hlt := Cursor.advance?_rest_lt nameMarks_consume hfound
          have := (ih next (by omega)).1
          grind
        · rename_i kind _ _ next hfound
          have hlt := Cursor.advance?_rest_lt nameMarks_consume hfound
          have hle := next.skipComment_rest_le kind
          have := (ih (next.skipComment kind) (by omega)).1 .pragmaWord start
          rw [readClause] at this
          omega
        · rename_i hfound
          have hlt := Cursor.advance?_rest_lt nameMarks_consume hfound
          dsimp only
          omega
        · rename_i next hfound
          have hlt := Cursor.advance?_rest_lt nameMarks_consume hfound
          have := (ih next (by omega)).2
          dsimp only
          omega
    · rw [readValue]
      split
      · simp
      · rename_i next hfound
        have hlt := Cursor.advance?_rest_lt statementMarks_consume hfound
        have := (ih next (by omega)).1
        grind
      · rename_i kind _ _ next hfound
        have hlt := Cursor.advance?_rest_lt statementMarks_consume hfound
        have hle := next.skipComment_rest_le kind
        have := (ih (next.skipComment kind) (by omega)).2
        dsimp only
        omega
      · rename_i mark _ _ next hfound
        have hlt := Cursor.advance?_rest_lt statementMarks_consume hfound
        have hle := next.readString_rest_le mark
        have := (ih (next.readString mark).2 (by omega)).2
        dsimp only
        omega
      · rename_i hfound
        have hlt := Cursor.advance?_rest_lt statementMarks_consume hfound
        dsimp only
        omega

/-- Reading a clause never moves the cursor back. -/
theorem readClause_rest_le (word : Keyword) (start : Nat) (cursor : Cursor) :
    (readClause word start cursor).after.rest.length ≤ cursor.rest.length :=
  (readers_rest_le _ cursor Nat.le.refl).1 word start

end DirectiveIndex
