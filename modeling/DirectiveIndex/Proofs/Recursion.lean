import DirectiveIndex.Proofs.Scan

namespace DirectiveIndex

/-- What may be taken for the readers: something that reads clauses, and something that reads a pragma from behind
    its name. -/
structure Readers where
  clause : Keyword → Nat → Cursor → Clause
  value : Cursor → PragmaTail

namespace Readers

/-- The readers of the scanner. -/
def actual : Readers :=
  ⟨readClause, readValue⟩

/-- One round of reading, in which the given readers take over wherever the scanner's call one another or go round a
    loop again. -/
def unfold (readers : Readers) : Readers where
  clause
    | .importWord, start, cursor =>
      match cursor.advance? openers with
      | none => ⟨none, [], cursor.toEnd⟩
      | some (⟨.keyword word, wordStart, _⟩, next) => readers.clause word wordStart next
      | some (⟨.comment kind, _, _⟩, next) => readers.clause .importWord start (next.skipComment kind)
      | some (⟨.quote mark, _, _⟩, next) =>
        let (path, after) := next.readString mark
        ⟨some (.imported path ⟨start, after.offset⟩), [], after⟩
    | .pragmaWord, start, cursor =>
      match cursor.advance? nameMarks with
      | none => ⟨some (.pragma [] [] ⟨start, cursor.length⟩), [], cursor.toEnd⟩
      | some (⟨.keyword word, wordStart, _⟩, next) =>
        let clause := readers.clause word wordStart next
        ⟨some (.pragma [] [] ⟨start, wordStart⟩), clause.directives, clause.after⟩
      | some (⟨.comment kind, _, _⟩, next) => readers.clause .pragmaWord start (next.skipComment kind)
      | some (⟨.semicolon, _, stop⟩, next) => ⟨some (.pragma [] [] ⟨start, stop⟩), [], next⟩
      | some (⟨.name, nameStart, nameStop⟩, next) =>
        let tail := readers.value next
        ⟨some (.pragma (cursor.textBetween nameStart nameStop) tail.value ⟨start, tail.stop⟩), tail.followers,
          tail.after⟩
  value cursor :=
    match cursor.advance? statementMarks with
    | none => ⟨cursor.rest, cursor.length, [], cursor.toEnd⟩
    | some (⟨.opener (.keyword word), wordStart, _⟩, next) =>
      let clause := readers.clause word wordStart next
      ⟨cursor.textTo wordStart, wordStart, clause.directives, clause.after⟩
    | some (⟨.opener (.comment kind), commentStart, _⟩, next) =>
      let tail := readers.value (next.skipComment kind)
      { tail with value := cursor.textTo commentStart ++ tail.value }
    | some (⟨.opener (.quote mark), _, _⟩, next) =>
      let after := (next.readString mark).2
      let tail := readers.value after
      { tail with value := cursor.textTo after.offset ++ tail.value }
    | some (⟨.semicolon, valueStop, stop⟩, next) => ⟨cursor.textTo valueStop, stop, [], next⟩

/-- Whether two families of readers do the same at a place. -/
def AgreeAt (readers others : Readers) (cursor : Cursor) : Prop :=
  (∀ word start, readers.clause word start cursor = others.clause word start cursor) ∧
    readers.value cursor = others.value cursor

theorem eq_of_agreeAt {readers others : Readers} (h : ∀ cursor, readers.AgreeAt others cursor) : readers = others := by
  obtain ⟨clause, value⟩ := readers
  obtain ⟨otherClause, otherValue⟩ := others
  obtain rfl : clause = otherClause :=
    funext fun word => funext fun start => funext fun cursor => (h cursor).1 word start
  obtain rfl : value = otherValue := funext fun cursor => (h cursor).2
  rfl

private theorem clause_importWord (start : Nat) (cursor : Cursor) :
    readClause .importWord start cursor = readImport start cursor := by
  rw [readClause]

private theorem clause_pragmaWord (start : Nat) (cursor : Cursor) :
    readClause .pragmaWord start cursor = readPragma start cursor := by
  rw [readClause]

/-- The readers of the scanner are what one more round makes of them. -/
theorem unfold_actual : actual.unfold = actual := by
  have himport (start : Nat) (cursor : Cursor) :
      actual.unfold.clause .importWord start cursor = readImport start cursor := by
    simp only [unfold, actual]
    split <;> rename_i hfound
    · exact (readImport_none hfound).symm
    · exact (readImport_keyword hfound).symm
    · rw [readImport_comment hfound, clause_importWord]
    · exact (readImport_quote hfound).symm
  have hpragma (start : Nat) (cursor : Cursor) :
      actual.unfold.clause .pragmaWord start cursor = readPragma start cursor := by
    simp only [unfold, actual]
    split <;> rename_i hfound
    · exact (readPragma_none hfound).symm
    · exact (readPragma_keyword hfound).symm
    · rw [readPragma_comment hfound, clause_pragmaWord]
    · exact (readPragma_semicolon hfound).symm
    · exact (readPragma_name hfound).symm
  have hvalue (cursor : Cursor) : actual.unfold.value cursor = readValue cursor := by
    simp only [unfold, actual]
    split <;> rename_i hfound
    · exact (readValue_none hfound).symm
    · exact (readValue_keyword hfound).symm
    · exact (readValue_comment hfound).symm
    · exact (readValue_quote hfound).symm
    · exact (readValue_semicolon hfound).symm
  have hclause (word : Keyword) (start : Nat) (cursor : Cursor) :
      actual.unfold.clause word start cursor = readClause word start cursor := by
    cases word with
    | importWord => rw [himport, clause_importWord]
    | pragmaWord => rw [hpragma, clause_pragmaWord]
  exact eq_of_agreeAt fun cursor => ⟨fun word start => hclause word start cursor, hvalue cursor⟩

/-- What one round of reading does at a place depends on what the readers do at places with fewer characters ahead. -/
theorem agreeAt_unfold {readers others : Readers} {cursor : Cursor}
    (h : ∀ next : Cursor, next.rest.length < cursor.rest.length → readers.AgreeAt others next) :
    readers.unfold.AgreeAt others.unfold cursor := by
  have hcomment {next : Cursor} (kind : CommentKind) (hnext : next.rest.length < cursor.rest.length) :=
    h (next.skipComment kind) (Nat.lt_of_le_of_lt (next.skipComment_rest_le kind) hnext)
  have hstring {next : Cursor} (mark : Quote) (hnext : next.rest.length < cursor.rest.length) :=
    h (next.readString mark).2 (Nat.lt_of_le_of_lt (next.readString_rest_le mark) hnext)
  refine ⟨fun word start => ?_, ?_⟩
  · cases word with
    | importWord =>
      simp only [unfold]
      split
      · rfl
      · rename_i next hfound
        exact (h next (Cursor.advance?_rest_lt openers_consume hfound)).1 _ _
      · rename_i kind _ _ next hfound
        exact (hcomment kind (Cursor.advance?_rest_lt openers_consume hfound)).1 _ _
      · rfl
    | pragmaWord =>
      simp only [unfold]
      split
      · rfl
      · rename_i next hfound
        rw [(h next (Cursor.advance?_rest_lt nameMarks_consume hfound)).1]
      · rename_i kind _ _ next hfound
        exact (hcomment kind (Cursor.advance?_rest_lt nameMarks_consume hfound)).1 _ _
      · rfl
      · rename_i next hfound
        rw [(h next (Cursor.advance?_rest_lt nameMarks_consume hfound)).2]
  · simp only [unfold]
    split
    · rfl
    · rename_i next hfound
      rw [(h next (Cursor.advance?_rest_lt statementMarks_consume hfound)).1]
    · rename_i kind _ _ next hfound
      rw [(hcomment kind (Cursor.advance?_rest_lt statementMarks_consume hfound)).2]
    · rename_i mark _ _ next hfound
      rw [(hstring mark (Cursor.advance?_rest_lt statementMarks_consume hfound)).2]
    · rfl

/-- There are no other readers that one more round leaves as they are. -/
theorem eq_actual {readers : Readers} (h : readers.unfold = readers) : readers = actual := by
  have hagree (n : Nat) : ∀ cursor : Cursor, cursor.rest.length < n → readers.AgreeAt actual cursor := by
    induction n with
    | zero => exact fun cursor hlt => absurd hlt (Nat.not_lt_zero _)
    | succ n ih =>
      intro cursor hlt
      have hround := agreeAt_unfold fun next hnext => ih next (Nat.lt_of_lt_of_le hnext (Nat.le_of_lt_succ hlt))
      rwa [h, unfold_actual] at hround
  exact eq_of_agreeAt fun cursor => hagree _ cursor (Nat.lt_succ_self _)

end Readers

end DirectiveIndex
