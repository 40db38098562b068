import DirectiveIndex.Proofs.Search
import DirectiveIndex.Scanner

namespace DirectiveIndex

section Readers

variable {start signStart stop : Nat} {cursor next : Cursor} {word : Keyword} {kind : CommentKind} {mark : Quote}

/-- An import that nothing completes is not reported. -/
theorem readImport_none (h : cursor.advance? openers = none) :
    readImport start cursor = ⟨none, [], cursor.toEnd⟩ := by
  rw [readImport]
  split <;> simp_all

/-- An import that a keyword cuts short is not reported, and the keyword is read. -/
theorem readImport_keyword (h : cursor.advance? openers = some (⟨.keyword word, signStart, stop⟩, next)) :
    readImport start cursor = readClause word signStart next := by
  rw [readImport]
  split <;> simp_all

/-- A comment within an import is passed over. -/
theorem readImport_comment (h : cursor.advance? openers = some (⟨.comment kind, signStart, stop⟩, next)) :
    readImport start cursor = readImport start (next.skipComment kind) := by
  rw [readImport]
  split <;> simp_all

/-- The first string of an import is its path. -/
theorem readImport_quote (h : cursor.advance? openers = some (⟨.quote mark, signStart, stop⟩, next)) :
    readImport start cursor =
      ⟨some (.imported (next.readString mark).1 ⟨start, (next.readString mark).2.offset⟩), [],
        (next.readString mark).2⟩ := by
  rw [readImport]
  split <;> simp_all

/-- A pragma without a name ends with the source. -/
theorem readPragma_none (h : cursor.advance? nameMarks = none) :
    readPragma start cursor = ⟨some (.pragma [] [] ⟨start, cursor.length⟩), [], cursor.toEnd⟩ := by
  rw [readPragma]
  split <;> simp_all

/-- A pragma without a name ends at a keyword, which is read. -/
theorem readPragma_keyword (h : cursor.advance? nameMarks = some (⟨.keyword word, signStart, stop⟩, next)) :
    readPragma start cursor =
      ⟨some (.pragma [] [] ⟨start, signStart⟩), (readClause word signStart next).directives,
        (readClause word signStart next).after⟩ := by
  rw [readPragma]
  split <;> simp_all

/-- A comment before the name of a pragma is passed over. -/
theorem readPragma_comment (h : cursor.advance? nameMarks = some (⟨.comment kind, signStart, stop⟩, next)) :
    readPragma start cursor = readPragma start (next.skipComment kind) := by
  rw [readPragma]
  split <;> simp_all

/-- A pragma without a name ends at a semicolon. -/
theorem readPragma_semicolon (h : cursor.advance? nameMarks = some (⟨.semicolon, signStart, stop⟩, next)) :
    readPragma start cursor = ⟨some (.pragma [] [] ⟨start, stop⟩), [], next⟩ := by
  rw [readPragma]
  split <;> simp_all

/-- The first word of a pragma is its name, and its value follows. -/
theorem readPragma_name (h : cursor.advance? nameMarks = some (⟨.name, signStart, stop⟩, next)) :
    readPragma start cursor =
      ⟨some (.pragma (cursor.textBetween signStart stop) (readValue next).value ⟨start, (readValue next).stop⟩),
        (readValue next).followers, (readValue next).after⟩ := by
  rw [readPragma]
  split <;> simp_all

/-- A value that nothing ends goes on to the end of the source. -/
theorem readValue_none (h : cursor.advance? statementMarks = none) :
    readValue cursor = ⟨cursor.rest, cursor.length, [], cursor.toEnd⟩ := by
  rw [readValue]
  split <;> simp_all

/-- A value ends before a keyword, which is read. -/
theorem readValue_keyword
    (h : cursor.advance? statementMarks = some (⟨.opener (.keyword word), signStart, stop⟩, next)) :
    readValue cursor =
      ⟨cursor.textTo signStart, signStart, (readClause word signStart next).directives,
        (readClause word signStart next).after⟩ := by
  rw [readValue]
  split <;> simp_all

/-- A value goes on around a comment, which is no part of it. -/
theorem readValue_comment
    (h : cursor.advance? statementMarks = some (⟨.opener (.comment kind), signStart, stop⟩, next)) :
    readValue cursor =
      { readValue (next.skipComment kind) with
        value := cursor.textTo signStart ++ (readValue (next.skipComment kind)).value } := by
  rw [readValue]
  split <;> simp_all

/-- A value goes on over a string, which is part of it. -/
theorem readValue_quote
    (h : cursor.advance? statementMarks = some (⟨.opener (.quote mark), signStart, stop⟩, next)) :
    readValue cursor =
      { readValue (next.readString mark).2 with
        value := cursor.textTo (next.readString mark).2.offset ++ (readValue (next.readString mark).2).value } := by
  rw [readValue]
  split <;> simp_all

/-- A value ends before a semicolon. -/
theorem readValue_semicolon (h : cursor.advance? statementMarks = some (⟨.semicolon, signStart, stop⟩, next)) :
    readValue cursor = ⟨cursor.textTo signStart, stop, [], next⟩ := by
  rw [readValue]
  split <;> simp_all

end Readers

namespace Pass

/-- A pass with no open directive reports nothing more once the scanner finds nothing more. -/
theorem runFrom_top_of_rest_nil {place : Cursor} (h : place.rest = []) : runFrom .initial place = [] :=
  runFrom_of_rest_nil .initial h

/-- Reading a clause and going on behind it, the scanner reports what the pass reports from behind
    the keyword. The cases are those of the readers; what a keyword inside a clause begins is covered
    by the induction hypothesis, however long the chain of such keywords is. -/
theorem runFrom_readers :
    (∀ word start cursor, runFrom ⟨.ofKeyword word start, .code, 0⟩ cursor =
      (readClause word start cursor).directives ++ runFrom .initial (readClause word start cursor).after) ∧
    (∀ start cursor, runFrom ⟨.naming start, .code, 0⟩ cursor =
      (readPragma start cursor).directives ++ runFrom .initial (readPragma start cursor).after) ∧
    (∀ cursor start name captured, runFrom ⟨.valuing start name captured, .code, 0⟩ cursor =
      .pragma name (captured ++ (readValue cursor).value) ⟨start, (readValue cursor).stop⟩ ::
        ((readValue cursor).followers ++ runFrom .initial (readValue cursor).after)) ∧
    (∀ start cursor, runFrom ⟨.importing start, .code, 0⟩ cursor =
      (readImport start cursor).directives ++ runFrom .initial (readImport start cursor).after) := by
  refine readClause.mutual_induct _ _ _ _ ?importWord ?pragmaWord ?nameless ?nameCut ?nameComment ?nameSemicolon
    ?named ?valueToEnd ?valueCut ?valueComment ?valueString ?valueSemicolon ?pathless ?importCut ?importComment
    ?path
  case importWord =>
    intro start cursor ih
    rw [readClause]
    exact ih
  case pragmaWord =>
    intro start cursor ih
    rw [readClause]
    exact ih
  case nameless =>
    intro start cursor hnone
    rw [runFrom_of_found_none (Mode.seeks_naming start) hnone, readPragma_none hnone,
      runFrom_top_of_rest_nil (Cursor.rest_toEnd cursor), Mode.captureAll_naming]
    rfl
  case nameCut =>
    intro start cursor word wordStart stop next hfound ih
    rw [runFrom_of_found_keyword (Mode.seeks_naming start) hfound rfl, readPragma_keyword hfound, ih,
      Mode.captureAll_naming]
    rfl
  case nameComment =>
    intro start cursor kind _ _ next hfound ih
    rw [runFrom_of_found_comment (Mode.seeks_naming start) hfound rfl, readPragma_comment hfound,
      Mode.captureAll_naming, ih]
  case nameSemicolon =>
    intro start cursor _ stop next hfound
    rw [runFrom_of_found_semicolon (Mode.seeks_naming start) hfound rfl, readPragma_semicolon hfound,
      Mode.captureAll_naming]
    rfl
  case named =>
    intro start cursor nameStart nameStop next hfound ih
    rw [runFrom_of_found_name hfound, readPragma_name hfound, ih, List.nil_append]
    rfl
  case valueToEnd =>
    intro cursor hnone start name captured
    rw [runFrom_of_found_none (Mode.seeks_valuing start name captured) hnone, readValue_none hnone,
      runFrom_top_of_rest_nil (Cursor.rest_toEnd cursor), Mode.captureAll_valuing]
    rfl
  case valueCut =>
    intro cursor word wordStart _ next hfound ih start name captured
    rw [runFrom_of_found_keyword (Mode.seeks_valuing start name captured) hfound rfl, readValue_keyword hfound,
      Mode.captureAll_valuing, ih]
    rfl
  case valueComment =>
    intro cursor kind commentStart _ next hfound ih start name captured
    rw [runFrom_of_found_comment (Mode.seeks_valuing start name captured) hfound rfl, readValue_comment hfound,
      Mode.captureAll_valuing, ih, List.append_assoc]
  case valueString =>
    intro cursor mark _ _ next hfound after ih start name captured
    rw [runFrom_of_found_string (Mode.seeks_valuing start name captured) hfound rfl rfl rfl,
      readValue_quote hfound, Mode.captureAll_valuing, ih, List.append_assoc]
  case valueSemicolon =>
    intro cursor valueStop stop next hfound start name captured
    rw [runFrom_of_found_semicolon (Mode.seeks_valuing start name captured) hfound rfl,
      readValue_semicolon hfound, Mode.captureAll_valuing]
    rfl
  case pathless =>
    intro start cursor hnone
    rw [runFrom_of_found_none (Mode.seeks_importing start) hnone, readImport_none hnone,
      runFrom_top_of_rest_nil (Cursor.rest_toEnd cursor), Mode.captureAll_importing]
    rfl
  case importCut =>
    intro start cursor word wordStart _ next hfound ih
    rw [runFrom_of_found_keyword (Mode.seeks_importing start) hfound rfl, readImport_keyword hfound,
      Mode.captureAll_importing, ih]
    rfl
  case importComment =>
    intro start cursor kind _ _ next hfound ih
    rw [runFrom_of_found_comment (Mode.seeks_importing start) hfound rfl, readImport_comment hfound,
      Mode.captureAll_importing, ih]
  case path =>
    intro start cursor mark _ _ next hfound path after hread
    rw [runFrom_of_found_path hfound, readImport_quote hfound]
    rfl

end Pass

/-- A pragma is always reported, even one without a name. -/
theorem directive?_readPragma_ne_none (start : Nat) (cursor : Cursor) :
    (readPragma start cursor).directive? ≠ none := by
  cases hfound : cursor.advance? nameMarks with
  | none => simp [readPragma_none hfound]
  | some pair =>
    obtain ⟨⟨label, signStart, stop⟩, next⟩ := pair
    cases label with
    | keyword word => simp [readPragma_keyword hfound]
    | comment kind =>
      rw [readPragma_comment hfound]
      exact directive?_readPragma_ne_none start (next.skipComment kind)
    | semicolon => simp [readPragma_semicolon hfound]
    | name => simp [readPragma_name hfound]
termination_by cursor.rest.length
decreasing_by
  have hnext := Cursor.advance?_rest_lt nameMarks_consume hfound
  exact Nat.lt_of_le_of_lt (next.skipComment_rest_le kind) hnext

mutual

/-- What a keyword begins yields nothing only at the end of the source. -/
theorem readClause_without_directive (word : Keyword) (start : Nat) (cursor : Cursor)
    (h : (readClause word start cursor).directive? = none) :
    (readClause word start cursor).followers = [] ∧ (readClause word start cursor).after.rest = [] := by
  cases word with
  | importWord =>
    rw [readClause] at h ⊢
    exact readImport_without_directive start cursor h
  | pragmaWord =>
    rw [readClause] at h
    exact absurd h (directive?_readPragma_ne_none start cursor)
termination_by (cursor.rest.length, 1)

/-- Only an import that finds no path up to the end of the source yields nothing. -/
theorem readImport_without_directive (start : Nat) (cursor : Cursor)
    (h : (readImport start cursor).directive? = none) :
    (readImport start cursor).followers = [] ∧ (readImport start cursor).after.rest = [] := by
  cases hfound : cursor.advance? openers with
  | none => simp [readImport_none hfound]
  | some pair =>
    obtain ⟨⟨label, signStart, stop⟩, next⟩ := pair
    have hnext := Cursor.advance?_rest_lt openers_consume hfound
    cases label with
    | keyword word =>
      rw [readImport_keyword hfound] at h ⊢
      exact readClause_without_directive word signStart next h
    | comment kind =>
      have hskip := next.skipComment_rest_le kind
      rw [readImport_comment hfound] at h ⊢
      exact readImport_without_directive start (next.skipComment kind) h
    | quote mark => simp [readImport_quote hfound] at h
termination_by (cursor.rest.length, 0)

end

namespace Cursor

/-- Without a directive there is nothing behind it, and without any record the source is at its end. -/
theorem readRecord_without_directive {cursor : Cursor} (h : cursor.readRecord.record?.bind Record.directive? = none) :
    cursor.readRecord.followers = [] ∧
      (cursor.readRecord.record? = none → cursor.readRecord.after.rest = []) := by
  unfold readRecord at h ⊢
  cases hfound : cursor.advance? openers with
  | none => simp
  | some pair =>
    obtain ⟨⟨label, start, stop⟩, next⟩ := pair
    simp only [hfound] at h
    cases label with
    | keyword word =>
      have hnone : (readClause word start next).directive? = none := by
        cases hdirective : (readClause word start next).directive? <;>
          simp_all [readOpened, Record.directive?]
      obtain ⟨hfollowers, hrest⟩ := readClause_without_directive word start next hnone
      exact ⟨hfollowers, fun _ => hrest⟩
    | comment kind => simp [readOpened]
    | quote mark => simp [readOpened]

/-- A record pulled outside directives, with what follows it, is what the pass reports. -/
theorem runFrom_readRecord (cursor : Cursor) :
    Pass.runFrom .initial cursor =
      (cursor.readRecord.record?.bind Record.directive?).toList ++ cursor.readRecord.followers ++
        Pass.runFrom .initial cursor.readRecord.after := by
  unfold readRecord
  cases hfound : cursor.advance? openers with
  | none =>
    rw [Pass.initial, Pass.runFrom_of_found_none Mode.seeks_top hfound, Mode.captureAll_top]
    exact (Pass.runFrom_top_of_rest_nil (rest_toEnd cursor)).symm
  | some pair =>
    obtain ⟨⟨label, start, stop⟩, next⟩ := pair
    cases label with
    | keyword word =>
      have hdirective : ((readClause word start next).directive?.map Record.directive).bind Record.directive? =
          (readClause word start next).directive? := by
        cases (readClause word start next).directive? <;> rfl
      rw [Pass.initial, Pass.runFrom_of_found_keyword Mode.seeks_top hfound rfl, Pass.runFrom_readers.1,
        Mode.captureAll_top]
      simp only [readOpened, hdirective]
      rfl
    | comment kind =>
      rw [Pass.initial, Pass.runFrom_of_found_comment Mode.seeks_top hfound rfl, Mode.captureAll_top]
      rfl
    | quote mark =>
      rw [Pass.initial, Pass.runFrom_of_found_string Mode.seeks_top hfound rfl rfl rfl, Mode.captureAll_top]
      rfl

end Cursor

namespace Scanner

/-- The first directive that a scanner with nothing pending comes to is the first one that the pass
    reports, and what the scanner has left, pending or ahead, is the rest. -/
theorem nextRead_matches {scanner : Scanner} (hpending : scanner.pending = []) :
    Pass.initial.runFrom scanner.cursor = match scanner.nextRead with
      | (none, _) => []
      | (some directive, after) => directive :: (after.pending ++ Pass.initial.runFrom after.cursor) := by
  fun_induction nextRead scanner with
  | case1 scanner after hpulled =>
    simp only [record, Prod.mk.injEq] at hpulled
    obtain ⟨hnone, rfl⟩ := hpulled
    obtain ⟨hfollowers, hrest⟩ := Cursor.readRecord_without_directive (by rw [hnone]; rfl)
    rw [Cursor.runFrom_readRecord, hnone, hfollowers, Pass.runFrom_top_of_rest_nil (hrest hnone)]
    rfl
  | case2 scanner d after hpulled =>
    simp only [record, Prod.mk.injEq] at hpulled
    obtain ⟨hsome, rfl⟩ := hpulled
    rw [Cursor.runFrom_readRecord, hsome]
    simp [resume, hpending, Record.directive?]
  | case3 scanner r after hother hpulled ih =>
    simp only [record, Prod.mk.injEq] at hpulled
    obtain ⟨hsome, rfl⟩ := hpulled
    have hnone : scanner.cursor.readRecord.record?.bind Record.directive? = none := by
      rw [hsome]
      cases r with
      | directive d => exact absurd rfl (hother d)
      | _ => rfl
    obtain ⟨hfollowers, _⟩ := Cursor.readRecord_without_directive hnone
    rw [Cursor.runFrom_readRecord, hnone, hfollowers]
    exact ih (by simp [resume, hfollowers, hpending])

/-- Iterating a scanner yields what is pending and then what the pass reports from the cursor on. -/
theorem directives_eq (scanner : Scanner) :
    scanner.directives = scanner.pending ++ Pass.initial.runFrom scanner.cursor := by
  fun_induction directives scanner with
  | case1 scanner after hpulled =>
    unfold next at hpulled
    split at hpulled
    · cases hpulled
    · rename_i hpending
      rw [hpending, nextRead_matches hpending, hpulled]
      rfl
  | case2 scanner d after hpulled ih =>
    unfold next at hpulled
    split at hpulled
    · rename_i hpending
      simp only [Prod.mk.injEq, Option.some.injEq] at hpulled
      obtain ⟨rfl, rfl⟩ := hpulled
      rw [ih, hpending]
      rfl
    · rename_i hpending
      rw [hpending, nextRead_matches hpending, hpulled, ih]
      rfl

end Scanner

/-- Iterating the scanner over a source yields exactly what one pass over the source reports. -/
theorem scan_eq_passOver (source : Text) : scan source = passOver source :=
  (Scanner.directives_eq (Scanner.ofText source)).trans (List.nil_append _)

end DirectiveIndex
