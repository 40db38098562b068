import DirectiveIndex.Proofs.Scan

namespace DirectiveIndex

namespace Cursor

/-- The first anchors are preferred. -/
theorem foundHere?_append {κ : Type} (anchors more : List (Anchor κ)) (place : Cursor) :
    place.foundHere? (anchors ++ more) = (place.foundHere? anchors).or (place.foundHere? more) :=
  List.findSome?_append

/-- Other labels change nothing about what is found. -/
theorem foundHere?_relabel {κ μ : Type} (f : κ → μ) (anchors : List (Anchor κ)) (place : Cursor) :
    place.foundHere? (anchors.map (·.relabel f)) =
      (place.foundHere? anchors).map fun pair => (⟨f pair.1.label, pair.1.start, pair.1.stop⟩, pair.2) := by
  induction anchors with
  | nil => rfl
  | cons anchor anchors ih =>
    rw [List.map_cons, foundHere?, List.findSome?_cons, foundHere?, List.findSome?_cons]
    have hwidth : (anchor.relabel f).pattern = anchor.pattern := rfl
    rw [hwidth]
    cases anchor.pattern.width? place.last? place.rest with
    | none => exact ih
    | some n => rfl

/-- Inside a statement the scanner stops where it stops outside, unless a semicolon comes first. -/
theorem advance?_statementMarks (cursor : Cursor) :
    (cursor.advance? statementMarks =
      (cursor.advance? openers).map fun pair => (⟨.opener pair.1.label, pair.1.start, pair.1.stop⟩, pair.2)) ∨
    ∃ k < cursor.rest.length,
      cursor.advance? statementMarks =
        some (⟨.semicolon, cursor.offset + k, cursor.offset + k + 1⟩, cursor.skip (k + 1)) ∧
      cursor.advance? openers = (cursor.skip (k + 1)).advance? openers := by
  have hopenersEnd (last? : Option Char) (offset : Nat) : foundHere? openers ⟨last?, offset, []⟩ = none := rfl
  have hmarksEnd (last? : Option Char) (offset : Nat) : foundHere? statementMarks ⟨last?, offset, []⟩ = none := rfl
  obtain ⟨last?, offset, rest⟩ := cursor
  induction rest generalizing last? offset with
  | nil => exact .inl rfl
  | cons c rest ih =>
    rw [advance?_cons hopenersEnd, advance?_cons hmarksEnd, statementMarks, foundHere?_append, foundHere?_relabel]
    cases hopener : foundHere? openers ⟨last?, offset, c :: rest⟩ with
    | some pair => exact .inl rfl
    | none =>
      by_cases hc : c = ';'
      · subst hc
        exact .inr ⟨0, Nat.succ_pos _, rfl, rfl⟩
      · have hhere : foundHere? [⟨StatementMark.semicolon, semicolonPattern⟩] ⟨last?, offset, c :: rest⟩ =
            none := by
          simp [foundHere?, semicolonPattern, Pattern.width?, Ne.symm hc]
        rw [hhere]
        rcases ih (some c) (offset + 1) with hsame | ⟨k, hk, hmarks, hopeners⟩
        · exact .inl hsame
        · refine .inr ⟨k + 1, Nat.succ_lt_succ hk, ?_, hopeners⟩
          rw [Nat.add_right_comm offset, Nat.add_assoc offset] at hmarks
          exact hmarks

theorem toEnd_skip {n : Nat} {cursor : Cursor} (h : n ≤ cursor.rest.length) :
    (cursor.skip n).toEnd = cursor.toEnd := by
  rw [toEnd, skip_skip, rest_skip, List.length_drop, Nat.add_sub_cancel' h]
  rfl

/-- A record read with semicolons included is the one read without, unless a semicolon comes first; without
    semicolons, reading goes on behind it. -/
theorem readRecordOrSemicolon_cases (cursor : Cursor) :
    cursor.readRecordOrSemicolon = cursor.readRecord ∨
    ∃ k < cursor.rest.length,
      cursor.readRecordOrSemicolon =
        ⟨some (.semicolon ⟨cursor.offset + k, cursor.offset + k + 1⟩), [], cursor.skip (k + 1)⟩ ∧
      cursor.readRecord = (cursor.skip (k + 1)).readRecord := by
  rcases advance?_statementMarks cursor with hsame | ⟨k, hk, hmarks, hopeners⟩
  · refine .inl ?_
    rw [readRecordOrSemicolon, readRecord, hsame]
    cases cursor.advance? openers <;> rfl
  · refine .inr ⟨k, hk, ?_, ?_⟩
    · rw [readRecordOrSemicolon, hmarks]
    · rw [readRecord, readRecord, hopeners, toEnd_skip hk]

/-- Without a directive there is nothing behind it, and without any record the source is at its end. -/
theorem readRecordOrSemicolon_without_directive {cursor : Cursor}
    (h : cursor.readRecordOrSemicolon.record?.bind Record.directive? = none) :
    cursor.readRecordOrSemicolon.followers = [] ∧
      (cursor.readRecordOrSemicolon.record? = none → cursor.readRecordOrSemicolon.after.rest = []) := by
  rcases readRecordOrSemicolon_cases cursor with hsame | ⟨k, _, hsemicolon, _⟩
  · rw [hsame] at h ⊢
    exact readRecord_without_directive h
  · rw [hsemicolon]
    exact ⟨rfl, fun hnone => nomatch hnone⟩

/-- A record pulled outside directives, semicolons included, with what follows it, is what the pass reports. -/
theorem runFrom_readRecordOrSemicolon (cursor : Cursor) :
    Pass.runFrom .initial cursor =
      (cursor.readRecordOrSemicolon.record?.bind Record.directive?).toList ++
        cursor.readRecordOrSemicolon.followers ++ Pass.runFrom .initial cursor.readRecordOrSemicolon.after := by
  rcases readRecordOrSemicolon_cases cursor with hsame | ⟨k, _, hsemicolon, hbehind⟩
  · rw [hsame]
    exact runFrom_readRecord cursor
  · rw [runFrom_readRecord, hbehind, ← runFrom_readRecord, hsemicolon]
    rfl

end Cursor

end DirectiveIndex
