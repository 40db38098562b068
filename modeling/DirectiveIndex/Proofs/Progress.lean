import DirectiveIndex.Proofs.Pulls
import DirectiveIndex.Proofs.Recursion

namespace DirectiveIndex

namespace Cursor

/-- Moving a cursor leaves the length of its source as it is. -/
@[simp]
theorem length_skip (n : Nat) (cursor : Cursor) : (cursor.skip n).length = cursor.length := by
  fun_induction skip n cursor with
  | case1 n last? offset c rest ih =>
    refine ih.trans ?_
    simp only [length, List.length_cons]
    omega
  | case2 => rfl

/-- A search stays in its source. -/
theorem length_search {κ : Type} {anchors : List (Anchor κ)} {last? : Option Char} {offset : Nat} {rest : Text}
    {found : Found κ} {after : Cursor} (h : search anchors last? offset rest = some (found, after)) :
    after.length = offset + rest.length := by
  induction rest generalizing last? offset with
  | nil =>
    obtain ⟨anchor, _, n, _, _, rfl⟩ := foundHere?_rest h
    exact length_skip n _
  | cons c rest ih =>
    rw [search, Option.or_eq_some_iff] at h
    rcases h with h | ⟨_, h⟩
    · obtain ⟨anchor, _, n, _, _, rfl⟩ := foundHere?_rest h
      exact length_skip n _
    · rw [ih h, List.length_cons]
      omega

/-- Advancing stays in the source. -/
theorem length_advance? {κ : Type} {anchors : List (Anchor κ)} {cursor after : Cursor} {found : Found κ}
    (h : cursor.advance? anchors = some (found, after)) : after.length = cursor.length := by
  rw [advance?, Option.ite_none_left_eq_some] at h
  exact length_search h.2

@[simp]
theorem length_toEnd (cursor : Cursor) : cursor.toEnd.length = cursor.length :=
  length_skip _ cursor

/-- Passing over a comment stays in the source. -/
@[simp]
theorem length_skipComment (kind : CommentKind) (cursor : Cursor) :
    (cursor.skipComment kind).length = cursor.length := by
  unfold skipComment advance
  split
  · exact length_toEnd cursor
  · exact length_advance? ‹_›

/-- Reading a string stays in the source. -/
@[simp]
theorem length_readString (mark : Quote) (cursor : Cursor) : (cursor.readString mark).2.length = cursor.length := by
  unfold readString
  split
  · exact length_toEnd cursor
  · exact length_advance? ‹_›

/-- A cursor that has not fewer characters passed than another one of the same source has not more ahead. -/
theorem offset_le_iff {cursor other : Cursor} (h : other.length = cursor.length) :
    cursor.offset ≤ other.offset ↔ other.rest.length ≤ cursor.rest.length := by
  unfold length at h
  omega

end Cursor

/-- The readers stay in the source that they are given. -/
theorem length_readers :
    (∀ word start cursor, (readClause word start cursor).after.length = cursor.length) ∧
    (∀ start cursor, (readPragma start cursor).after.length = cursor.length) ∧
    (∀ cursor, (readValue cursor).after.length = cursor.length) ∧
    (∀ start cursor, (readImport start cursor).after.length = cursor.length) := by
  refine readClause.mutual_induct _ _ _ _ ?importWord ?pragmaWord ?nameless ?nameCut ?nameComment ?nameSemicolon
    ?named ?valueToEnd ?valueCut ?valueComment ?valueString ?valueSemicolon ?pathless ?importCut ?importComment
    ?path
  case importWord =>
    intro start cursor ih
    rw [readClause]
    exact ih
  case pragmaWord =>
    intro start cursor ih
    rw [readClause]
    exact ih
  case nameless =>
    intro start cursor hnone
    simp [readPragma_none hnone]
  case nameCut =>
    intro start cursor word _ _ next hfound ih
    rw [readPragma_keyword hfound, ih, Cursor.length_advance? hfound]
  case nameComment =>
    intro start cursor kind _ _ next hfound ih
    rw [readPragma_comment hfound, ih, Cursor.length_skipComment, Cursor.length_advance? hfound]
  case nameSemicolon =>
    intro start cursor _ _ next hfound
    rw [readPragma_semicolon hfound, Cursor.length_advance? hfound]
  case named =>
    intro start cursor _ _ next hfound ih
    rw [readPragma_name hfound, ih, Cursor.length_advance? hfound]
  case valueToEnd =>
    intro cursor hnone
    simp [readValue_none hnone]
  case valueCut =>
    intro cursor word _ _ next hfound ih
    rw [readValue_keyword hfound, ih, Cursor.length_advance? hfound]
  case valueComment =>
    intro cursor kind _ _ next hfound ih
    rw [readValue_comment hfound, ih, Cursor.length_skipComment, Cursor.length_advance? hfound]
  case valueString =>
    intro cursor mark _ _ next hfound _ ih
    rw [readValue_quote hfound, ih, Cursor.length_readString, Cursor.length_advance? hfound]
  case valueSemicolon =>
    intro cursor _ _ next hfound
    rw [readValue_semicolon hfound, Cursor.length_advance? hfound]
  case pathless =>
    intro start cursor hnone
    simp [readImport_none hnone]
  case importCut =>
    intro start cursor word _ _ next hfound ih
    rw [readImport_keyword hfound, ih, Cursor.length_advance? hfound]
  case importComment =>
    intro start cursor kind _ _ next hfound ih
    rw [readImport_comment hfound, ih, Cursor.length_skipComment, Cursor.length_advance? hfound]
  case path =>
    intro start cursor mark _ _ next hfound _ _ _
    rw [readImport_quote hfound, Cursor.length_readString, Cursor.length_advance? hfound]

namespace Cursor

/-- Reading what has been opened stays in the source. -/
theorem length_readOpened (opener : Opener) (start : Nat) (cursor : Cursor) :
    (cursor.readOpened opener start).after.length = cursor.length := by
  cases opener with
  | keyword word => exact length_readers.1 word start cursor
  | comment kind => exact cursor.length_skipComment kind
  | quote mark => exact cursor.length_readString mark

/-- Reading a record stays in the source. -/
theorem length_readRecord (cursor : Cursor) : cursor.readRecord.after.length = cursor.length := by
  unfold readRecord
  split
  · exact length_toEnd cursor
  · rw [length_readOpened, length_advance? ‹_›]

/-- Reading a record or a semicolon stays in the source. -/
theorem length_readRecordOrSemicolon (cursor : Cursor) :
    cursor.readRecordOrSemicolon.after.length = cursor.length := by
  rcases readRecordOrSemicolon_cases cursor with hsame | ⟨k, _, hsemicolon, _⟩
  · rw [hsame, length_readRecord]
  · rw [hsemicolon, length_skip]

/-- A record, semicolons included, takes up at least one character of the source. -/
theorem readRecordOrSemicolon_rest_lt {cursor : Cursor} (h : cursor.readRecordOrSemicolon.record?.isSome) :
    cursor.readRecordOrSemicolon.after.rest.length < cursor.rest.length := by
  rcases readRecordOrSemicolon_cases cursor with hsame | ⟨k, hk, hsemicolon, _⟩
  · rw [hsame] at h ⊢
    exact readRecord_rest_lt h
  · rw [hsemicolon, rest_skip, List.length_drop]
    omega

end Cursor

namespace Scanner

/-- A pull stays in its source and never goes back. -/
theorem nextRead_forwards (scanner : Scanner) :
    scanner.nextRead.2.cursor.length = scanner.cursor.length ∧
      scanner.nextRead.2.cursor.rest.length ≤ scanner.cursor.rest.length := by
  fun_induction nextRead scanner with
  | case1 scanner after hpulled =>
    obtain rfl : scanner.resume scanner.cursor.readRecord = after := congrArg Prod.snd hpulled
    exact ⟨scanner.cursor.length_readRecord, scanner.cursor.readRecord_rest_le⟩
  | case2 scanner d after hpulled =>
    obtain rfl : scanner.resume scanner.cursor.readRecord = after := congrArg Prod.snd hpulled
    exact ⟨scanner.cursor.length_readRecord, scanner.cursor.readRecord_rest_le⟩
  | case3 scanner r after _ hpulled ih =>
    obtain rfl : scanner.resume scanner.cursor.readRecord = after := congrArg Prod.snd hpulled
    exact ⟨ih.1.trans scanner.cursor.length_readRecord, Nat.le_trans ih.2 scanner.cursor.readRecord_rest_le⟩

/-- A pull stays in the source. -/
theorem length_pull (scanner : Scanner) (pull : Pull) :
    (scanner.pull pull).2.cursor.length = scanner.cursor.length := by
  cases pull with
  | next =>
    change scanner.next.2.cursor.length = _
    unfold next
    split
    · rfl
    · exact scanner.nextRead_forwards.1
  | record => exact scanner.cursor.length_readRecord
  | recordOrSemicolon => exact scanner.cursor.length_readRecordOrSemicolon

/-- Any number of pulls stays in the source. -/
theorem length_pullAll (scanner : Scanner) (pulls : List Pull) :
    (scanner.pullAll pulls).cursor.length = scanner.cursor.length := by
  induction pulls generalizing scanner with
  | nil => rfl
  | cons pull pulls ih => exact (ih _).trans (length_pull scanner pull)

/-- Pulling a record moves the cursor ahead if there is one, and to the end of the source if there is none. -/
theorem pull_record_forwards (scanner : Scanner) {pull : Pull} (hpull : pull ≠ .next) :
    ((scanner.pull pull).1.isSome → (scanner.pull pull).2.cursor.rest.length < scanner.cursor.rest.length) ∧
      ((scanner.pull pull).1 = none → (scanner.pull pull).2.cursor.rest = []) := by
  cases pull with
  | next => exact absurd rfl hpull
  | record =>
    exact ⟨Cursor.readRecord_rest_lt, fun hnone =>
      (Cursor.readRecord_without_directive (congrArg (·.bind Record.directive?) hnone)).2 hnone⟩
  | recordOrSemicolon =>
    exact ⟨Cursor.readRecordOrSemicolon_rest_lt, fun hnone =>
      (Cursor.readRecordOrSemicolon_without_directive (congrArg (·.bind Record.directive?) hnone)).2 hnone⟩

/-- A pull never moves the cursor back. -/
theorem rest_pull_le (scanner : Scanner) (pull : Pull) :
    (scanner.pull pull).2.cursor.rest.length ≤ scanner.cursor.rest.length := by
  by_cases hpull : pull = .next
  · subst hpull
    change scanner.next.2.cursor.rest.length ≤ _
    unfold next
    split
    · exact Nat.le_refl _
    · exact scanner.nextRead_forwards.2
  · obtain ⟨hsome, hnone⟩ := scanner.pull_record_forwards hpull
    cases hrecord : (scanner.pull pull).1 with
    | none => rw [hnone hrecord]; exact Nat.zero_le _
    | some r => exact Nat.le_of_lt (hsome (hrecord ▸ rfl))

/-- Any number of pulls never goes back. -/
theorem rest_pullAll_le (scanner : Scanner) (pulls : List Pull) :
    (scanner.pullAll pulls).cursor.rest.length ≤ scanner.cursor.rest.length := by
  induction pulls generalizing scanner with
  | nil => exact Nat.le_refl _
  | cons pull pulls ih => exact Nat.le_trans (ih _) (rest_pull_le scanner pull)

/-- At the end of the source there is no record to pull. -/
theorem pull_record_of_rest_nil {scanner : Scanner} (hrest : scanner.cursor.rest = []) {pull : Pull}
    (hpull : pull ≠ .next) : (scanner.pull pull).1 = none := by
  refine Option.not_isSome_iff_eq_none.1 fun hrecord => ?_
  have hlt := (scanner.pull_record_forwards hpull).1 hrecord
  rw [hrest] at hlt
  exact Nat.not_lt_zero _ hlt

end Scanner

/-- No pull moves the cursor of a scanner back or beyond the end of the source. A pull for a record moves it ahead if
    there is one; if there is none, it is at the end of the source, where later pulls find no record either and leave
    it. The readers of the scanner are the only ones that one more round of reading leaves as they are, because what
    a round does at a place depends on places with fewer characters ahead only. -/
theorem pull_progress (source : Text) (pulls : List Pull) (pull : Pull) :
    let scanner := (Scanner.ofText source).pullAll pulls
    let after := (scanner.pull pull).2
    scanner.cursor.offset ≤ after.cursor.offset ∧ after.cursor.offset ≤ source.length ∧
      (pull ≠ .next →
        ((scanner.pull pull).1.isSome → scanner.cursor.offset < after.cursor.offset) ∧
        ((scanner.pull pull).1 = none → after.cursor.offset = source.length ∧
          ∀ later again, again ≠ .next → ((after.pullAll later).pull again).1 = none ∧
            ((after.pullAll later).pull again).2.cursor.offset = source.length)) ∧
      (∀ readers others : Readers, ∀ cursor : Cursor,
        (∀ next : Cursor, next.length - next.offset < cursor.length - cursor.offset → readers.AgreeAt others next) →
          readers.unfold.AgreeAt others.unfold cursor) ∧
      ∀ readers : Readers, readers.unfold = readers ↔ readers = .actual := by
  intro scanner after
  have hlength : scanner.cursor.length = source.length :=
    ((Scanner.ofText source).length_pullAll pulls).trans (Nat.zero_add _)
  have hafter : after.cursor.length = source.length := (scanner.length_pull pull).trans hlength
  have hahead (cursor : Cursor) : cursor.length - cursor.offset = cursor.rest.length :=
    Nat.add_sub_cancel_left _ _
  have hend (other : Scanner) (hother : other.cursor.length = source.length) (hrest : other.cursor.rest = []) :
      other.cursor.offset = source.length := by
    rw [← hother, Cursor.length, hrest]
    rfl
  have hle := scanner.rest_pull_le pull
  refine ⟨?_, ?_, fun hpull => ⟨fun hsome => ?_, fun hnone => ⟨?_, fun later again hagain => ?_⟩⟩,
    fun readers others cursor h => ?_, fun readers => ⟨Readers.eq_actual, fun h => h ▸ Readers.unfold_actual⟩⟩
  · exact (Cursor.offset_le_iff (scanner.length_pull pull)).2 hle
  · exact hafter ▸ Nat.le_add_right _ _
  · have hlt : after.cursor.rest.length < scanner.cursor.rest.length := (scanner.pull_record_forwards hpull).1 hsome
    have hsame : after.cursor.length = scanner.cursor.length := hafter.trans hlength.symm
    unfold Cursor.length at hsame
    omega
  · exact hend after hafter ((scanner.pull_record_forwards hpull).2 hnone)
  · have hrest : (after.pullAll later).cursor.rest = [] := by
      have hlater := after.rest_pullAll_le later
      rw [(scanner.pull_record_forwards hpull).2 hnone] at hlater
      exact List.eq_nil_of_length_eq_zero (Nat.le_zero.1 hlater)
    have hrecord := Scanner.pull_record_of_rest_nil hrest hagain
    refine ⟨hrecord, hend _ ?_ (((after.pullAll later).pull_record_forwards hagain).2 hrecord)⟩
    exact (Scanner.length_pull _ again).trans ((Scanner.length_pullAll after later).trans hafter)
  · refine Readers.agreeAt_unfold fun next hnext => h next ?_
    rwa [hahead, hahead]

end DirectiveIndex
