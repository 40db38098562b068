import DirectiveIndex.Clause

namespace DirectiveIndex

/-- The outcome of reading one record from a place: the record, unless the source ends before it is
complete, the directives that follow it, and the place where reading stopped. -/
structure Reading where
  record? : Option Record
  followers : List Directive
  after : Cursor

namespace Cursor

/-- Reads the record of an opener that begins at `start` and has just been passed. -/
def readOpened (opener : Opener) (start : Nat) (cursor : Cursor) : Reading :=
  match opener with
  | .keyword word =>
    let clause := readClause word start cursor
    ⟨clause.directive?.map .directive, clause.followers, clause.after⟩
  | .comment kind =>
    let after := cursor.skipComment kind
    ⟨some (.comment ⟨start, after.offset⟩), [], after⟩
  | .quote mark =>
    let (value, after) := cursor.readString mark
    ⟨some (.string value ⟨start, after.offset⟩), [], after⟩

/-- Reads the next record that is not a semicolon. -/
def readRecord (cursor : Cursor) : Reading :=
  match cursor.advance? openers with
  | none => ⟨none, [], cursor.toEnd⟩
  | some (found, next) => next.readOpened found.label found.start

/-- Reads the next record, semicolons included. -/
def readRecordOrSemicolon (cursor : Cursor) : Reading :=
  match cursor.advance? statementMarks with
  | none => ⟨none, [], cursor.toEnd⟩
  | some (⟨.opener opener, start, _⟩, next) => next.readOpened opener start
  | some (⟨.semicolon, start, stop⟩, next) => ⟨some (.semicolon ⟨start, stop⟩), [], next⟩

theorem readOpened_rest_le (opener : Opener) (start : Nat) (cursor : Cursor) :
    (cursor.readOpened opener start).after.rest.length ≤ cursor.rest.length := by
  cases opener with
  | keyword word => exact readClause_rest_le word start cursor
  | comment kind => exact cursor.skipComment_rest_le kind
  | quote mark => exact cursor.readString_rest_le mark

/-- A record takes up at least one character of the source. -/
theorem readRecord_rest_lt {cursor : Cursor} (h : cursor.readRecord.record?.isSome) :
    cursor.readRecord.after.rest.length < cursor.rest.length := by
  unfold readRecord at h ⊢
  split
  · simp_all
  · rename_i found next hfound
    have hlt := advance?_rest_lt openers_consume hfound
    have hle := next.readOpened_rest_le found.label found.start
    omega

theorem readRecord_rest_le (cursor : Cursor) :
    cursor.readRecord.after.rest.length ≤ cursor.rest.length := by
  unfold readRecord
  split
  · simp
  · rename_i found next hfound
    have hlt := advance?_rest_lt openers_consume hfound
    have hle := next.readOpened_rest_le found.label found.start
    omega

end Cursor

/-- A scanner in the course of its work: a place in the source, and directives already read that
`next` has yet to hand out. -/
structure Scanner where
  cursor : Cursor
  pending : List Directive
deriving DecidableEq, Repr

namespace Scanner

/-- A scanner at the start of a source. -/
def ofText (source : Text) : Scanner :=
  ⟨.ofText source, []⟩

/-- The scanner after a reading from its cursor; what the reading leaves pending comes before what
was pending already. -/
def resume (scanner : Scanner) (reading : Reading) : Scanner :=
  ⟨reading.after, reading.followers ++ scanner.pending⟩

/-- Pulls the next record that is not a semicolon, whatever is pending. -/
def record (scanner : Scanner) : Option Record × Scanner :=
  let reading := scanner.cursor.readRecord
  (reading.record?, scanner.resume reading)

/-- Pulls the next record, semicolons included, whatever is pending. -/
def recordOrSemicolon (scanner : Scanner) : Option Record × Scanner :=
  let reading := scanner.cursor.readRecordOrSemicolon
  (reading.record?, scanner.resume reading)

theorem record_rest_lt {scanner after : Scanner} {r : Record}
    (h : scanner.record = (some r, after)) : after.cursor.rest.length < scanner.cursor.rest.length := by
  simp only [record, Prod.mk.injEq] at h
  obtain ⟨hrecord, rfl⟩ := h
  exact Cursor.readRecord_rest_lt (by simp [hrecord])

/-- Pulls records until one is a directive. -/
def nextRead (scanner : Scanner) : Option Directive × Scanner :=
  match _pulled : scanner.record with
  | (none, after) => (none, after)
  | (some (.directive d), after) => (some d, after)
  | (some _, after) => nextRead after
termination_by scanner.cursor.rest.length
decreasing_by exact record_rest_lt _pulled

/-- Pulls the next directive: the first one pending, else the next one in the source. -/
def next (scanner : Scanner) : Option Directive × Scanner :=
  match scanner.pending with
  | d :: rest => (some d, { scanner with pending := rest })
  | [] => scanner.nextRead

theorem nextRead_rest_lt {scanner after : Scanner} {d : Directive}
    (h : scanner.nextRead = (some d, after)) : after.cursor.rest.length < scanner.cursor.rest.length := by
  fun_induction nextRead scanner with
  | case1 scanner after' hpulled => simp at h
  | case2 scanner d' after' hpulled =>
    simp only [Prod.mk.injEq] at h
    exact h.2 ▸ record_rest_lt hpulled
  | case3 scanner r after' _ hpulled ih =>
    have := record_rest_lt hpulled
    have := ih h
    omega

/-- Pulls directives until there are no more. -/
def directives (scanner : Scanner) : List Directive :=
  match _pulled : scanner.next with
  | (none, _) => []
  | (some d, after) => d :: directives after
termination_by (scanner.cursor.rest.length, scanner.pending.length)
decreasing_by
  unfold next at _pulled
  split at _pulled
  · rename_i d' rest hpending
    simp only [Prod.mk.injEq, Option.some.injEq] at _pulled
    obtain ⟨_, rfl⟩ := _pulled
    exact Prod.Lex.right _ (by simp [hpending])
  · exact Prod.Lex.left _ _ (nextRead_rest_lt _pulled)

end Scanner

/-- The directives of a source, in order. Comments and string literals are passed over whole wherever the scanner
stops at them, so text inside them is not taken for a directive. -/
def scan (source : Text) : List Directive :=
  (Scanner.ofText source).directives

end DirectiveIndex
