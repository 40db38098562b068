import DirectiveIndex.Proofs.Occurrences
import DirectiveIndex.Proofs.PlainReading
import DirectiveIndex.Proofs.Progress

namespace DirectiveIndex

/-- The stretch of the source that a record covers. -/
def Record.span : Record → Span
  | .directive d => d.span
  | .comment span => span
  | .string _ span => span
  | .semicolon span => span

/-- Whether a record is a semicolon. -/
def Record.isSemicolon : Record → Bool
  | .semicolon _ => true
  | _ => false

namespace Scanner

/-- Pulls the next record, with or without semicolons. -/
def nextRecord (scanner : Scanner) (includeSemicolon : Bool) : Option Record × Scanner :=
  if includeSemicolon then scanner.recordOrSemicolon else scanner.record

end Scanner

/-- The next record that is read from a place, with or without semicolons. -/
def Cursor.reading (cursor : Cursor) (includeSemicolon : Bool) : Reading :=
  if includeSemicolon then cursor.readRecordOrSemicolon else cursor.readRecord

namespace Scanner

/-- A record is pulled by one reading at the cursor, from which the scanner resumes. -/
theorem nextRecord_eq (scanner : Scanner) (includeSemicolon : Bool) :
    scanner.nextRecord includeSemicolon =
      ((scanner.cursor.reading includeSemicolon).record?, scanner.resume (scanner.cursor.reading includeSemicolon)) := by
  cases includeSemicolon <;> rfl

/-- A pulled record leaves less to read. -/
theorem nextRecord_rest_lt {scanner after : Scanner} {includeSemicolon : Bool} {r : Record}
    (h : scanner.nextRecord includeSemicolon = (some r, after)) :
    after.cursor.rest.length < scanner.cursor.rest.length := by
  rw [nextRecord_eq] at h
  obtain ⟨hrecord, rfl⟩ := Prod.mk.inj h
  cases includeSemicolon with
  | true => exact Cursor.readRecordOrSemicolon_rest_lt (Option.isSome_of_eq_some hrecord)
  | false => exact Cursor.readRecord_rest_lt (Option.isSome_of_eq_some hrecord)

/-- Pulls records until there are no more, with or without semicolons. -/
def records (scanner : Scanner) (includeSemicolon : Bool) : List Record :=
  match _pulled : scanner.nextRecord includeSemicolon with
  | (none, _) => []
  | (some r, after) => r :: records after includeSemicolon
termination_by scanner.cursor.rest.length
decreasing_by exact nextRecord_rest_lt _pulled

variable {scanner other : Scanner} {includeSemicolon : Bool} {r : Record}

theorem records_of_none (h : (scanner.cursor.reading includeSemicolon).record? = none) :
    scanner.records includeSemicolon = [] := by
  rw [records]
  split
  · rfl
  · rename_i hpulled
    rw [nextRecord_eq, h] at hpulled
    cases hpulled

theorem records_of_some (h : (scanner.cursor.reading includeSemicolon).record? = some r) :
    scanner.records includeSemicolon =
      r :: (scanner.resume (scanner.cursor.reading includeSemicolon)).records includeSemicolon := by
  rw [records]
  split
  · rename_i hpulled
    rw [nextRecord_eq, h] at hpulled
    cases hpulled
  · rename_i hpulled
    rw [nextRecord_eq, h] at hpulled
    obtain ⟨hrecord, rfl⟩ := Prod.mk.inj hpulled
    rw [Option.some.inj hrecord]

/-- What is pending makes no difference to the records that are pulled. -/
theorem records_congr (h : other.cursor = scanner.cursor) :
    other.records includeSemicolon = scanner.records includeSemicolon := by
  fun_induction records scanner includeSemicolon generalizing other with
  | case1 scanner after hpulled =>
    rw [nextRecord_eq] at hpulled
    exact records_of_none (by rw [h, (Prod.mk.inj hpulled).1])
  | case2 scanner r after hpulled ih =>
    rw [nextRecord_eq] at hpulled
    obtain ⟨hrecord, rfl⟩ := Prod.mk.inj hpulled
    rw [records_of_some (by rw [h, hrecord]), ih (by rw [h]; rfl)]

end Scanner

namespace Cursor

variable {cursor : Cursor} {includeSemicolon : Bool} {r : Record} {reading : Reading}

/-- The records that are pulled from a place on, whatever is pending. -/
def records (cursor : Cursor) (includeSemicolon : Bool) : List Record :=
  Scanner.records ⟨cursor, []⟩ includeSemicolon

theorem records_of_none (h : cursor.reading includeSemicolon = reading) (hrecord : reading.record? = none) :
    cursor.records includeSemicolon = [] :=
  Scanner.records_of_none ((congrArg Reading.record? h).trans hrecord)

theorem records_of_some (h : cursor.reading includeSemicolon = reading) (hrecord : reading.record? = some r) :
    cursor.records includeSemicolon = r :: reading.after.records includeSemicolon := by
  subst h
  exact (Scanner.records_of_some hrecord).trans (congrArg (r :: ·) (Scanner.records_congr rfl))

/-- Without semicolons, no semicolon is read. -/
theorem isSemicolon_of_readRecord (h : cursor.readRecord.record? = some r) : r.isSemicolon = false := by
  unfold readRecord at h
  split at h
  · cases h
  · rename_i found next _
    obtain ⟨opener, start, stop⟩ := found
    cases opener with
    | keyword word =>
      obtain ⟨d, -, rfl⟩ := Option.map_eq_some_iff.1 h
      rfl
    | comment kind =>
      obtain rfl := Option.some.inj h
      rfl
    | quote mark =>
      obtain rfl := Option.some.inj h
      rfl

/-- Without semicolons, the records are the same less these. -/
theorem records_false (cursor : Cursor) : cursor.records false = (cursor.records true).filter (!·.isSemicolon) := by
  induction hlength : cursor.rest.length using Nat.strongRecOn generalizing cursor with
  | ind n ih =>
    subst hlength
    have hwithout : cursor.reading false = cursor.readRecord := rfl
    rcases cursor.readRecordOrSemicolon_cases with hsame | ⟨k, hk, hsemicolon, hbehind⟩
    · have hwith : cursor.reading true = cursor.readRecord := hsame
      cases hrecord : cursor.readRecord.record? with
      | none => rw [records_of_none hwithout hrecord, records_of_none hwith hrecord, List.filter_nil]
      | some r =>
        have hlt := readRecord_rest_lt (Option.isSome_of_eq_some hrecord)
        rw [records_of_some hwithout hrecord, records_of_some hwith hrecord, ih _ hlt _ rfl,
          List.filter_cons_of_pos (by rw [isSemicolon_of_readRecord hrecord]; rfl)]
    · have hlt : (cursor.skip (k + 1)).rest.length < cursor.rest.length := by
        rw [rest_skip, List.length_drop]
        omega
      have hwith : cursor.reading true = _ := hsemicolon
      have hskip : (cursor.skip (k + 1)).reading false = cursor.readRecord := hbehind.symm
      have hsame : cursor.records false = (cursor.skip (k + 1)).records false := by
        cases hrecord : cursor.readRecord.record? with
        | none => rw [records_of_none hwithout hrecord, records_of_none hskip hrecord]
        | some r => rw [records_of_some hwithout hrecord, records_of_some hskip hrecord]
      rw [hsame, ih _ hlt _ rfl, records_of_some hwith rfl,
        List.filter_cons_of_neg Bool.noConfusion]

end Cursor

section PlainLexer

variable {source : Text} {p q r : Nat} {token : Record}

/-- Whether a place lies outside comments and string literals. -/
def AtCode (source : Text) (p : Nat) : Prop :=
  (lexerAt source p).settle (placeAt source p) = .code

instance (source : Text) (p : Nat) : Decidable (AtCode source p) :=
  inferInstanceAs (Decidable (_ = _))

/-- Where something ends that a place lies in: at the next place outside comments and string literals, or at the end of
the source. -/
def closesAt (source : Text) (p : Nat) : Nat :=
  ((List.range source.length).find? fun q => decide (p ≤ q ∧ AtCode source q)).getD source.length

/-- The comment, string literal or semicolon that the plain lexer finds at a place. -/
def tokenAt? (source : Text) (p : Nat) : Option Record :=
  if AtCode source p then
    match (placeAt source p).sign? with
    | some (.comment _) => some (.comment ⟨p, closesAt source (p + 1)⟩)
    | some (.quote mark) => some (.string (contentAt source mark p) ⟨p, closesAt source (p + 1)⟩)
    | some .semicolon => some (.semicolon ⟨p, p + 1⟩)
    | _ => none
  else
    none

/-- The tokens from a place on. -/
def tokensFrom (source : Text) (p : Nat) : List Record :=
  (List.range' p (source.length - p)).filterMap (tokenAt? source)

/-- The comments, string literals and semicolons that the plain lexer finds in a source. -/
def tokens (source : Text) : List Record :=
  tokensFrom source 0

/-- Whether the comment whose text begins at `p` ends at `stop`: with the first occurrence of what closes it, or at
the end of the source if there is none. -/
def CommentKind.EndsAt (source : Text) (kind : CommentKind) (p stop : Nat) : Prop :=
  (∃ q, p ≤ q ∧ kind.closing.OccursAt source q stop ∧ ∀ r, p ≤ r → r < q → ∀ n, ¬ kind.closing.OccursAt source r n) ∨
    (∀ r, p ≤ r → r ≤ source.length → ∀ n, ¬ kind.closing.OccursAt source r n) ∧ stop = source.length

/-- Whether a record is what stands in the source where it says. -/
def Record.IsTokenOf (source : Text) : Record → Prop
  | .directive _ => False
  | .comment span => ∃ kind : CommentKind, kind.opening <+: source.drop span.start ∧
      kind.EndsAt source (span.start + kind.opening.length) span.stop
  | .string value span => ∃ mark, LiteralAt source mark span.start value span.stop
  | .semicolon span => source[span.start]? = some ';' ∧ span.stop = span.start + 1

/-- Whether from `p` to `q` every place lies in a comment or a string literal, and at `q` that is over. -/
structure RunsTo (source : Text) (p q : Nat) : Prop where
  le : p ≤ q
  le_length : q ≤ source.length
  inside : ∀ r, p ≤ r → r < q → ¬ AtCode source r
  isOver : AtCode source q ∨ q = source.length

namespace RunsTo

/-- A region ends at once in code and at the end of the source. -/
theorem here (hp : p ≤ source.length) (hover : AtCode source p ∨ p = source.length) : RunsTo source p p :=
  ⟨Nat.le_refl p, hp, fun _ hle hlt => absurd (Nat.lt_of_le_of_lt hle hlt) (Nat.lt_irrefl p), hover⟩

/-- A region goes on over a character that is not in code. -/
theorem cons (hinside : ¬ AtCode source p) (h : RunsTo source (p + 1) q) : RunsTo source p q := by
  refine ⟨Nat.le_of_succ_le h.le, h.le_length, fun r hle hlt => ?_, h.isOver⟩
  rcases Nat.eq_or_lt_of_le hle with rfl | hlt'
  · exact hinside
  · exact h.inside r hlt' hlt

/-- The closing place is where the region ends. -/
theorem closesAt_eq (h : RunsTo source p q) : closesAt source p = q := by
  unfold closesAt
  rcases Nat.eq_or_lt_of_le h.le_length with rfl | hlt
  · have hnone : ((List.range source.length).find? fun q => decide (p ≤ q ∧ AtCode source q)) = none := by
      refine List.find?_range_eq_none.2 fun r hr => ?_
      rw [Bool.not_eq_true', decide_eq_false_iff_not]
      exact fun hcode => h.inside r hcode.1 hr hcode.2
    rw [hnone]
    rfl
  · have hsome : ((List.range source.length).find? fun q => decide (p ≤ q ∧ AtCode source q)) = some q := by
      refine List.find?_range_eq_some.2 ⟨?_, List.mem_range.2 hlt, fun r hr => ?_⟩
      · exact decide_eq_true ⟨h.le, h.isOver.resolve_right (Nat.ne_of_lt hlt)⟩
      · rw [Bool.not_eq_true', decide_eq_false_iff_not]
        exact fun hcode => h.inside r hcode.1 hr hcode.2
    rw [hsome]
    rfl

end RunsTo

/-- Behind a character of code, the lexer is in what begins there. -/
theorem lexerAt_succ_of_atCode (hp : p < source.length) (hcode : AtCode source p) :
    lexerAt source (p + 1) = Lexer.enter (placeAt source p).sign? := by
  obtain ⟨last?, hplace⟩ := placeAt_of_lt hp
  rw [AtCode, hplace] at hcode
  rw [lexerAt, hplace, Lexer.step_of_code hcode]

/-- Outside comments and strings stands code. -/
theorem atCode_of_lexerAt (h : lexerAt source p = .code) : AtCode source p := by
  rw [AtCode, h]
  rfl

/-- In an open comment or string stands no code. The end of a line comment is left out: there the
lexer still has the comment open. -/
theorem not_atCode_of_lexerAt {lexer : Lexer} (h : lexerAt source p = lexer) (hcode : lexer ≠ .code)
    (hline : lexer ≠ .comment .line) : ¬ AtCode source p := by
  rw [AtCode, h]
  rcases lexer.settle_eq_or (placeAt source p) with hself | ⟨hlexer, -⟩
  · rwa [hself]
  · exact absurd hlexer hline

/-- The state behind a place in the source, from the state before it. -/
theorem exists_step_lexerAt {lexer : Lexer} (hp : p < source.length) (h : lexerAt source p = lexer) :
    ∃ last?, placeAt source p = ⟨last?, p, source[p] :: source.drop (p + 1)⟩ ∧
      lexerAt source (p + 1) = lexer.step ⟨last?, p, source[p] :: source.drop (p + 1)⟩ := by
  obtain ⟨last?, hplace⟩ := placeAt_of_lt hp
  exact ⟨last?, hplace, by rw [lexerAt, h, hplace]⟩

/-- What the scanner skips as the rest of a comment is what the plain lexer has in the comment. -/
theorem runsTo_skipComment {kind : CommentKind} (hp : p ≤ source.length) (h : lexerAt source p = .comment kind) :
    ∃ q, (placeAt source p).skipComment kind = placeAt source q ∧ RunsTo source p q := by
  induction hn : source.length - p generalizing p with
  | zero =>
    obtain rfl : p = source.length := by omega
    refine ⟨source.length, ?_, .here hp (.inr rfl)⟩
    rw [Cursor.skipComment, advance_placeAt_length]
  | succ n ih =>
    have hlt : p < source.length := by omega
    have hsucc := placeAt_succ_of_lt hlt
    obtain ⟨last?, hplace, hnext⟩ := exists_step_lexerAt hlt h
    cases kind with
    | block =>
      have hinside := not_atCode_of_lexerAt h Lexer.noConfusion (by decide)
      rw [hplace, Cursor.skipComment_cons]
      simp only [Lexer.step, Lexer.settle] at hnext
      simp only [CommentKind.closing, Pattern.width?]
      by_cases hclosing : "*/".toList.isPrefixOf (source[p] :: source.drop (p + 1)) = true
      · rw [if_pos hclosing] at hnext ⊢
        have hlt' : p + 1 < source.length := by
          have hlength := (List.isPrefixOf_iff_prefix.1 hclosing).length_le
          rw [List.length_cons, List.length_drop] at hlength
          exact Nat.lt_of_sub_pos (Nat.le_of_succ_le_succ hlength)
        obtain ⟨last'?, -, hbehind⟩ := exists_step_lexerAt hlt' hnext
        refine ⟨p + 2, ?_, .cons hinside (.cons ?_ (.here hlt' (.inl (atCode_of_lexerAt hbehind))))⟩
        · exact (congrArg (Cursor.skip 2) hplace.symm).trans (skip_placeAt source p 2)
        · exact not_atCode_of_lexerAt hnext Lexer.noConfusion Lexer.noConfusion
      · rw [if_neg hclosing] at hnext ⊢
        obtain ⟨q, hskip, hruns⟩ := ih hlt hnext (by omega)
        exact ⟨q, hsucc ▸ hskip, .cons hinside hruns⟩
    | line =>
      have hwidth : CommentKind.line.closing.width? last? (source[p] :: source.drop (p + 1)) =
          if (placeAt source p).atLineEnd then some 0 else none := by rw [hplace]; rfl
      have hat : AtCode source p ↔ (placeAt source p).atLineEnd = true := by
        rw [AtCode, h, Lexer.settle]
        split <;> simp_all
      by_cases hend : (placeAt source p).atLineEnd = true
      · rw [if_pos hend] at hwidth
        refine ⟨p, ?_, .here hp (.inl (hat.2 hend))⟩
        rw [hplace, Cursor.skipComment_cons, hwidth]
        rfl
      · rw [if_neg hend] at hwidth
        rw [hplace] at hend
        simp only [Lexer.step, Lexer.settle, if_neg hend] at hnext
        obtain ⟨q, hskip, hruns⟩ := ih hlt hnext (by omega)
        refine ⟨q, ?_, .cons (fun hcode => hend (hplace ▸ hat.1 hcode)) hruns⟩
        rw [hplace, Cursor.skipComment_cons, hwidth]
        exact hsucc ▸ hskip

/-- What the scanner reads as the rest of a string literal is what the plain lexer has in the string literal. -/
theorem runsTo_readString {mark : Quote} {content : Text} (hp : p ≤ source.length)
    (h : lexerAt source p = .string mark content) :
    ∃ q, ((placeAt source p).readString mark).2 = placeAt source q ∧ RunsTo source p q := by
  induction hn : source.length - p generalizing p content with
  | zero =>
    obtain rfl : p = source.length := by omega
    have hnone : mark.char ∉ (placeAt source source.length).rest := by
      rw [rest_placeAt, List.drop_length]
      exact List.not_mem_nil
    refine ⟨source.length, ?_, .here hp (.inr rfl)⟩
    rw [Cursor.readString_of_not_mem hnone, toEnd_placeAt (Nat.le_refl _)]
  | succ n ih =>
    have hlt : p < source.length := by omega
    have hsucc := placeAt_succ_of_lt hlt
    obtain ⟨last?, hplace, hnext⟩ := exists_step_lexerAt hlt h
    have hinside := not_atCode_of_lexerAt h Lexer.noConfusion Lexer.noConfusion
    rw [hplace, Cursor.readString_cons, ← hsucc]
    simp only [Lexer.step, Lexer.settle] at hnext
    by_cases hclosing : source[p] = mark.char
    · rw [if_pos hclosing] at hnext ⊢
      exact ⟨p + 1, rfl, .cons hinside (.here hlt (.inl (atCode_of_lexerAt hnext)))⟩
    · rw [if_neg hclosing] at hnext ⊢
      obtain ⟨q, hread, hruns⟩ := ih hlt hnext (by omega)
      exact ⟨q, hread, .cons hinside hruns⟩

/-- Different positions are different places. -/
theorem placeAt_injective (hp : p ≤ source.length) (hq : q ≤ source.length) (h : placeAt source p = placeAt source q) :
    p = q := by
  rw [← offset_placeAt hp, h, offset_placeAt hq]

/-- A comment that the scanner skips ends where its closing first occurs. -/
theorem endsAt_of_skipComment {kind : CommentKind} (hp : p ≤ source.length) (hq : q ≤ source.length)
    (h : (placeAt source p).skipComment kind = placeAt source q) : kind.EndsAt source p q := by
  rcases Nat.eq_or_lt_of_le hp with rfl | hlt
  · rw [Cursor.skipComment, advance_placeAt_length] at h
    refine .inr ⟨fun r hle hlength n hoccurs => ?_, (placeAt_injective (Nat.le_refl _) hq h).symm⟩
    obtain rfl := Nat.le_antisymm hlength hle
    cases kind <;> simp [CommentKind.closing, Pattern.OccursAt] at hoccurs
  · obtain ⟨hsome, hnone⟩ := advance_placeAt_iff hlt [⟨(), kind.closing⟩]
    rw [Cursor.skipComment] at h
    cases hadvance : (placeAt source p).advance [⟨(), kind.closing⟩] with
    | mk found? after =>
      rw [hadvance] at h
      cases found? with
      | none =>
        obtain ⟨hnowhere, rfl⟩ := (hnone after).1 hadvance
        refine .inr ⟨fun r hle hlength => hnowhere r hle hlength _ List.mem_cons_self, ?_⟩
        exact (placeAt_injective (Nat.le_refl _) hq h).symm
      | some found =>
        obtain ⟨hearliest, rfl⟩ := (hsome found after).1 hadvance
        obtain rfl := placeAt_injective hearliest.stop_le hq h
        obtain ⟨before, anchor, behind, hanchors, -, hoccurs, -⟩ := hearliest.occurs
        obtain rfl : ⟨(), kind.closing⟩ = anchor := by
          have hmem : anchor ∈ [⟨(), kind.closing⟩] := hanchors ▸ List.mem_append_right _ List.mem_cons_self
          exact (List.mem_singleton.1 hmem).symm
        exact .inl ⟨found.start, hearliest.le_start, hoccurs,
          fun r hle hlt => hearliest.first r hle hlt _ List.mem_cons_self⟩

/-- A record read at a place where something begins that the scanner stops at. -/
theorem readRecordOrSemicolon_placeAt (hp : p < source.length) :
    (placeAt source p).readRecordOrSemicolon =
      match (placeAt source p).sign? with
      | some (.keyword word) => (placeAt source (p + 6)).readOpened (.keyword word) p
      | some (.comment kind) => (placeAt source (p + 2)).readOpened (.comment kind) p
      | some (.quote mark) => (placeAt source (p + 1)).readOpened (.quote mark) p
      | some .semicolon => ⟨some (.semicolon ⟨p, p + 1⟩), [], placeAt source (p + 1)⟩
      | _ => (placeAt source (p + 1)).readRecordOrSemicolon := by
  have hend (last? : Option Char) (offset : Nat) : Cursor.foundHere? statementMarks ⟨last?, offset, []⟩ = none := rfl
  have hfound := Cursor.foundHere?_anchors Sign.statementMark? (placeAt source p) (fun _ => rfl) (fun _ => rfl)
  rw [← statementMarks_eq, offset_placeAt (Nat.le_of_lt hp)] at hfound
  simp only [skip_placeAt] at hfound
  obtain ⟨last?, hplace⟩ := placeAt_of_lt hp
  have hadvance : (placeAt source p).advance? statementMarks =
      ((placeAt source p).foundHere? statementMarks).or ((placeAt source (p + 1)).advance? statementMarks) := by
    rw [hplace, Cursor.advance?_cons hend, placeAt_succ_of_lt hp]
  have hlater : (placeAt source (p + 1)).toEnd = (placeAt source p).toEnd := by
    rw [toEnd_placeAt hp, toEnd_placeAt (Nat.le_of_lt hp)]
  rw [Cursor.readRecordOrSemicolon, hadvance, hfound, Cursor.readRecordOrSemicolon, hlater]
  cases (placeAt source p).sign? with
  | none => rfl
  | some sign =>
    cases sign with
    | keyword word => cases word <;> rfl
    | _ => rfl

/-- What the lexer knows of a token, and what the scanner reads there. -/
structure TokenSpec (source : Text) (p : Nat) (token : Record) : Prop where
  start_eq : token.span.start = p
  runsTo : RunsTo source (p + 1) token.span.stop
  isTokenOf : token.IsTokenOf source
  read : (placeAt source p).readRecordOrSemicolon = ⟨some token, [], placeAt source token.span.stop⟩

/-- A comment that begins in code is a token up to its end. -/
theorem tokenSpec_comment {kind : CommentKind} (hp : p < source.length) (hcode : AtCode source p)
    (hsign : (placeAt source p).sign? = some (.comment kind)) :
    TokenSpec source p (.comment ⟨p, closesAt source (p + 1)⟩) := by
  have hbegins : (Sign.comment kind).beginsAt (placeAt source p) = true := List.find?_some hsign
  rw [Sign.beginsAt, rest_placeAt, List.isPrefixOf_iff_prefix] at hbegins
  have hlength : kind.opening.length = 2 := by cases kind <;> rfl
  have hlt : p + 1 < source.length := by
    have hle := hbegins.length_le
    rw [hlength, List.length_drop] at hle
    omega
  have hopening : lexerAt source (p + 1) = .opening kind := by rw [lexerAt_succ_of_atCode hp hcode, hsign]; rfl
  obtain ⟨last?, -, hcomment⟩ := exists_step_lexerAt hlt hopening
  obtain ⟨q, hskip, hruns⟩ := runsTo_skipComment hlt hcomment
  have hall : RunsTo source (p + 1) q :=
    hruns.cons (not_atCode_of_lexerAt hopening Lexer.noConfusion Lexer.noConfusion)
  have hread := readRecordOrSemicolon_placeAt hp
  simp only [hsign] at hread
  rw [hall.closesAt_eq]
  refine ⟨rfl, hall, ⟨kind, hbegins, ?_⟩, ?_⟩
  · rw [hlength]
    exact endsAt_of_skipComment hlt hall.le_length hskip
  · rw [hread, Cursor.readOpened, hskip, offset_placeAt hall.le_length]
    rfl

/-- A string that begins in code is a token up to its end. -/
theorem tokenSpec_string {mark : Quote} (hp : p < source.length) (hcode : AtCode source p)
    (hsign : (placeAt source p).sign? = some (.quote mark)) :
    TokenSpec source p (.string (contentAt source mark p) ⟨p, closesAt source (p + 1)⟩) := by
  have hchar : source[p]? = some mark.char := by
    obtain ⟨tail, htail⟩ := Cursor.rest_of_sign?_quote hsign
    rw [rest_placeAt] at htail
    rw [← List.head?_drop, htail]
    rfl
  have hstring : lexerAt source (p + 1) = .string mark [] := by rw [lexerAt_succ_of_atCode hp hcode, hsign]; rfl
  obtain ⟨q, hstop, hruns⟩ := runsTo_readString hp hstring
  have hcontent : ((placeAt source (p + 1)).readString mark).1 = contentAt source mark p := by
    rw [Cursor.readString_fst, rest_placeAt, contentAt]
  have hliteral := literalAt_readString hchar
  have hread := readRecordOrSemicolon_placeAt hp
  simp only [hsign] at hread
  rw [hruns.closesAt_eq]
  rw [hcontent, hstop, offset_placeAt hruns.le_length] at hliteral
  refine ⟨rfl, hruns, ⟨mark, hliteral⟩, ?_⟩
  rw [hread, Cursor.readOpened]
  dsimp only
  rw [hcontent, hstop, offset_placeAt hruns.le_length]
  rfl

/-- A semicolon in code is a token. -/
theorem tokenSpec_semicolon (hp : p < source.length) (hcode : AtCode source p)
    (hsign : (placeAt source p).sign? = some .semicolon) : TokenSpec source p (.semicolon ⟨p, p + 1⟩) := by
  have hbegins : Sign.semicolon.beginsAt (placeAt source p) = true := List.find?_some hsign
  have hchar : source[p]? = some ';' := by
    rw [Sign.beginsAt, rest_placeAt, List.isPrefixOf_iff_prefix] at hbegins
    obtain ⟨tail, htail⟩ := hbegins
    rw [← List.head?_drop, ← htail]
    rfl
  have hnext : lexerAt source (p + 1) = .code := by rw [lexerAt_succ_of_atCode hp hcode, hsign]; rfl
  have hread := readRecordOrSemicolon_placeAt hp
  rw [hsign] at hread
  exact ⟨rfl, .here hp (.inl (atCode_of_lexerAt hnext)), ⟨hchar, rfl⟩, hread⟩

/-- What is told to be a token meets the description of one. -/
theorem tokenSpec_of_tokenAt? (hp : p < source.length) (h : tokenAt? source p = some token) :
    TokenSpec source p token := by
  unfold tokenAt? at h
  split at h
  · rename_i hcode
    split at h
    · exact Option.some.inj h ▸ tokenSpec_comment hp hcode ‹_›
    · exact Option.some.inj h ▸ tokenSpec_string hp hcode ‹_›
    · exact Option.some.inj h ▸ tokenSpec_semicolon hp hcode ‹_›
    · cases h
  · cases h

/-- Where the plain lexer finds no token outside comments and string literals, it goes on outside them. -/
theorem atCode_succ_of_tokenAt?_eq_none (hp : p < source.length) (hcode : AtCode source p)
    (hnone : tokenAt? source p = none) : AtCode source (p + 1) := by
  refine atCode_of_lexerAt ((lexerAt_succ_of_atCode hp hcode).trans ?_)
  rw [tokenAt?, if_pos hcode] at hnone
  cases hsign : (placeAt source p).sign? with
  | none => rfl
  | some sign =>
    rw [hsign] at hnone
    cases sign with
    | comment kind => cases hnone
    | quote mark => cases hnone
    | _ => rfl

/-- The tokens from a position on are the one that begins there and those behind it. -/
theorem tokensFrom_of_lt (hp : p < source.length) :
    tokensFrom source p = (tokenAt? source p).toList ++ tokensFrom source (p + 1) := by
  have hlength : source.length - p = source.length - (p + 1) + 1 := by omega
  rw [tokensFrom, hlength, List.range'_succ, List.filterMap_cons]
  cases tokenAt? source p <;> rfl

/-- No tokens begin behind the end of the source. -/
theorem tokensFrom_of_length_le (hp : source.length ≤ p) : tokensFrom source p = [] := by
  rw [tokensFrom, Nat.sub_eq_zero_of_le hp]
  rfl

/-- No token begins within a comment or a string literal. -/
theorem tokensFrom_of_runsTo (h : RunsTo source p q) : tokensFrom source p = tokensFrom source q := by
  obtain ⟨n, rfl⟩ := Nat.exists_eq_add_of_le h.le
  have hlength := h.le_length
  have hsplit : source.length - p = n + (source.length - (p + n)) := by omega
  rw [tokensFrom, hsplit, ← List.range'_append_1, List.filterMap_append, ← tokensFrom,
    List.filterMap_eq_nil_iff.2 fun r hr => ?_, List.nil_append]
  obtain ⟨hle, hlt⟩ := List.mem_range'_1.1 hr
  exact if_neg (h.inside r hle hlt)

/-- Outside comments, string literals and directives, the record that is read is the first of the tokens ahead. -/
theorem readRecordOrSemicolon_eq (hlive : ∀ word p, ¬ LiveIn source (lexerAt source) word p) (hp : p ≤ source.length)
    (hover : AtCode source p ∨ p = source.length) :
    (placeAt source p).readRecordOrSemicolon.record? = none ∧ tokensFrom source p = [] ∨
      ∃ token q, (placeAt source p).readRecordOrSemicolon = ⟨some token, [], placeAt source q⟩ ∧ p < q ∧
        q ≤ source.length ∧ (AtCode source q ∨ q = source.length) ∧
        tokensFrom source p = token :: tokensFrom source q := by
  induction hn : source.length - p generalizing p with
  | zero =>
    refine .inl ⟨?_, tokensFrom_of_length_le (by omega)⟩
    obtain rfl : p = source.length := by omega
    have hend : (placeAt source source.length).atEnd = true := by
      rw [Cursor.atEnd, rest_placeAt, List.drop_length]
      rfl
    rw [Cursor.readRecordOrSemicolon, Cursor.advance?, if_pos hend]
  | succ n ih =>
    have hlt : p < source.length := by omega
    have hcode : AtCode source p := hover.resolve_right (Nat.ne_of_lt hlt)
    cases htoken : tokenAt? source p with
    | some token =>
      have hspec := tokenSpec_of_tokenAt? hlt htoken
      refine .inr ⟨token, token.span.stop, hspec.read, hspec.runsTo.le, hspec.runsTo.le_length, hspec.runsTo.isOver, ?_⟩
      rw [tokensFrom_of_lt hlt, htoken, tokensFrom_of_runsTo hspec.runsTo]
      rfl
    | none =>
      have hread := readRecordOrSemicolon_placeAt hlt
      have hnext : (placeAt source p).readRecordOrSemicolon = (placeAt source (p + 1)).readRecordOrSemicolon := by
        rw [tokenAt?, if_pos hcode] at htoken
        cases hsign : (placeAt source p).sign? with
        | none => simpa only [hsign] using hread
        | some sign =>
          cases sign with
          | keyword word => exact absurd ⟨hcode, hsign⟩ (hlive word p)
          | identifier => simpa only [hsign] using hread
          | _ =>
            rw [hsign] at htoken
            cases htoken
      rw [hnext, tokensFrom_of_lt hlt, htoken]
      rcases ih hlt (.inl (atCode_succ_of_tokenAt?_eq_none hlt hcode htoken)) (by omega) with
        hnone | ⟨token, q, hsome, hle, hrest⟩
      · exact .inl hnone
      · exact .inr ⟨token, q, hsome, Nat.lt_of_succ_lt hle, hrest⟩

/-- The records that are pulled outside comments, string literals and directives are the tokens ahead. -/
theorem records_placeAt (hlive : ∀ word p, ¬ LiveIn source (lexerAt source) word p) (hp : p ≤ source.length)
    (hover : AtCode source p ∨ p = source.length) : (placeAt source p).records true = tokensFrom source p := by
  induction hn : source.length - p using Nat.strongRecOn generalizing p with
  | ind n ih =>
    rcases readRecordOrSemicolon_eq hlive hp hover with ⟨hnone, htokens⟩ | ⟨token, q, hread, hlt, hq, hcode, htokens⟩
    · rw [htokens]
      exact Cursor.records_of_none rfl hnone
    · have hreading : (placeAt source p).reading true = _ := hread
      rw [Cursor.records_of_some hreading rfl, htokens, ih _ (by omega) hq hcode rfl]

/-- The tokens are what is told at the positions of the source. -/
theorem mem_tokens_iff : token ∈ tokens source ↔ ∃ p < source.length, tokenAt? source p = some token := by
  rw [tokens, tokensFrom, List.mem_filterMap]
  simp

/-- Tokens begin in code. -/
theorem atCode_of_tokenAt? (h : tokenAt? source p = some token) : AtCode source p := by
  refine Decidable.byContradiction fun hcode => ?_
  rw [tokenAt?, if_neg hcode] at h
  cases h

/-- A token ends before the next one begins. -/
theorem pairwise_tokens (source : Text) :
    (tokens source).Pairwise fun token next => token.span.stop ≤ next.span.start := by
  rw [tokens, tokensFrom, List.pairwise_filterMap]
  have hordered : (List.range' 0 (source.length - 0)).Pairwise (· < ·) := List.pairwise_lt_range'
  refine hordered.imp_of_mem fun {p q} hp hq hlt token htoken next hnext => ?_
  have hbound {r : Nat} (hr : r ∈ List.range' 0 (source.length - 0)) : r < source.length := by
    simpa using (List.mem_range'_1.1 hr).2
  have hspec := tokenSpec_of_tokenAt? (hbound hp) htoken
  rw [(tokenSpec_of_tokenAt? (hbound hq) hnext).start_eq]
  exact Nat.le_of_not_lt fun hinside => hspec.runsTo.inside q hlt hinside (atCode_of_tokenAt? hnext)

/-- Before every place in a comment or a string literal there is a last one outside them. -/
theorem exists_last_atCode (h : ¬ AtCode source p) :
    ∃ s < p, AtCode source s ∧ ∀ r, s < r → r ≤ p → ¬ AtCode source r := by
  induction p with
  | zero => exact absurd (atCode_of_lexerAt rfl) h
  | succ p ih =>
    have hextend {s : Nat} (hinside : ∀ r, s < r → r ≤ p → ¬ AtCode source r) :
        ∀ r, s < r → r ≤ p + 1 → ¬ AtCode source r := by
      intro r hlt hle
      rcases Nat.le_succ_iff.1 hle with hle | rfl
      · exact hinside r hlt hle
      · exact h
    by_cases hcode : AtCode source p
    · exact ⟨p, Nat.lt_succ_self p, hcode, hextend fun r hlt hle => absurd hlt (Nat.not_lt_of_le hle)⟩
    · obtain ⟨s, hs, hstart, hinside⟩ := ih hcode
      exact ⟨s, Nat.lt_succ_of_lt hs, hstart, hextend hinside⟩

/-- What lies in a comment or a string literal lies in one of the tokens. -/
theorem exists_token_of_not_atCode (hp : p < source.length) (h : ¬ AtCode source p) :
    ∃ token ∈ tokens source, token.span.start ≤ p ∧ p < token.span.stop := by
  obtain ⟨s, hs, hcode, hinside⟩ := exists_last_atCode h
  have hlt := Nat.lt_trans hs hp
  cases htoken : tokenAt? source s with
  | none => exact absurd (atCode_succ_of_tokenAt?_eq_none hlt hcode htoken) (hinside (s + 1) (Nat.lt_succ_self s) hs)
  | some token =>
    have hspec := tokenSpec_of_tokenAt? hlt htoken
    refine ⟨token, mem_tokens_iff.2 ⟨s, hlt, htoken⟩, hspec.start_eq ▸ Nat.le_of_lt hs, Nat.lt_of_not_le fun hle => ?_⟩
    rcases hspec.runsTo.isOver with hover | hover
    · exact hinside _ hspec.runsTo.le hle hover
    · omega

/-- Outside the tokens nothing stands that could begin one. -/
theorem nothing_between_tokens (hp : p < source.length)
    (hbetween : ∀ token ∈ tokens source, ¬ (token.span.start ≤ p ∧ p < token.span.stop)) :
    (∀ mark : Quote, source[p]? ≠ some mark.char) ∧ source[p]? ≠ some ';' ∧
      ∀ kind : CommentKind, ¬ kind.opening <+: source.drop p := by
  have hcode : AtCode source p := by
    refine Decidable.byContradiction fun hinside => ?_
    obtain ⟨token, hmem, hspan⟩ := exists_token_of_not_atCode hp hinside
    exact hbetween token hmem hspan
  have hnone : tokenAt? source p = none := by
    refine Option.eq_none_iff_forall_ne_some.2 fun token htoken => ?_
    have hspec := tokenSpec_of_tokenAt? hp htoken
    exact hbetween token (mem_tokens_iff.2 ⟨p, hp, htoken⟩) ⟨Nat.le_of_eq hspec.start_eq, hspec.runsTo.le⟩
  rw [tokenAt?, if_pos hcode] at hnone
  obtain ⟨last?, hplace⟩ := placeAt_of_lt hp
  rw [List.getElem?_eq_getElem hp]
  refine ⟨fun mark heq => ?_, fun heq => ?_, fun kind ⟨tail, htail⟩ => ?_⟩
  · rw [hplace, Option.some.inj heq, Cursor.sign?_quote] at hnone
    cases hnone
  · rw [hplace, Option.some.inj heq] at hnone
    cases hnone
  · rw [hplace, ← List.drop_eq_getElem_cons hp, ← htail] at hnone
    cases kind <;> cases hnone

/-- Whether no directive keyword stands as a whole word outside comments and string literals. -/
def IsDirectiveFree (source : Text) : Prop :=
  ∀ word p, ¬ LiveIn source (lexerAt source) word p

instance (source : Text) : Decidable (IsDirectiveFree source) :=
  decidable_of_iff (∀ word, ∀ p < source.length, ¬ LiveIn source (lexerAt source) word p)
    ⟨fun h word p hlive => h word p (lt_length_of_liveIn hlive) hlive, fun h word p _ => h word p⟩

/-- In a source without directives, the records that are pulled until there are no more are the comments, string
literals and semicolons that the plain lexer finds. Each of them is what stands in the source where it says, one ends
before the next one begins, and outside them no quote mark, no semicolon and no beginning of a comment is left. -/
theorem records_eq_tokens (hfree : IsDirectiveFree source) :
    (Scanner.ofText source).records true = tokens source ∧
      (Scanner.ofText source).records false = (tokens source).filter (!·.isSemicolon) ∧
      (∀ token ∈ tokens source, token.IsTokenOf source ∧ token.span.start < token.span.stop ∧
        token.span.stop ≤ source.length) ∧
      (tokens source).Pairwise (fun token next => token.span.stop ≤ next.span.start) ∧
      ∀ p < source.length, (∀ token ∈ tokens source, ¬ (token.span.start ≤ p ∧ p < token.span.stop)) →
        (∀ mark : Quote, source[p]? ≠ some mark.char) ∧ source[p]? ≠ some ';' ∧
          ∀ kind : CommentKind, ¬ kind.opening <+: source.drop p := by
  have hrecords : (Scanner.ofText source).records true = tokens source :=
    records_placeAt hfree (Nat.zero_le _) (.inl (atCode_of_lexerAt rfl))
  refine ⟨hrecords, ?_, fun token htoken => ?_, pairwise_tokens source, fun p hp => nothing_between_tokens hp⟩
  · rw [← hrecords]
    exact Cursor.records_false (Cursor.ofText source)
  · obtain ⟨p, hp, hsome⟩ := mem_tokens_iff.1 htoken
    have hspec := tokenSpec_of_tokenAt? hp hsome
    exact ⟨hspec.isTokenOf, hspec.start_eq ▸ hspec.runsTo.le, hspec.runsTo.le_length⟩

/-- A line comment's beginning in a string literal, a quote mark and a semicolon in a comment, and a string literal that
is not closed. -/
theorem records_eq_tokens_nested :
    IsDirectiveFree "x;'//'/*';*/\"y".toList ∧
      (Scanner.ofText "x;'//'/*';*/\"y".toList).records true =
        [.semicolon ⟨1, 2⟩, .string "//".toList ⟨2, 6⟩, .comment ⟨6, 12⟩, .string ['y'] ⟨12, 14⟩] ∧
      (Scanner.ofText "x;'//'/*';*/\"y".toList).records false =
        [.string "//".toList ⟨2, 6⟩, .comment ⟨6, 12⟩, .string ['y'] ⟨12, 14⟩] := by
  have hfree : IsDirectiveFree "x;'//'/*';*/\"y".toList := by decide
  have htokens : tokens "x;'//'/*';*/\"y".toList =
      [.semicolon ⟨1, 2⟩, .string "//".toList ⟨2, 6⟩, .comment ⟨6, 12⟩, .string ['y'] ⟨12, 14⟩] := by decide
  obtain ⟨hrecords, hwithout, -⟩ := records_eq_tokens hfree
  rw [htokens] at hrecords hwithout
  exact ⟨hfree, hrecords, hwithout⟩

end PlainLexer

end DirectiveIndex
