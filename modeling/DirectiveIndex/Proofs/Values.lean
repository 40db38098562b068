import DirectiveIndex.Proofs.Occurrences
import DirectiveIndex.Proofs.Regions

namespace DirectiveIndex

/-- The name of the pragma that begins at `start` stands at `nameStart`: it is the whole word there, and what comes
between, comments apart, holds no identifier character and no semicolon. -/
structure NamedAt (source : Text) (start : Nat) (name : Text) (nameStart : Nat) : Prop where
  behind : start + Keyword.pragmaWord.text.length ≤ nameStart
  ahead : name <+: source.drop nameStart
  word : Pattern.identifier.OccursAt source nameStart (nameStart + name.length)
  between : ∀ q < nameStart, start + Keyword.pragmaWord.text.length ≤ q →
    regionIn source (readingAt source) q = .comment ∨
      ∀ c ∈ source[q]?, Text.isIdentifier c = false ∧ c ≠ ';'

/-- What ends a pragma behind the text `body`, which the source holds up to `bodyStop`, and where the pragma ends
then. -/
inductive EndsBehind (source body : Text) (bodyStop : Nat) : Nat → Prop
  /-- A semicolon, which belongs to the pragma. -/
  | semicolon : source[bodyStop]? = some ';' → lexerAt body body.length = .code →
      EndsBehind source body bodyStop (bodyStop + 1)
  /-- A keyword that begins the next directive. -/
  | keyword (word : Keyword) : WholeWordAt source word.text bodyStop → lexerAt body body.length = .code →
      EndsBehind source body bodyStop bodyStop
  /-- The end of the source. -/
  | source : bodyStop = source.length → EndsBehind source body bodyStop bodyStop

/-- The text of a pragma behind its name: it stands at `bodyStart`, nothing in it ends the pragma, and what is behind
it does, at `stop`. -/
structure BodyAt (source : Text) (bodyStart : Nat) (body : Text) (stop : Nat) : Prop where
  ahead : body <+: source.drop bodyStart
  ends : EndsBehind source body (bodyStart + body.length) stop
  unended : ∀ q < body.length, regionIn body (lexerAt body) q = .code →
    body[q]? ≠ some ';' ∧ ∀ word : Keyword, ¬ WholeWordAt source word.text (bodyStart + q)

namespace Lexer

variable {next? next'? : Option Char}

/-- Only the second character of a comment's beginning or end and a line feed make a difference to the character in
front of them. -/
theorem stepOver_congr (h : ∀ d, d = '/' ∨ d = '*' ∨ d = '\n' → (next? = some d ↔ next'? = some d)) (lexer : Lexer)
    (c : Char) : lexer.stepOver c next? = lexer.stepOver c next'? := by
  have hslash := h '/' (.inl rfl)
  have hstar := h '*' (.inr (.inl rfl))
  have hfeed := h '\n' (.inr (.inr rfl))
  simp only [stepOver, settleAt, opened, hslash, hstar, hfeed]

/-- Of the character that follows, the region needs to know only whether it belongs to a comment's
mark. -/
theorem regionOf_congr (h : ∀ d, d = '/' ∨ d = '*' ∨ d = '\n' → (next? = some d ↔ next'? = some d)) (lexer : Lexer)
    (c : Char) : lexer.regionOf c next? = lexer.regionOf c next'? := by
  have hfeed := h '\n' (.inr (.inr rfl))
  simp only [regionOf, stepOver_congr h, settleAt, hfeed]

end Lexer

namespace Pass

/-- What ends the value of a pragma at a place, and where the pragma ends then. -/
inductive EndsValue (lexer : Lexer) (place : Cursor) : Nat → Prop
  | semicolon : lexer.settle place = .code → place.sign? = some .semicolon → EndsValue lexer place (place.offset + 1)
  | keyword (word : Keyword) : lexer.settle place = .code → place.sign? = some (.keyword word) →
      EndsValue lexer place place.offset
  | source : place.rest = [] → EndsValue lexer place place.offset

/-- All that the next character can do where the value of a pragma is read: the pragma ends there, or the character is
taken into the value unless it belongs to a comment. -/
theorem step_valuing (start : Nat) (name captured : Text) (lexer : Lexer) (last? : Option Char) (offset : Nat) (c : Char)
    (rest : Text) :
    (∃ stop next, EndsValue lexer ⟨last?, offset, c :: rest⟩ stop ∧
      step ⟨.valuing start name captured, lexer, 0⟩ ⟨last?, offset, c :: rest⟩ =
        (some (.pragma name captured ⟨start, stop⟩), next)) ∨
    ((lexer.regionOf c rest.head? = .code →
        c ≠ ';' ∧ ∀ word, Cursor.sign? ⟨last?, offset, c :: rest⟩ ≠ some (.keyword word)) ∧
      step ⟨.valuing start name captured, lexer, 0⟩ ⟨last?, offset, c :: rest⟩ =
        (none, ⟨.valuing start name (if lexer.regionOf c rest.head? = .comment then captured else captured ++ [c]),
          lexer.stepOver c rest.head?, 0⟩)) := by
  rcases step_cases ⟨.valuing start name captured, lexer, 0⟩ last? offset c rest with
    ⟨hpos, -⟩ | ⟨-, hcode, hstep⟩ | ⟨mark, content, -, hlexer, hstep⟩ | ⟨-, hcode, hmark, hstep⟩
  · exact absurd hpos (Nat.lt_irrefl 0)
  · have hover : lexer.stepOver c rest.head? = Lexer.enter (Cursor.sign? ⟨last?, offset, c :: rest⟩) := by
      rw [← Lexer.step_eq_stepOver, Lexer.step_of_code hcode]
    have hregion : lexer.regionOf c rest.head? =
        (Lexer.enter (Cursor.sign? ⟨last?, offset, c :: rest⟩)).entered := by
      rw [Lexer.regionOf_of_settleAt (Lexer.settle_eq_settleAt.symm.trans hcode), hover]
    have htells := Cursor.any_tells_sign? last? offset c rest
    rw [hstep, hover, hregion]
    cases hsign : Cursor.sign? ⟨last?, offset, c :: rest⟩ with
    | none =>
      refine .inr ⟨fun _ => ⟨?_, nofun⟩, rfl⟩
      rintro rfl
      rw [hsign] at htells
      cases htells
    | some sign =>
      cases sign with
      | keyword word => exact .inl ⟨offset, _, .keyword word hcode hsign, rfl⟩
      | comment kind => exact .inr ⟨nofun, rfl⟩
      | quote mark => exact .inr ⟨nofun, rfl⟩
      | semicolon => exact .inl ⟨offset + 1, _, .semicolon hcode hsign, rfl⟩
      | identifier =>
        refine .inr ⟨fun _ => ⟨?_, nofun⟩, rfl⟩
        rintro rfl
        cases hsign
  · obtain rfl : lexer = .string mark content := hlexer
    refine .inr ⟨nofun, ?_⟩
    rw [hstep, Lexer.stepOver_string, Lexer.regionOf_string]
    split <;> rfl
  · have hcomment : lexer.regionOf c rest.head? = .comment := by
      rw [Lexer.regionOf, ← Lexer.settle_eq_settleAt, Lexer.settle_eq_self hcode]
      rw [Lexer.settle_eq_self hcode] at hcode
      cases lexer with
      | code => exact absurd rfl hcode
      | string mark content => cases hmark
      | _ => rfl
    refine .inr ⟨fun h => ?_, ?_⟩
    · cases hcomment.symm.trans h
    · rw [hstep, hcomment, if_pos rfl, ← Lexer.step_eq_stepOver]

/-- What ends a value is neither the second character of a comment's beginning or end nor a line feed. -/
theorem EndsValue.head?_ne {lexer : Lexer} {place : Cursor} {stop : Nat} (h : EndsValue lexer place stop) {d : Char}
    (hd : d = '/' ∨ d = '*' ∨ d = '\n') : place.rest.head? ≠ some d := by
  intro hhead
  obtain ⟨last?, offset, _ | ⟨c, rest⟩⟩ := place
  · cases hhead
  obtain rfl : c = d := Option.some.inj hhead
  have htells := Cursor.any_tells_sign? last? offset c rest
  have hnot : isTelling c = false := by
    rcases hd with rfl | rfl | rfl <;> decide
  cases h with
  | semicolon _ hsign =>
    rw [hsign, hnot] at htells
    cases htells
  | keyword word _ hsign =>
    rw [hsign, hnot] at htells
    cases htells
  | source hrest => cases hrest

/-- From where a value is read on, the pragma is reported with what is kept of the text up to what ends it. -/
theorem exists_runFrom_valuing (start : Nat) (name captured : Text) (lexer : Lexer) (last? : Option Char) (offset : Nat)
    (rest : Text) :
    ∃ body tail stop, rest = body ++ tail ∧
      EndsValue (lexer.after body) (Cursor.skip body.length ⟨last?, offset, rest⟩) stop ∧
      (∀ q c, (lexer.classify body)[q]? = some (c, .code) →
        c ≠ ';' ∧ ∀ word, (Cursor.skip q ⟨last?, offset, rest⟩).sign? ≠ some (.keyword word)) ∧
      .pragma name (captured ++ lexer.keep body) ⟨start, stop⟩ ∈
        runFrom ⟨.valuing start name captured, lexer, 0⟩ ⟨last?, offset, rest⟩ := by
  induction rest generalizing captured lexer last? offset with
  | nil =>
    refine ⟨[], [], offset, rfl, .source rfl, fun q c hq => absurd hq (by simp [Lexer.classify]), ?_⟩
    have hfinish : finish ⟨.valuing start name captured, lexer, 0⟩ offset =
        some (.pragma name captured ⟨start, offset⟩) := by
      cases lexer <;> rfl
    rw [runFrom_of_rest_nil _ rfl, hfinish]
    simp [Lexer.keep, Lexer.classify]
  | cons c rest ih =>
    rw [runFrom_cons]
    rcases step_valuing start name captured lexer last? offset c rest with ⟨stop, next, hends, hstep⟩ | ⟨hgoes, hstep⟩
    · refine ⟨[], c :: rest, stop, rfl, hends, fun q c hq => absurd hq (by simp [Lexer.classify]), ?_⟩
      rw [hstep]
      simp [Lexer.keep, Lexer.classify]
    · obtain ⟨body, tail, stop, hrest, hends, hopen, hmem⟩ :=
        ih (if lexer.regionOf c rest.head? = .comment then captured else captured ++ [c])
          (lexer.stepOver c rest.head?) (some c) (offset + 1)
      -- What is behind the body makes no difference to its last character.
      have hnext : ∀ d, d = '/' ∨ d = '*' ∨ d = '\n' → (rest.head? = some d ↔ body.head? = some d) := by
        intro d hd
        have htail := hends.head?_ne hd
        rw [Cursor.rest_skip, hrest, List.drop_left] at htail
        rw [hrest]
        cases body with
        | nil => exact ⟨fun h => absurd h htail, fun h => absurd h (by simp)⟩
        | cons => rfl
      have hover := Lexer.stepOver_congr hnext lexer c
      have hregion := Lexer.regionOf_congr hnext lexer c
      refine ⟨c :: body, tail, stop, by rw [hrest]; rfl, ?_, ?_, ?_⟩
      · rw [Lexer.after, ← hover]
        exact hends
      · rw [Lexer.classify, ← hover, ← hregion]
        intro q d hd
        cases q with
        | zero =>
          obtain ⟨rfl, hcode⟩ := Prod.mk.inj (Option.some.inj hd)
          exact hgoes hcode
        | succ q => exact hopen q d hd
      · rw [hstep]
        refine List.mem_append_right _ ?_
        rw [Lexer.keep_cons, ← hover, ← hregion]
        split
        · rename_i hcomment
          rwa [if_pos hcomment] at hmem
        · rename_i hkept
          rwa [if_neg hkept, List.append_assoc, List.singleton_append] at hmem

/-- A value is read behind a name only. -/
theorem valuing_of_step {pass : Pass} {place : Cursor} {start : Nat} {name captured : Text}
    (h : (pass.step place).2.mode = .valuing start name captured) :
    (∃ captured, pass.mode = .valuing start name captured) ∨
      pass.mode = .naming start ∧ pass.due = 0 ∧ pass.lexer.settle place = .code ∧ place.sign? = some .identifier ∧
        name = place.word := by
  have hcapture {mode : Mode} {c : Char} (h : mode.capture c = .valuing start name captured) :
      ∃ captured, mode = .valuing start name captured := by
    cases mode <;> cases h
    exact ⟨_, rfl⟩
  obtain ⟨last?, offset, _ | ⟨c, rest⟩⟩ := place
  · exact .inl ⟨captured, h⟩
  rcases step_cases pass last? offset c rest with
    ⟨_, hstep⟩ | ⟨hdue, hcode, hstep⟩ | ⟨mark, content, _, _, hstep⟩ | ⟨_, _, _, hstep⟩
  · rw [hstep] at h
    exact .inl ⟨captured, h⟩
  · rw [hstep] at h
    cases hsign : Cursor.sign? ⟨last?, offset, c :: rest⟩ with
    | none =>
      rw [hsign] at h
      exact .inl (hcapture h)
    | some sign =>
      rw [hsign] at h
      cases sign with
      | keyword word => cases word <;> cases h
      | comment kind => exact .inl ⟨captured, h⟩
      | quote mark => exact .inl (hcapture h)
      | semicolon =>
        generalize pass.mode = mode at h
        cases mode <;> cases h
      | identifier =>
        cases hmode : pass.mode with
        | naming other =>
          rw [hmode] at h
          cases h
          exact .inr ⟨rfl, hdue, hcode, rfl, rfl⟩
        | _ =>
          rw [hmode] at h
          exact .inl (@hcapture _ c h)
  · rw [hstep] at h
    split at h
    · generalize pass.mode = mode at h
      cases mode <;> cases h
      exact .inl ⟨_, rfl⟩
    · exact .inl (hcapture h)
  · rw [hstep] at h
    exact .inl ⟨captured, h⟩

end Pass

section Source

variable {source : Text} {start : Nat} {name : Text}

/-- Where a value is read, the pass has come from the place of the name. -/
theorem exists_name_of_valuing {p : Nat} (hp : p ≤ source.length) {captured : Text}
    (h : (passAt source p).mode = .valuing start name captured) :
    ∃ n < source.length, (passAt source n).mode = .naming start ∧ (passAt source n).due = 0 ∧
      (readingAt source n).settle (placeAt source n) = .code ∧ (placeAt source n).sign? = some .identifier ∧
      name = (placeAt source n).word := by
  induction p generalizing captured with
  | zero => cases h
  | succ p ih =>
    rw [passAt] at h
    rcases Pass.valuing_of_step h with ⟨captured, hmode⟩ | hname
    · exact ih (Nat.le_of_succ_le hp) hmode
    · exact ⟨p, hp, hname⟩

/-- Where a name is looked for, what stands at a place and does not end that is in a comment, or neither an identifier
character nor a semicolon. -/
private theorem between_succ {q : Nat} (hq : q < source.length) (hmode : (passAt source q).mode = .naming start)
    (hnext : (passAt source (q + 1)).mode = .naming start) (hle : start + Keyword.pragmaWord.text.length ≤ q) :
    regionIn source (readingAt source) q = .comment ∨ ∀ c ∈ source[q]?, Text.isIdentifier c = false ∧ c ≠ ';' := by
  obtain ⟨hlt, hmark, hdue⟩ := lexer_of_naming (Nat.le_of_lt hq) hmode
  obtain ⟨last?, hplace⟩ := placeAt_of_lt hq
  rw [passAt, hplace] at hnext
  rw [readingAt] at hmark
  rw [List.getElem?_eq_getElem hq]
  have htells := Cursor.any_tells_sign? last? q source[q] (source.drop (q + 1))
  rcases Pass.step_naming hmode hmark last? q source[q] (source.drop (q + 1)) with
    ⟨hpos, _⟩ | ⟨_, _, ⟨mark, hsign⟩, _⟩ | ⟨_, hsilent, _, _⟩ | ⟨_, _, _, hother⟩
  · omega
  · obtain ⟨tail, htail⟩ := Cursor.rest_of_sign?_quote hsign
    obtain ⟨hquote, -⟩ := List.cons.inj htail
    rw [hquote]
    refine .inr fun c hc => ?_
    obtain rfl := Option.some.inj hc
    cases mark <;> decide
  · by_cases hcode : (readingAt source q).settle (placeAt source q) = .code
    · rw [hplace] at hcode
      refine .inr fun c hc => ?_
      obtain rfl := Option.some.inj hc
      have hnot := Bool.eq_false_iff.2 fun h => hsilent ⟨hcode, h⟩
      rw [htells, isTelling, Bool.or_eq_false_iff, Bool.or_eq_false_iff, beq_eq_false_iff_ne] at hnot
      exact hnot.1
    · exact .inl (regionIn_of_ne_code hcode hmark)
  · exact absurd (hother start hnext) (Nat.ne_of_lt hlt)

/-- Up to where a name is still looked for, only comments and characters that are no name have been passed. -/
theorem between_of_naming {n : Nat} (hn : n ≤ source.length) (h : (passAt source n).mode = .naming start) :
    ∀ q < n, start + Keyword.pragmaWord.text.length ≤ q →
      regionIn source (readingAt source) q = .comment ∨
        ∀ c ∈ source[q]?, Text.isIdentifier c = false ∧ c ≠ ';' := by
  induction n with
  | zero => exact fun q hq => absurd hq (Nat.not_lt_zero q)
  | succ n ih =>
    intro q hq hle
    rcases Pass.naming_of_step h with hmode | ⟨rfl, -⟩
    · rcases Nat.lt_succ_iff_lt_or_eq.1 hq with hlt | rfl
      · exact ih (Nat.le_of_succ_le hn) hmode q hlt hle
      · exact between_succ hn hmode h hle
    · have hlength : Keyword.pragmaWord.text.length = 6 := rfl
      rw [offset_placeAt (Nat.le_of_succ_le hn)] at hle
      omega

/-- The name that the pass has come to stands where it says. -/
theorem namedAt_of_naming {n : Nat} (hn : n < source.length) (hmode : (passAt source n).mode = .naming start)
    (hdue : (passAt source n).due = 0) (hsign : (placeAt source n).sign? = some .identifier) :
    NamedAt source start (placeAt source n).word n where
  behind := by
    obtain ⟨-, -, hlength⟩ := lexer_of_naming (Nat.le_of_lt hn) hmode
    omega
  ahead := by
    rw [Cursor.word, rest_placeAt]
    exact List.takeWhile_prefix _
  word := by
    have hbegins : Sign.identifier.beginsAt (placeAt source n) = true := List.find?_some hsign
    exact (width?_placeAt_eq_some_iff (Nat.le_of_lt hn) .identifier _).1 (if_pos hbegins)
  between := between_of_naming (Nat.le_of_lt hn) hmode

/-- From the place of the name on, the pass reports what it reports from behind the name on. -/
theorem runFrom_passAt_name {n : Nat} (hn : n < source.length) (hmode : (passAt source n).mode = .naming start)
    (hdue : (passAt source n).due = 0) (hcode : (readingAt source n).settle (placeAt source n) = .code)
    (hsign : (placeAt source n).sign? = some .identifier) :
    (passAt source n).runFrom (placeAt source n) =
      Pass.runFrom ⟨.valuing start (placeAt source n).word [], .code, 0⟩
        (placeAt source (n + (placeAt source n).word.length)) := by
  have hbegins : Sign.identifier.beginsAt (placeAt source n) = true := List.find?_some hsign
  have hlexer : (passAt source n).lexer = .code := by
    obtain ⟨last?, hplace⟩ := placeAt_of_lt hn
    rw [hplace] at hcode hbegins
    exact Lexer.eq_code_of_isIdentifier hcode hbegins
  rw [← skip_placeAt, ← Pass.runFrom_name hsign]
  generalize passAt source n = pass at hmode hdue hlexer
  obtain ⟨mode, lexer, due⟩ := pass
  subst hmode hdue hlexer
  rfl

/-- A keyword that stands at a place as a whole word is what begins there. -/
theorem sign?_of_wholeWordAt {word : Keyword} {p : Nat} (h : WholeWordAt source word.text p) :
    (placeAt source p).sign? = some (.keyword word) := by
  have hp : p ≤ source.length := Nat.le_of_add_right_le h.add_length_le
  have hwidth := (width?_placeAt_eq_some_iff hp (.keyword word.text) word.text.length).2 ⟨h, rfl⟩
  rw [← Sign.pattern, Cursor.width?_pattern, Option.ite_none_right_eq_some] at hwidth
  exact Cursor.sign?_keyword hwidth.1

/-- A value ends behind its body. -/
theorem endsBehind_of_endsValue {body : Text} {p stop : Nat} (hp : p ≤ source.length)
    (h : Pass.EndsValue (lexerAt body body.length) (placeAt source p) stop) : EndsBehind source body p stop := by
  have hoffset := offset_placeAt hp
  cases h with
  | semicolon hcode hsign =>
    have hbegins : Sign.semicolon.beginsAt (placeAt source p) = true := List.find?_some hsign
    rw [Sign.beginsAt, rest_placeAt, List.isPrefixOf_iff_prefix] at hbegins
    obtain ⟨tail, htail⟩ := hbegins
    have hchar : source[p]? = some ';' := by
      rw [← List.head?_drop, ← htail]
      rfl
    obtain ⟨hlt, hget⟩ := List.getElem?_eq_some_iff.1 hchar
    obtain ⟨last?, hplace⟩ := placeAt_of_lt hlt
    rw [hoffset]
    rw [hplace, hget] at hcode
    exact .semicolon hchar (Lexer.eq_code_of_settle hcode (by decide) (by decide))
  | keyword word hcode hsign =>
    have hword := wholeWordAt_of_beginsAt (List.find?_some hsign)
    have hlt : p < source.length := Nat.lt_of_lt_of_le (Nat.lt_add_of_pos_right (by decide)) hword.add_length_le
    have hall := Cursor.all_take_of_sign?_keyword hsign
    obtain ⟨last?, hplace⟩ := placeAt_of_lt hlt
    rw [hoffset]
    rw [hplace] at hcode hall
    have hidentifier : Text.isIdentifier source[p] = true := by
      cases word <;> exact (Bool.and_eq_true_iff.1 hall).1
    exact .keyword word hword (Lexer.eq_code_of_isIdentifier hcode hidentifier)
  | source hrest =>
    rw [rest_placeAt, List.drop_eq_nil_iff] at hrest
    rw [hoffset]
    exact .source (Nat.le_antisymm hp hrest)

/-- From behind a name on, the pass reports the pragma with the text up to what ends it. -/
theorem exists_body {bodyStart : Nat} (hp : bodyStart ≤ source.length) :
    ∃ body stop, BodyAt source bodyStart body stop ∧
      .pragma name (withoutComments body) ⟨start, stop⟩ ∈
        Pass.runFrom ⟨.valuing start name [], .code, 0⟩ (placeAt source bodyStart) := by
  obtain ⟨body, tail, stop, hrest, hends, hopen, hmem⟩ :=
    Pass.exists_runFrom_valuing start name [] .code (placeAt source bodyStart).last? (placeAt source bodyStart).offset
      (placeAt source bodyStart).rest
  rw [List.nil_append, ← withoutComments_eq_keep] at hmem
  refine ⟨body, stop, ⟨?_, ?_, ?_⟩, hmem⟩
  · rw [← rest_placeAt, hrest]
    exact List.prefix_append body tail
  · rw [after_code] at hends
    refine endsBehind_of_endsValue ?_ (skip_placeAt source bodyStart body.length ▸ hends)
    have hlength := congrArg List.length hrest
    rw [rest_placeAt, List.length_drop, List.length_append] at hlength
    omega
  · intro q hq hcode
    have hclassified := getElem?_classify_code body q
    rw [List.getElem?_eq_getElem hq, hcode] at hclassified
    obtain ⟨hsemicolon, hkeyword⟩ := hopen q _ hclassified
    constructor
    · rw [List.getElem?_eq_getElem hq]
      exact fun h => hsemicolon (Option.some.inj h)
    · intro word hword
      refine hkeyword word ?_
      rw [← sign?_of_wholeWordAt hword, ← skip_placeAt]

/-- A pragma with a name is closed from the mode that captures its value. -/
theorem valuing_of_close {mode : Mode} {value : Text} {span : Span} {stop : Nat}
    (h : mode.close stop = some (.pragma name value span)) (hname : name ≠ []) :
    mode = .valuing span.start name value := by
  cases mode <;> cases h
  · exact absurd rfl hname
  · rfl

/-- A pragma with a name is reported where its value is read. -/
theorem valuing_of_reportAt {value : Text} {span : Span} {p : Nat} (hname : name ≠ [])
    (h : reportAt source p = some (.pragma name value span)) :
    (passAt source p).mode = .valuing span.start name value := by
  have hcomplete {mode : Mode} {content : Text} {stop : Nat} :
      mode.complete content stop ≠ some (.pragma name value span) := by
    cases mode <;> exact nofun
  unfold reportAt at h
  split at h
  · rename_i hlt
    obtain ⟨last?, hplace⟩ := placeAt_of_lt hlt
    rw [hplace] at h
    rcases Pass.step_cases (passAt source p) last? p source[p] (source.drop (p + 1)) with
      ⟨_, hstep⟩ | ⟨_, _, hstep⟩ | ⟨mark, content, _, _, hstep⟩ | ⟨_, _, _, hstep⟩
    · rw [hstep] at h
      cases h
    · rw [hstep] at h
      generalize (passAt source p).mode = mode at h
      cases hsign : Cursor.sign? ⟨last?, p, source[p] :: source.drop (p + 1)⟩ with
      | none =>
        rw [hsign] at h
        cases h
      | some sign =>
        rw [hsign] at h
        cases sign with
        | keyword word => exact valuing_of_close h hname
        | semicolon => exact valuing_of_close h hname
        | identifier => cases mode <;> cases h
        | _ => cases h
    · rw [hstep] at h
      split at h
      · exact absurd h hcomplete
      · cases h
    · rw [hstep] at h
      cases h
  · unfold Pass.finish at h
    split at h
    · rw [Option.or_eq_some_iff] at h
      exact valuing_of_close (h.resolve_left hcomplete).2 hname
    · exact valuing_of_close h hname

end Source

/-- A pragma with a name has for its value the text behind the name, up to the semicolon or the keyword in it that
ends the pragma or the end of the source, without the comments in that text. When the value is read again from its
start, there is no comment in it, and no semicolon outside string literals. -/
theorem value_of_mem_scan {source name value : Text} {span : Span} (h : .pragma name value span ∈ scan source)
    (hname : name ≠ []) :
    ∃ nameStart body, NamedAt source span.start name nameStart ∧
      BodyAt source (nameStart + name.length) body span.stop ∧
      value = withoutComments body ∧
      ∀ q < value.length, regionIn value (lexerAt value) q ≠ .comment ∧
        (regionIn value (lexerAt value) q = .code → value[q]? ≠ some ';') := by
  obtain ⟨p, hp, hreport⟩ := mem_scan_iff.1 h
  obtain ⟨n, hn, hmode, hdue, hcode, hsign, hword⟩ := exists_name_of_valuing hp (valuing_of_reportAt hname hreport)
  have hnamed := namedAt_of_naming hn hmode hdue hsign
  have hrun := runFrom_passAt_name hn hmode hdue hcode hsign
  rw [← hword] at hnamed hrun
  obtain ⟨body, stop, hbody, hmem⟩ := @exists_body source span.start name _ hnamed.word.2.1
  rw [← hrun] at hmem
  have hsame := eq_of_start_eq h (mem_scan_of_mem_runFrom (Nat.le_of_lt hn) hmem) rfl
  obtain ⟨-, rfl, hspan⟩ := Directive.pragma.inj hsame
  have hstop : span.stop = stop := congrArg Span.stop hspan
  rw [← hstop] at hbody
  refine ⟨n, body, hnamed, hbody, rfl, fun q hq => ?_⟩
  obtain ⟨hcomment, r, hr, hregion⟩ := mem_classify_withoutComments (List.getElem?_eq_getElem hq)
  refine ⟨hcomment, fun hcode hsemicolon => ?_⟩
  rw [List.getElem?_eq_getElem hq] at hsemicolon
  rw [Option.some.inj hsemicolon] at hr
  obtain ⟨hlt, -⟩ := List.getElem?_eq_some_iff.1 hr
  exact (hbody.unended r hlt (hregion.trans hcode)).1 hr

/-- A value with a block comment between two characters that would end one, a semicolon in a string literal and
another in a line comment. -/
theorem value_of_mem_scan_comments :
    .pragma "a".toList " *';'/x\n".toList ⟨0, 24⟩ ∈ scan "pragma a */**/';'/x//;\n;".toList ∧
      ∃ nameStart body, NamedAt "pragma a */**/';'/x//;\n;".toList 0 "a".toList nameStart ∧
        BodyAt "pragma a */**/';'/x//;\n;".toList (nameStart + 1) body 24 ∧
        " *';'/x\n".toList = withoutComments body ∧
        ∀ q < 8, regionIn " *';'/x\n".toList (lexerAt " *';'/x\n".toList) q ≠ .comment ∧
          (regionIn " *';'/x\n".toList (lexerAt " *';'/x\n".toList) q = .code →
            " *';'/x\n".toList[q]? ≠ some ';') := by
  have hmem : .pragma "a".toList " *';'/x\n".toList ⟨0, 24⟩ ∈ scan "pragma a */**/';'/x//;\n;".toList := by
    rw [scan, Scanner.directives_eq]
    decide
  exact ⟨hmem, value_of_mem_scan hmem (List.cons_ne_nil _ _)⟩

end DirectiveIndex
