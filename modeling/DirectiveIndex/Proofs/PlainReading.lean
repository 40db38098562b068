import DirectiveIndex.Proofs.Records

namespace DirectiveIndex

/-- Whether a sign shows what follows a `pragma`. -/
def Sign.tells : Sign → Bool
  | .comment _ => false
  | _ => true

namespace Cursor

private theorem not_beginsAt_of_sign?_none {place : Cursor} (hsign : place.sign? = none) (sign : Sign)
    (hmem : sign ∈ Sign.all) : sign.beginsAt place = false := by
  have h := List.find?_eq_none.1 hsign sign hmem
  simpa using h

private theorem singleton_isPrefixOf_cons (a c : Char) (rest : Text) : [a].isPrefixOf (c :: rest) = (a == c) := by
  rw [List.isPrefixOf_cons_cons, List.isPrefixOf_nil_left, Bool.and_true]

theorem head_of_isPrefixOf {a c : Char} {tail rest : Text}
    (h : (a :: tail).isPrefixOf (c :: rest) = true) : a = c := by
  rw [List.isPrefixOf_cons_cons, Bool.and_eq_true, beq_iff_eq] at h
  exact h.1

/-- What shows what follows a `pragma` can be told from the character itself. -/
theorem any_tells_sign? (last? : Option Char) (offset : Nat) (c : Char) (rest : Text) :
    (sign? ⟨last?, offset, c :: rest⟩).any Sign.tells = isTelling c := by
  cases hsign : sign? ⟨last?, offset, c :: rest⟩ with
  | none =>
    have hquote (mark : Quote) : (mark.char == c) = false := by
      rw [← singleton_isPrefixOf_cons _ _ rest]
      exact not_beginsAt_of_sign?_none hsign (.quote mark) (by cases mark <;> decide)
    have hsemicolon : (';' == c) = false := by
      rw [← singleton_isPrefixOf_cons _ _ rest]
      exact not_beginsAt_of_sign?_none hsign .semicolon (by decide)
    have hidentifier : Text.isIdentifier c = false :=
      not_beginsAt_of_sign?_none hsign .identifier (by decide)
    rw [isTelling, isQuote, hidentifier, Bool.beq_comm, hsemicolon, Bool.beq_comm, hquote, Bool.beq_comm, hquote]
    rfl
  | some sign =>
    have hbegins : sign.beginsAt ⟨last?, offset, c :: rest⟩ = true := List.find?_some hsign
    cases sign with
    | keyword word =>
      have hall := all_take_of_sign?_keyword hsign
      have hc : Text.isIdentifier c = true := by
        cases word <;> exact (Bool.and_eq_true_iff.1 hall).1
      simp [Sign.tells, isTelling, hc]
    | comment kind =>
      obtain rfl : '/' = c := by cases kind <;> exact head_of_isPrefixOf hbegins
      simp only [Sign.tells, Option.any_some]
      decide
    | quote mark =>
      obtain rfl : mark.char = c := head_of_isPrefixOf hbegins
      cases mark <;> decide
    | semicolon =>
      obtain rfl : ';' = c := head_of_isPrefixOf hbegins
      decide
    | identifier =>
      have hc : Text.isIdentifier c = true := hbegins
      simp [Sign.tells, isTelling, hc]

/-- An identifier character opens neither a comment nor a string literal. -/
theorem enter_sign?_of_isIdentifier {last? : Option Char} {offset : Nat} {c : Char} {rest : Text}
    (hc : Text.isIdentifier c = true) : Lexer.enter (sign? ⟨last?, offset, c :: rest⟩) = .code := by
  cases hsign : sign? ⟨last?, offset, c :: rest⟩ with
  | none => rfl
  | some sign =>
    have hbegins : sign.beginsAt ⟨last?, offset, c :: rest⟩ = true := List.find?_some hsign
    cases sign with
    | comment kind =>
      obtain rfl : '/' = c := by cases kind <;> exact head_of_isPrefixOf hbegins
      exact absurd hc (by decide)
    | quote mark =>
      obtain rfl : mark.char = c := head_of_isPrefixOf hbegins
      exact absurd hc (by cases mark <;> decide)
    | _ => rfl

end Cursor

theorem regionIn_of_ne_code {source : Text} {reading : Nat → Lexer} {p : Nat}
    (hcode : (reading p).settle (placeAt source p) ≠ .code) (hmark : (reading p).mark? = none) :
    regionIn source reading p = .comment := by
  have hsettle := Lexer.settle_eq_self hcode
  rw [hsettle] at hcode
  rw [regionIn, hsettle]
  cases hlexer : reading p with
  | code => exact absurd hlexer hcode
  | string mark content =>
    rw [hlexer] at hmark
    cases hmark
  | _ => rfl

/-- Outside comments and string literals, the plain lexer tells from the sign what a character belongs to. -/
theorem regionIn_lexerAt_of_code {source : Text} {p : Nat} (hp : p < source.length)
    (hcode : (lexerAt source p).settle (placeAt source p) = .code) :
    regionIn source (lexerAt source) p =
      match (placeAt source p).sign? with
      | some (.comment _) => .comment
      | some (.quote _) => .string
      | _ => .code := by
  have hnext : lexerAt source (p + 1) = Lexer.enter (placeAt source p).sign? := by
    obtain ⟨last?, hplace⟩ := placeAt_of_lt hp
    rw [hplace] at hcode
    rw [lexerAt, hplace, Lexer.step_of_code hcode]
  rw [regionIn, hcode, hnext]
  cases (placeAt source p).sign? with
  | none => rfl
  | some sign => cases sign <;> rfl

/-- Outside string literals, a place tells if it is outside comments too and its sign tells. -/
theorem tellsIn_lexerAt {source : Text} {p : Nat} (hp : p < source.length)
    (hmark : (lexerAt source p).mark? = none) :
    tellsIn source (lexerAt source) p = true ↔
      (lexerAt source p).settle (placeAt source p) = .code ∧ (placeAt source p).sign?.any Sign.tells = true := by
  have hchar : source[p]?.any isTelling = (placeAt source p).sign?.any Sign.tells := by
    obtain ⟨last?, hplace⟩ := placeAt_of_lt hp
    rw [hplace, Cursor.any_tells_sign?, List.getElem?_eq_getElem hp]
    rfl
  rw [tellsIn, hchar, Bool.and_eq_true, bne_iff_ne, ne_eq]
  by_cases hcode : (lexerAt source p).settle (placeAt source p) = .code
  · rw [regionIn_lexerAt_of_code hp hcode]
    cases (placeAt source p).sign? with
    | none => simp
    | some sign => cases sign <;> simp [hcode, Sign.tells]
  · simp [regionIn_of_ne_code hcode hmark, hcode]

namespace Pass

/-- The pass reads on as the plain lexer does, unless a quote mark comes where a name is looked for. -/
theorem lexer_step {pass : Pass} {last? : Option Char} {offset : Nat} {c : Char} {rest : Text}
    (hfits : pass.Fits ⟨last?, offset, c :: rest⟩) :
    (pass.step ⟨last?, offset, c :: rest⟩).2.lexer = pass.lexer.step ⟨last?, offset, c :: rest⟩ ∨
    (∃ start mark, pass.mode = .naming start ∧ pass.due = 0 ∧
      pass.lexer.settle ⟨last?, offset, c :: rest⟩ = .code ∧
      Cursor.sign? ⟨last?, offset, c :: rest⟩ = some (.quote mark)) := by
  rcases step_cases pass last? offset c rest with
    ⟨hpos, hstep⟩ | ⟨hdue, hcode, hstep⟩ | ⟨mark, content, _, hlexer, hstep⟩ | ⟨_, _, _, hstep⟩
  · obtain ⟨hlexer, _, _⟩ := hfits hpos
    refine .inl ?_
    rw [hstep, hlexer]
    exact (Cursor.enter_sign?_of_isIdentifier (isIdentifier_of_fits hfits hpos)).symm
  · rw [hstep, Lexer.step_of_code hcode]
    cases hsign : Cursor.sign? ⟨last?, offset, c :: rest⟩ with
    | none => exact .inl rfl
    | some sign =>
      cases sign with
      | quote mark =>
        cases hmode : pass.mode with
        | naming start => exact .inr ⟨start, mark, rfl, hdue, hcode, rfl⟩
        | _ => exact .inl rfl
      | identifier =>
        generalize pass.mode = mode
        cases mode <;> exact .inl rfl
      | _ => exact .inl rfl
  · refine .inl ?_
    rw [hstep, hlexer]
    by_cases hc : c = mark.char <;> simp [hc, Lexer.step, Lexer.settle]
  · refine .inl ?_
    rw [hstep]

/-- All that the next character can do where a name is looked for. -/
theorem step_naming {pass : Pass} {start : Nat} (hmode : pass.mode = .naming start)
    (hmark : pass.lexer.mark? = none) (last? : Option Char) (offset : Nat) (c : Char) (rest : Text) :
    (0 < pass.due ∧ pass.step ⟨last?, offset, c :: rest⟩ = (none, { pass with due := pass.due - 1 })) ∨
    (pass.due = 0 ∧ pass.lexer.settle ⟨last?, offset, c :: rest⟩ = .code ∧
      (∃ mark, Cursor.sign? ⟨last?, offset, c :: rest⟩ = some (.quote mark)) ∧
      pass.step ⟨last?, offset, c :: rest⟩ = (none, ⟨.naming start, .code, 0⟩)) ∨
    (pass.due = 0 ∧
      ¬ (pass.lexer.settle ⟨last?, offset, c :: rest⟩ = .code ∧
        (Cursor.sign? ⟨last?, offset, c :: rest⟩).any Sign.tells = true) ∧
      (pass.lexer.step ⟨last?, offset, c :: rest⟩).mark? = none ∧
      pass.step ⟨last?, offset, c :: rest⟩ =
        (none, ⟨.naming start, pass.lexer.step ⟨last?, offset, c :: rest⟩, 0⟩)) ∨
    (pass.due = 0 ∧ pass.lexer.settle ⟨last?, offset, c :: rest⟩ = .code ∧
      (Cursor.sign? ⟨last?, offset, c :: rest⟩).any Sign.tells = true ∧
      ∀ other, (pass.step ⟨last?, offset, c :: rest⟩).2.mode = .naming other → other = offset) := by
  rcases step_cases pass last? offset c rest with
    hdue | ⟨hdue, hcode, hstep⟩ | ⟨mark, content, _, hlexer, _⟩ | ⟨hdue, hcode, _, hstep⟩
  · exact .inl hdue
  · rw [hstep, Lexer.step_of_code hcode, hmode]
    cases hsign : Cursor.sign? ⟨last?, offset, c :: rest⟩ with
    | none => exact .inr (.inr (.inl ⟨hdue, fun h => Bool.false_ne_true h.2, rfl, rfl⟩))
    | some sign =>
      cases sign with
      | keyword word =>
        refine .inr (.inr (.inr ⟨hdue, hcode, rfl, ?_⟩))
        intro other h
        cases word <;> cases h
        rfl
      | comment kind => exact .inr (.inr (.inl ⟨hdue, fun h => Bool.false_ne_true h.2, rfl, rfl⟩))
      | quote mark => exact .inr (.inl ⟨hdue, hcode, ⟨mark, rfl⟩, rfl⟩)
      | semicolon =>
        refine .inr (.inr (.inr ⟨hdue, hcode, rfl, ?_⟩))
        intro other h
        cases h
      | identifier =>
        refine .inr (.inr (.inr ⟨hdue, hcode, rfl, ?_⟩))
        intro other h
        cases h
  · rw [hlexer] at hmark
    cases hmark
  · refine .inr (.inr (.inl ⟨hdue, fun h => hcode h.1, Lexer.mark?_step hcode hmark, ?_⟩))
    rw [hstep, hmode]

/-- A name is looked for behind a `pragma` only. -/
theorem naming_of_step {pass : Pass} {place : Cursor} {start : Nat} (h : (pass.step place).2.mode = .naming start) :
    pass.mode = .naming start ∨ start = place.offset ∧
      (pass.step place).2 = ⟨.naming start, .code, Keyword.pragmaWord.text.length - 1⟩ := by
  have hcapture {mode : Mode} {c : Char} (h : mode.capture c = .naming start) : mode = .naming start := by
    cases mode <;> first | exact h | cases h
  obtain ⟨last?, offset, _ | ⟨c, rest⟩⟩ := place
  · exact .inl h
  rcases step_cases pass last? offset c rest with
    ⟨_, hstep⟩ | ⟨_, _, hstep⟩ | ⟨mark, content, _, _, hstep⟩ | ⟨_, _, _, hstep⟩
  · rw [hstep] at h
    exact .inl h
  · rw [hstep] at h ⊢
    cases hsign : Cursor.sign? ⟨last?, offset, c :: rest⟩ with
    | none =>
      rw [hsign] at h
      exact .inl (hcapture h)
    | some sign =>
      rw [hsign] at h
      cases sign with
      | keyword word =>
        cases word <;> cases h
        exact .inr ⟨rfl, rfl⟩
      | comment kind => exact .inl h
      | quote mark => exact .inl (hcapture h)
      | semicolon =>
        generalize pass.mode = mode at h
        cases mode <;> cases h
      | identifier =>
        generalize pass.mode = mode at h
        cases mode <;> cases h
  · rw [hstep] at h
    split at h
    · generalize pass.mode = mode at h
      cases mode <;> first | exact .inl h | cases h
    · exact .inl (hcapture h)
  · rw [hstep] at h
    exact .inl h

end Pass

/-- While a name is looked for, no string literal is open, and no word but the `pragma` itself is due. -/
theorem lexer_of_naming {source : Text} {p : Nat} (hp : p ≤ source.length) {start : Nat}
    (h : (passAt source p).mode = .naming start) :
    start < p ∧ (readingAt source p).mark? = none ∧
      (passAt source p).due = start + Keyword.pragmaWord.text.length - p := by
  have hlength : Keyword.pragmaWord.text.length = 6 := rfl
  induction p with
  | zero => cases h
  | succ p ih =>
    obtain ⟨last?, hplace⟩ := placeAt_of_lt hp
    rw [readingAt]
    rw [passAt, hplace] at h ⊢
    rcases Pass.naming_of_step h with hmode | ⟨rfl, hstep⟩
    · obtain ⟨hlt, hmark, hdue⟩ := ih (Nat.le_of_succ_le hp) hmode
      rcases Pass.step_naming hmode hmark last? p source[p] (source.drop (p + 1)) with
        ⟨_, hstep⟩ | ⟨_, _, _, hstep⟩ | ⟨_, _, hnext, hstep⟩ | ⟨_, _, _, hother⟩
      · rw [hstep]
        exact ⟨Nat.lt_succ_of_lt hlt, hmark, by dsimp only; omega⟩
      · rw [hstep]
        exact ⟨Nat.lt_succ_of_lt hlt, rfl, by dsimp only; omega⟩
      · rw [hstep]
        exact ⟨Nat.lt_succ_of_lt hlt, hnext, by dsimp only; omega⟩
      · exact absurd (hother start h) (Nat.ne_of_lt hlt)
    · rw [hstep]
      exact ⟨Nat.lt_succ_self _, rfl, by dsimp only; omega⟩

/-- A quote mark that the pass comes to while it looks for a name is the first telling character behind the
    `pragma`, provided that the plain lexer has read the source alike so far. -/
private theorem quotedIn_of_naming {source : Text} {n : Nat} (hn : n < source.length) {start : Nat} {mark : Quote}
    (hreading : ∀ m ≤ n, readingAt source m = lexerAt source m) (hmode : (passAt source n).mode = .naming start)
    (huntold : ∀ r < n, start + Keyword.pragmaWord.text.length ≤ r → tellsIn source (lexerAt source) r = false)
    (hdue : (passAt source n).due = 0) (hcode : (readingAt source n).settle (placeAt source n) = .code)
    (hsign : (placeAt source n).sign? = some (.quote mark)) : QuotedIn source (lexerAt source) start n := by
  have hopen : (passAt source n).mode.opening? = some (.pragmaWord, start) := by
    rw [hmode]
    rfl
  obtain ⟨hlt, hlive⟩ := liveIn_of_opening? (Nat.le_of_lt hn) hopen
  obtain ⟨_, hmark, hlength⟩ := lexer_of_naming (Nat.le_of_lt hn) hmode
  rw [hreading n Nat.le.refl] at hmark hcode
  have hchar : source[n]?.any isQuote = true := by
    obtain ⟨tail, htail⟩ := Cursor.rest_of_sign?_quote hsign
    rw [rest_placeAt] at htail
    rw [← List.head?_drop, htail]
    cases mark <;> rfl
  refine ⟨⟨?_, hlive.2⟩, by omega, (tellsIn_lexerAt hn hmark).2 ⟨hcode, by rw [hsign]; rfl⟩, hchar, huntold⟩
  rw [← hreading start (Nat.le_of_lt hlt)]
  exact hlive.1

/-- While a name goes on being looked for, the next character is not a telling one, unless it is a quote mark. -/
private theorem untold_of_naming {source : Text} {n : Nat} (hn : n < source.length) {start : Nat}
    (hreading : readingAt source n = lexerAt source n) (hmode : (passAt source n).mode = .naming start)
    (hnext : (passAt source (n + 1)).mode = .naming start) (hle : start + Keyword.pragmaWord.text.length ≤ n) :
    tellsIn source (lexerAt source) n = false ∨
      (passAt source n).due = 0 ∧ (readingAt source n).settle (placeAt source n) = .code ∧
        ∃ mark, (placeAt source n).sign? = some (.quote mark) := by
  obtain ⟨hlt, hmark, hdue⟩ := lexer_of_naming (Nat.le_of_lt hn) hmode
  obtain ⟨last?, hplace⟩ := placeAt_of_lt hn
  rw [passAt, hplace] at hnext
  rw [readingAt] at hmark
  rw [readingAt, hplace]
  rcases Pass.step_naming hmode hmark last? n source[n] (source.drop (n + 1)) with
    ⟨hpos, _⟩ | ⟨hnone, hcode, hsign, _⟩ | ⟨_, hsilent, _, _⟩ | ⟨_, _, _, hother⟩
  · omega
  · exact .inr ⟨hnone, hcode, hsign⟩
  · rw [readingAt] at hreading
    rw [hreading] at hmark
    rw [hreading, ← hplace] at hsilent
    exact .inl (Bool.eq_false_iff.2 fun htells => hsilent ((tellsIn_lexerAt hn hmark).1 htells))
  · exact absurd (hother start hnext) (Nat.ne_of_lt hlt)

/-- The pass and the plain lexer read a source alike up to the first quote mark that comes where a name is
    looked for. -/
theorem reading_eq_lexerAt {source : Text} {n : Nat} (hn : n ≤ source.length)
    (hunquoted : ∀ p q, q < n → ¬ QuotedIn source (lexerAt source) p q) :
    (∀ m ≤ n, readingAt source m = lexerAt source m) ∧
      ∀ start, (passAt source n).mode = .naming start →
        ∀ r < n, start + Keyword.pragmaWord.text.length ≤ r → tellsIn source (lexerAt source) r = false := by
  induction n with
  | zero =>
    constructor
    · intro m hm
      rw [Nat.le_zero.1 hm]
      rfl
    · intro start h
      cases h
  | succ n ih =>
    obtain ⟨hreading, huntold⟩ := ih (Nat.le_of_succ_le hn) fun p q hq => hunquoted p q (Nat.lt_succ_of_lt hq)
    have hhere := hreading n Nat.le.refl
    -- A quote mark where a name is looked for would be one of those that are ruled out.
    have hquoted {start : Nat} {mark : Quote} (hmode : (passAt source n).mode = .naming start)
        (hdue : (passAt source n).due = 0) (hcode : (readingAt source n).settle (placeAt source n) = .code)
        (hsign : (placeAt source n).sign? = some (.quote mark)) : False :=
      hunquoted start n (Nat.lt_succ_self n)
        (quotedIn_of_naming hn hreading hmode (huntold start hmode) hdue hcode hsign)
    constructor
    · intro m hm
      rcases Nat.le_succ_iff.1 hm with hm | rfl
      · exact hreading m hm
      obtain ⟨last?, hplace⟩ := placeAt_of_lt hn
      have hfits := fits_passAt (Nat.le_of_succ_le hn)
      rw [hplace] at hfits hquoted
      rcases Pass.lexer_step hfits with hstep | ⟨start, mark, hmode, hdue, hcode, hsign⟩
      · rw [readingAt, passAt, lexerAt, ← hhere, hplace]
        exact hstep
      · exact (hquoted hmode hdue hcode hsign).elim
    · intro start hnext r hr hle
      rcases Pass.naming_of_step hnext with hmode | ⟨hstart, _⟩
      · rcases Nat.lt_succ_iff_lt_or_eq.1 hr with hr | rfl
        · exact huntold start hmode r hr hle
        rcases untold_of_naming hn hhere hmode hnext hle with hfalse | ⟨hdue, hcode, mark, hsign⟩
        · exact hfalse
        · exact (hquoted hmode hdue hcode hsign).elim
      · rw [offset_placeAt (Nat.le_of_succ_le hn)] at hstart
        have hlength : Keyword.pragmaWord.text.length = 6 := rfl
        omega

/-- Where no `pragma` is followed by a quote mark instead of its name, the pass reads like the plain lexer. -/
theorem readingAt_eq_lexerAt {source : Text} (hnames : NamesUnquoted source) : readingAt source = lexerAt source := by
  have hlength := (reading_eq_lexerAt (Nat.le_refl source.length) fun p q _ => hnames p q).1
  funext p
  rcases Nat.le_total p source.length with hp | hp
  · exact hlength p hp
  · induction hp with
    | refl => exact hlength _ Nat.le.refl
    | step hp ih => rw [readingAt, passAt_succ_of_length_le hp, lexerAt_succ_of_length_le hp, ← ih, readingAt]

/-- Where no telling character stands behind a `pragma`, its name is still looked for. -/
theorem naming_of_untold {source : Text} {p q : Nat} (hq : q ≤ source.length)
    (hlive : LiveIn source (readingAt source) .pragmaWord p)
    (hreading : ∀ m ≤ q, readingAt source m = lexerAt source m)
    (huntold : ∀ r < q, p + Keyword.pragmaWord.text.length ≤ r → tellsIn source (lexerAt source) r = false)
    {n : Nat} (hlt : p < n) (hn : n ≤ q) : (passAt source n).mode = .naming p := by
  induction n with
  | zero => cases hlt
  | succ n ih =>
    rcases Nat.lt_succ_iff_lt_or_eq.1 hlt with hlt | rfl
    · have hmode := ih hlt (Nat.le_of_succ_le hn)
      have hlength : n < source.length := Nat.lt_of_lt_of_le hn hq
      obtain ⟨_, hmark, hdue⟩ := lexer_of_naming (Nat.le_of_lt hlength) hmode
      obtain ⟨last?, hplace⟩ := placeAt_of_lt hlength
      rw [passAt, hplace]
      rcases Pass.step_naming hmode hmark last? n source[n] (source.drop (n + 1)) with
        ⟨_, hstep⟩ | ⟨_, _, _, hstep⟩ | ⟨_, _, _, hstep⟩ | ⟨hnone, hcode, htells, _⟩
      · rw [hstep]
        exact hmode
      · rw [hstep]
      · rw [hstep]
      · rw [← hplace] at hcode htells
        have hhere := hreading n (Nat.le_of_succ_le hn)
        rw [readingAt] at hhere hmark
        rw [hhere] at hcode hmark
        have htold := (tellsIn_lexerAt hlength hmark).2 ⟨hcode, htells⟩
        rw [huntold n hn (by omega)] at htold
        cases htold
    · rw [passAt_succ_of_liveIn hlive]
      rfl

end DirectiveIndex
