import DirectiveIndex.Proofs.Lookahead
import DirectiveIndex.Proofs.PlainReading

namespace DirectiveIndex

private theorem sign?_pragma (mark : Quote) (offset : Nat) :
    Cursor.sign? ⟨some mark.char, offset, Keyword.pragmaWord.text⟩ = some (.keyword .pragmaWord) := by
  cases mark <;> rfl

theorem outside_of_liveIn {source : Text} {word : Keyword} {p : Nat} (h : LiveIn source (lexerAt source) word p) :
    Outside source p := by
  have hlt := lt_length_of_liveIn h
  obtain ⟨hcode, hsign⟩ := h
  exact ⟨hlt, by rw [regionIn_lexerAt_of_code hlt hcode, hsign]⟩

/-- A directive that begins inside a comment or a string literal comes behind a quote mark where the name of a
    pragma should be. -/
theorem exists_quotedIn_of_liveIn {source : Text} {word : Keyword} {r : Nat}
    (hlive : LiveIn source (readingAt source) word r) (hinside : ¬ Outside source r) :
    ∃ p q, q < r ∧ QuotedIn source (lexerAt source) p q := by
  refine Classical.byContradiction fun hnone => hinside ?_
  have hr := Nat.le_of_lt (lt_length_of_liveIn hlive)
  obtain ⟨hreading, _⟩ := reading_eq_lexerAt hr fun p q hq hquoted => hnone ⟨p, q, hq, hquoted⟩
  rw [LiveIn, hreading r Nat.le.refl] at hlive
  exact outside_of_liveIn hlive

/-- Some quote mark where the name of a pragma should be is the first one. -/
private theorem exists_first_quotedIn {source : Text} {p q : Nat} (h : QuotedIn source (lexerAt source) p q) :
    ∃ p q, QuotedIn source (lexerAt source) p q ∧ ∀ p' q', q' < q → ¬ QuotedIn source (lexerAt source) p' q' := by
  induction q using Nat.strongRecOn generalizing p with
  | ind q ih =>
    by_cases hfirst : ∃ p' q', q' < q ∧ QuotedIn source (lexerAt source) p' q'
    · obtain ⟨p', q', hq, hquoted⟩ := hfirst
      exact ih q' hq hquoted
    · exact ⟨p, q, h, fun p' q' hq hquoted => hfirst ⟨p', q', hq, hquoted⟩⟩

/-- At the first quote mark where the name of a pragma should be, both readings are at code. -/
private theorem code_of_quotedIn {source : Text} {p q : Nat} (h : QuotedIn source (lexerAt source) p q)
    (hfirst : ∀ p' q', q' < q → ¬ QuotedIn source (lexerAt source) p' q') :
    lexerAt source q = .code ∧ passAt source q = ⟨.naming p, .code, 0⟩ ∧
      ∃ mark, source.drop q = Quote.char mark :: source.drop (q + 1) := by
  have hlt := lt_length_of_quotedIn h
  obtain ⟨hlive, hle, htells, hchar, huntold⟩ := h
  obtain ⟨mark, hmark⟩ : ∃ mark, source[q] = Quote.char mark := by
    rw [List.getElem?_eq_getElem hlt, Option.any_some, isQuote, Bool.or_eq_true, beq_iff_eq, beq_iff_eq] at hchar
    exact hchar.elim (⟨.double, ·⟩) (⟨.single, ·⟩)
  have hdrop : source.drop q = mark.char :: source.drop (q + 1) := by
    rw [List.drop_eq_getElem_cons hlt, hmark]
  obtain ⟨hreading, _⟩ := reading_eq_lexerAt (Nat.le_of_lt hlt) fun p' q' hq => hfirst p' q' hq
  have hpq : p < q := Nat.lt_of_lt_of_le (Nat.lt_add_of_pos_right (by decide)) hle
  have hliveReading : LiveIn source (readingAt source) .pragmaWord p := by
    rw [LiveIn, hreading p (Nat.le_of_lt hpq)]
    exact hlive
  have hmode := naming_of_untold (Nat.le_of_lt hlt) hliveReading hreading huntold hpq Nat.le.refl
  obtain ⟨_, hnone, hdue⟩ := lexer_of_naming (Nat.le_of_lt hlt) hmode
  rw [hreading q Nat.le.refl] at hnone
  obtain ⟨hcode, _⟩ := (tellsIn_lexerAt hlt hnone).1 htells
  have hlexer : lexerAt source q = .code := by
    rcases (lexerAt source q).settle_eq_or (placeAt source q) with h | ⟨hline, _⟩
    · exact h.symm.trans hcode
    · have hend : (placeAt source q).atLineEnd = false := by
        rw [Cursor.atLineEnd, rest_placeAt, hdrop]
        cases mark <;> rfl
      rw [hline, Lexer.settle, hend] at hcode
      cases hcode
  refine ⟨hlexer, ?_, mark, hdrop⟩
  have hpass : (passAt source q).lexer = .code := (hreading q Nat.le.refl).trans hlexer
  have hzero : (passAt source q).due = 0 := by omega
  generalize passAt source q = pass at hmode hpass hzero
  obtain ⟨mode, lexer, due⟩ := pass
  subst hmode hpass hzero
  rfl

/-- That holds of the text before the quote mark alone. -/
private theorem take_of_quotedIn {source : Text} {p q : Nat} (h : QuotedIn source (lexerAt source) p q)
    (hfirst : ∀ p' q', q' < q → ¬ QuotedIn source (lexerAt source) p' q') :
    ∃ a mark, source.take (q + 1) = a ++ [Quote.char mark] ∧ lexerAt a a.length = .code ∧
      passAt a a.length = ⟨.naming p, .code, 0⟩ := by
  obtain ⟨hlexer, hpass, mark, hdrop⟩ := code_of_quotedIn h hfirst
  have hlt := lt_length_of_quotedIn h
  have hlength : (source.take q).length = q := List.length_take_of_le (Nat.le_of_lt hlt)
  have hsource : source.take q ++ mark.char :: source.drop (q + 1) = source := by
    rw [← hdrop, List.take_append_drop]
  have hbreaks := breaks_quote mark (source.drop (q + 1))
  have hend : (mark.char :: source.drop (q + 1)).head? ≠ some '\n' ∨ q < (source.take q).length :=
    .inl (by cases mark <;> simp [Quote.char])
  have hlexer' := lexerAt_append hbreaks hend (Nat.le_of_eq hlength.symm)
  have hpass' := passAt_append hbreaks hend (Nat.le_of_eq hlength.symm)
  rw [hsource, hlexer] at hlexer'
  rw [hsource, hpass] at hpass'
  refine ⟨source.take q, mark, ?_, ?_, ?_⟩
  · rw [List.drop_eq_getElem_cons hlt] at hdrop
    rw [List.take_succ_eq_append_getElem hlt, (List.cons.inj hdrop).1]
  · rw [hlength, ← hlexer']
  · rw [hlength, ← hpass']

/-- Where a name is looked for, a `pragma` put into a string literal is reported. -/
private theorem exists_look_alike {a : Text} {p : Nat} (hlexer : lexerAt a a.length = .code)
    (hpass : passAt a a.length = ⟨.naming p, .code, 0⟩) (mark : Quote) :
    ∃ d ∈ scan (a ++ mark.char :: Keyword.pragmaWord.text),
      ¬ Outside (a ++ mark.char :: Keyword.pragmaWord.text) d.span.start := by
  have hbreaks := breaks_quote mark Keyword.pragmaWord.text
  have hend : (mark.char :: Keyword.pragmaWord.text).head? ≠ some '\n' ∨ a.length < a.length :=
    .inl (by cases mark <;> decide)
  have hlexer' := (lexerAt_append hbreaks hend Nat.le.refl).trans hlexer
  have hpass' := (passAt_append hbreaks hend Nat.le.refl).trans hpass
  obtain ⟨last?, -, hplace⟩ := placeAt_append (mark.char :: Keyword.pragmaWord.text) (Nat.le_refl a.length)
  rw [List.drop_length, List.nil_append] at hplace
  generalize a ++ mark.char :: Keyword.pragmaWord.text = text at *
  have hbehind : placeAt text (a.length + 1) = ⟨some mark.char, a.length + 1, Keyword.pragmaWord.text⟩ := by
    rw [placeAt_succ, hplace]
    rfl
  have hstring : lexerAt text (a.length + 1) = .string mark [] := by
    rw [lexerAt, hlexer', hplace]
    simp only [Lexer.step, Lexer.settle, Cursor.sign?_quote]
    rfl
  have hnaming : readingAt text (a.length + 1) = .code := by
    rw [readingAt, passAt, hpass', hplace]
    simp only [Pass.step, Lexer.settle, Cursor.sign?_quote]
    rfl
  have hlive : LiveIn text (readingAt text) .pragmaWord (a.length + 1) := by
    refine ⟨by rw [hnaming]; rfl, ?_⟩
    rw [hbehind, sign?_pragma]
  obtain ⟨d, hmem, hopening⟩ := exists_pragma_of_liveIn hlive
  refine ⟨d, hmem, fun houtside => ?_⟩
  rw [← Directive.opening_snd, hopening] at houtside
  have hregion := houtside.2
  rw [regionIn, hstring] at hregion
  cases hregion

/-- A directive is reported from inside a comment or a string literal if and only if a quote mark stands where the
    name of a pragma should be and the scanner, which takes no notice of it, comes behind it to a keyword that the
    plain lexer has inside. Every source with such a quote mark has a beginning behind which that happens. -/
theorem scan_look_alikes (source : Text) :
    ((∃ d ∈ scan source, ¬ Outside source d.span.start) ↔
      ∃ p q r word, QuotedIn source (lexerAt source) p q ∧ q < r ∧ ¬ Outside source r ∧
        LiveIn source (readingAt source) word r ∧
        (word = .importWord → ∃ s mark, PathIn source (readingAt source) r s mark)) ∧
    ((∃ p q, QuotedIn source (lexerAt source) p q) →
      ∃ q < source.length, ∃ d ∈ scan (source.take (q + 1) ++ Keyword.pragmaWord.text),
        ¬ Outside (source.take (q + 1) ++ Keyword.pragmaWord.text) d.span.start) := by
  refine ⟨⟨?_, ?_⟩, ?_⟩
  · rintro ⟨d, hd, hinside⟩
    have hlive := liveIn_of_mem_scan hd
    obtain ⟨p, q, hq, hquoted⟩ := exists_quotedIn_of_liveIn hlive hinside
    refine ⟨p, q, d.span.start, d.opening.1, hquoted, hq, hinside, hlive, fun hword => ?_⟩
    cases d with
    | imported path span => exact exists_path_of_mem_scan hd
    | pragma name value span => cases hword
  · rintro ⟨_, _, r, word, _, _, hinside, hlive, hpath⟩
    cases word with
    | importWord =>
      obtain ⟨s, mark, hpath⟩ := hpath rfl
      obtain ⟨stop, hmem⟩ := exists_imported_of_pathIn hlive hpath
      exact ⟨_, hmem, hinside⟩
    | pragmaWord =>
      obtain ⟨d, hmem, hopening⟩ := exists_pragma_of_liveIn hlive
      refine ⟨d, hmem, ?_⟩
      rw [← Directive.opening_snd, hopening]
      exact hinside
  · rintro ⟨p, q, hquoted⟩
    obtain ⟨p, q, hquoted, hfirst⟩ := exists_first_quotedIn hquoted
    obtain ⟨a, mark, htake, hlexer, hpass⟩ := take_of_quotedIn hquoted hfirst
    refine ⟨q, lt_length_of_quotedIn hquoted, ?_⟩
    rw [htake, List.append_assoc]
    exact exists_look_alike hlexer hpass mark

/-- An import inside a string literal that stands where the name of a pragma should be. -/
theorem scan_import_in_string :
    ∃ d ∈ scan "pragma \"import 'a'\";".toList, ¬ Outside "pragma \"import 'a'\";".toList d.span.start := by
  have hlive : LiveIn "pragma \"import 'a'\";".toList (readingAt "pragma \"import 'a'\";".toList) .importWord 8 := by
    decide
  have hpath : PathIn "pragma \"import 'a'\";".toList (readingAt "pragma \"import 'a'\";".toList) 8 15 .single := by
    decide
  obtain ⟨stop, hmem⟩ := exists_imported_of_pathIn hlive hpath
  have hinside : ¬ Outside "pragma \"import 'a'\";".toList 8 := by decide
  exact ⟨_, hmem, hinside⟩

end DirectiveIndex
