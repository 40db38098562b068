import DirectiveIndex.Proofs.Reports

namespace DirectiveIndex

namespace Cursor

/-- No keyword begins behind an identifier character. -/
theorem sign?_ne_keyword {place : Cursor} (hlast : place.last?.any Text.isIdentifier = true) (word : Keyword) :
    place.sign? ≠ some (.keyword word) := by
  intro hsign
  have hbegins : (Sign.keyword word).beginsAt place = true := List.find?_some hsign
  simp [Sign.beginsAt, hlast] at hbegins

/-- A keyword is made of identifier characters. -/
theorem all_take_of_sign?_keyword {place : Cursor} {word : Keyword} (hsign : place.sign? = some (.keyword word)) :
    (place.rest.take word.text.length).all Text.isIdentifier = true := by
  have hbegins : (Sign.keyword word).beginsAt place = true := List.find?_some hsign
  simp only [Sign.beginsAt, Bool.and_eq_true, List.isPrefixOf_iff_prefix] at hbegins
  rw [← List.prefix_iff_eq_take.1 hbegins.1.1]
  exact word.all_text

theorem all_take_word (place : Cursor) : (place.rest.take place.word.length).all Text.isIdentifier = true := by
  rw [word, ← List.prefix_iff_eq_take.1 (List.takeWhile_prefix _)]
  exact List.all_takeWhile

end Cursor

namespace Pass

/-- The characters that are due are the rest of the word that the place lies in. -/
def Fits (pass : Pass) (place : Cursor) : Prop :=
  0 < pass.due → pass.lexer = .code ∧ place.last?.any Text.isIdentifier = true ∧
    (place.rest.take pass.due).all Text.isIdentifier = true

private theorem all_tail {c : Char} {rest : Text} {n : Nat}
    (h : ((c :: rest).take n).all Text.isIdentifier = true) (hpos : 0 < n) :
    Text.isIdentifier c = true ∧ (rest.take (n - 1)).all Text.isIdentifier = true := by
  obtain ⟨n, rfl⟩ := Nat.exists_eq_succ_of_ne_zero (Nat.ne_of_gt hpos)
  simpa [List.take_succ_cons] using h

/-- What is still to be passed of a word are identifier characters. -/
theorem isIdentifier_of_fits {pass : Pass} {last? : Option Char} {offset : Nat} {c : Char} {rest : Text}
    (h : pass.Fits ⟨last?, offset, c :: rest⟩) (hpos : 0 < pass.due) : Text.isIdentifier c = true := by
  obtain ⟨_, _, hall⟩ := h hpos
  exact (all_tail hall hpos).1

/-- A step leaves what is still to be passed of a word in front of the pass. -/
theorem fits_step {pass : Pass} {last? : Option Char} {offset : Nat} {c : Char} {rest : Text}
    (h : pass.Fits ⟨last?, offset, c :: rest⟩) :
    (pass.step ⟨last?, offset, c :: rest⟩).2.Fits ⟨some c, offset + 1, rest⟩ := by
  rcases step_cases pass last? offset c rest with
    ⟨hpos, hstep⟩ | ⟨_, _, hstep⟩ | ⟨mark, content, _, _, hstep⟩ | ⟨_, _, _, hstep⟩
  · obtain ⟨hcode, _, hall⟩ := h hpos
    obtain ⟨hc, htail⟩ := all_tail hall hpos
    rw [hstep]
    exact fun _ => ⟨hcode, hc, htail⟩
  · rw [hstep]
    cases hsign : Cursor.sign? ⟨last?, offset, c :: rest⟩ with
    | none => exact fun hpos => absurd hpos (Nat.lt_irrefl 0)
    | some sign =>
      cases sign with
      | keyword word =>
        have hpos : 0 < word.text.length := word.length_text ▸ Nat.succ_pos 5
        obtain ⟨hc, htail⟩ := all_tail (Cursor.all_take_of_sign?_keyword hsign) hpos
        exact fun _ => ⟨rfl, hc, htail⟩
      | identifier =>
        generalize pass.mode = mode
        cases mode with
        | naming start =>
          intro hpos
          have hlength : 1 < (Cursor.word ⟨last?, offset, c :: rest⟩).length := Nat.lt_of_sub_pos hpos
          obtain ⟨hc, htail⟩ := all_tail (Cursor.all_take_word ⟨last?, offset, c :: rest⟩) (by omega)
          exact ⟨rfl, hc, htail⟩
        | _ => exact fun hpos => absurd hpos (Nat.lt_irrefl 0)
      | _ => exact fun hpos => absurd hpos (Nat.lt_irrefl 0)
  · rw [hstep]
    split <;> exact fun hpos => absurd hpos (Nat.lt_irrefl 0)
  · rw [hstep]
    exact fun hpos => absurd hpos (Nat.lt_irrefl 0)

end Pass

/-- What is still to be passed of a word stands in front of the pass, anywhere. -/
theorem fits_passAt {source : Text} {p : Nat} (hp : p ≤ source.length) :
    (passAt source p).Fits (placeAt source p) := by
  induction p with
  | zero => exact fun hpos => absurd hpos (Nat.lt_irrefl 0)
  | succ p ih =>
    obtain ⟨last?, hplace⟩ := placeAt_of_lt hp
    have hfits := ih (Nat.le_of_succ_le hp)
    rw [hplace] at hfits
    rw [placeAt_succ_of_lt hp, passAt, hplace]
    exact Pass.fits_step hfits

/-- A keyword that the pass comes to outside comments and string literals takes the place of what is
    open. -/
theorem step_of_liveIn {source : Text} {word : Keyword} {p : Nat} (h : LiveIn source (readingAt source) word p) :
    (passAt source p).step (placeAt source p) =
      ((passAt source p).mode.close p, ⟨.ofKeyword word p, .code, word.text.length - 1⟩) := by
  have hlt := lt_length_of_liveIn h
  have hfits := fits_passAt (Nat.le_of_lt hlt)
  obtain ⟨hcode, hsign⟩ := h
  have hdue : (passAt source p).due = 0 := by
    refine Nat.eq_zero_of_not_pos fun hpos => ?_
    obtain ⟨_, hlast, _⟩ := hfits hpos
    exact Cursor.sign?_ne_keyword hlast word hsign
  obtain ⟨last?, hplace⟩ := placeAt_of_lt hlt
  rw [hplace] at hcode hsign ⊢
  simp only [readingAt] at hcode
  generalize passAt source p = pass at hcode hdue
  obtain ⟨mode, lexer, due⟩ := pass
  subst hdue
  simp only [Pass.step, hcode, hsign]
  rfl

/-- A live keyword begins its directive. -/
theorem passAt_succ_of_liveIn {source : Text} {word : Keyword} {p : Nat}
    (h : LiveIn source (readingAt source) word p) :
    passAt source (p + 1) = ⟨.ofKeyword word p, .code, word.text.length - 1⟩ := by
  rw [passAt, step_of_liveIn h]

/-- The open directive begins at a keyword that the pass has come to. -/
theorem liveIn_of_opening? {source : Text} {p : Nat} (hp : p ≤ source.length) {word : Keyword} {start : Nat}
    (h : (passAt source p).mode.opening? = some (word, start)) :
    start < p ∧ LiveIn source (readingAt source) word start := by
  induction p with
  | zero => cases h
  | succ p ih =>
    rcases Pass.step_opening? (passAt source p) (placeAt source p) with
      ⟨_, hmode⟩ | ⟨other, hcode, hsign, hstep⟩ | ⟨_, _, _, _, htop⟩
    · obtain ⟨hlt, hlive⟩ := ih (Nat.le_of_succ_le hp) (hmode.symm.trans h)
      exact ⟨Nat.lt_succ_of_lt hlt, hlive⟩
    · rw [passAt, hstep, Mode.opening?_ofKeyword, offset_placeAt (Nat.le_of_succ_le hp), Option.some.injEq,
        Prod.mk.injEq] at h
      obtain ⟨rfl, rfl⟩ := h
      exact ⟨Nat.lt_succ_self p, hcode, hsign⟩
    · rw [passAt, htop] at h
      cases h

/-- What is reported was open. -/
theorem opening?_of_reportAt {source : Text} {p : Nat} {d : Directive} (h : reportAt source p = some d) :
    (passAt source p).mode.opening? = some d.opening := by
  unfold reportAt at h
  split at h
  · rcases Pass.step_opening? (passAt source p) (placeAt source p) with
      ⟨hnone, _⟩ | ⟨word, _, _, hstep⟩ | ⟨e, hsome, hmode, _⟩
    · rw [hnone] at h
      cases h
    · rw [hstep] at h
      exact Mode.opening?_of_close h
    · obtain rfl : e = d := Option.some.inj (hsome.symm.trans h)
      exact hmode
  · exact Pass.opening?_of_finish h

/-- Every directive of a source begins at a keyword that the pass has come to. -/
theorem liveIn_of_mem_scan {source : Text} {d : Directive} (h : d ∈ scan source) :
    LiveIn source (readingAt source) d.opening.1 d.span.start := by
  obtain ⟨p, hp, hreport⟩ := mem_scan_iff.1 h
  rw [← Directive.opening_snd]
  exact (liveIn_of_opening? hp (opening?_of_reportAt hreport)).2

/-- Every `pragma` that the pass comes to begins a directive. -/
theorem exists_pragma_of_liveIn {source : Text} {p : Nat} (h : LiveIn source (readingAt source) .pragmaWord p) :
    ∃ d ∈ scan source, d.opening = (.pragmaWord, p) := by
  have hopen : (passAt source (p + 1)).mode.opening? = some (.pragmaWord, p) := by
    rw [passAt_succ_of_liveIn h]
    rfl
  obtain ⟨d, hmem, hd⟩ := Pass.exists_pragma_of_opening? hopen (placeAt source (p + 1))
  exact ⟨d, mem_scan_of_mem_runFrom (lt_length_of_liveIn h) hmem, hd⟩

namespace Pass

/-- All that the next character can do to an open import: it goes on, within a string literal only if it
    was so before or one opens here; a keyword takes its place; or its string literal ends. -/
theorem step_importing {pass : Pass} {start : Nat} (hmode : pass.mode = .importing start) (place : Cursor) :
    (∃ lexer due, pass.step place = (none, ⟨.importing start, lexer, due⟩) ∧
      ∀ mark, lexer.mark? = some mark →
        pass.lexer.mark? = some mark ∨ pass.lexer.settle place = .code ∧ lexer = .string mark []) ∨
    (∃ word, pass.lexer.settle place = .code ∧ place.sign? = some (.keyword word) ∧
      pass.step place = (none, ⟨.ofKeyword word place.offset, .code, word.text.length - 1⟩)) ∨
    (∃ mark content, pass.lexer = .string mark content ∧
      pass.step place = (some (.imported content ⟨start, place.offset + 1⟩), ⟨.top, .code, 0⟩)) := by
  obtain ⟨last?, offset, _ | ⟨c, rest⟩⟩ := place
  · refine .inl ⟨pass.lexer, pass.due, ?_, fun _ h => .inl h⟩
    rw [← hmode]
    rfl
  rcases step_cases pass last? offset c rest with
    ⟨_, hstep⟩ | ⟨_, hcode, hstep⟩ | ⟨mark, content, _, hlexer, hstep⟩ | ⟨_, hcode, hmark, hstep⟩
  · refine .inl ⟨pass.lexer, pass.due - 1, ?_, fun _ h => .inl h⟩
    rw [hstep, hmode]
  · rw [hstep, hmode]
    cases hsign : Cursor.sign? ⟨last?, offset, c :: rest⟩ with
    | none => exact .inl ⟨.code, 0, rfl, fun mark h => absurd h (Option.some_ne_none mark).symm⟩
    | some sign =>
      cases sign with
      | keyword word => exact .inr (.inl ⟨word, hcode, rfl, rfl⟩)
      | quote mark =>
        refine .inl ⟨.string mark [], 0, rfl, ?_⟩
        intro other h
        obtain rfl : mark = other := Option.some.inj h
        exact .inr ⟨hcode, rfl⟩
      | _ => exact .inl ⟨_, 0, rfl, fun mark h => absurd h (Option.some_ne_none mark).symm⟩
  · rw [hstep, hmode]
    by_cases hc : c = mark.char
    · rw [if_pos hc]
      exact .inr (.inr ⟨mark, content, hlexer, rfl⟩)
    · rw [if_neg hc]
      refine .inl ⟨.string mark (content ++ [c]), 0, rfl, fun other h => .inl ?_⟩
      rw [hlexer]
      exact h
  · refine .inl ⟨pass.lexer.step ⟨last?, offset, c :: rest⟩, 0, by rw [hstep, hmode], fun mark h => ?_⟩
    rw [Lexer.mark?_step hcode hmark] at h
    cases h

end Pass

private theorem eq_importing_of_opening? {mode : Mode} {start : Nat}
    (h : mode.opening? = some (.importWord, start)) : mode = .importing start := by
  cases mode <;> cases h
  rfl

/-- One more character does not let an import miss its path or its end. -/
private theorem searching_succ {source : Text} {p start : Nat} (hp : p < source.length) (hlt : start < p)
    (hbefore : (passAt source p).mode = .importing start) (h : (passAt source (p + 1)).mode = .importing start)
    (hmark : (readingAt source p).mark? = none) (hquiet : QuietIn source (readingAt source) start p) :
    (readingAt source (p + 1)).mark? = none ∧ QuietIn source (readingAt source) start (p + 1) ∨
      ∃ q mark, PathIn source (readingAt source) start q mark := by
  rcases Pass.step_importing hbefore (placeAt source p) with
    ⟨lexer, due, hstep, hstring⟩ | ⟨word, _, _, hstep⟩ | ⟨mark, content, hlexer, _⟩
  · have hreading : readingAt source (p + 1) = lexer := by
      rw [readingAt, passAt, hstep]
    cases hnext : lexer.mark? with
    | none =>
      refine .inl ⟨by rw [hreading, hnext], fun r hr hr' => ?_⟩
      rcases Nat.lt_succ_iff_lt_or_eq.1 hr with hr | rfl
      · exact hquiet r hr hr'
      · refine ⟨fun mark hopens => ?_, fun word hlive => ?_⟩
        · rw [← hreading, hopens.2] at hnext
          cases hnext
        · rw [passAt_succ_of_liveIn hlive] at h
          cases word <;> cases h
          exact Nat.lt_irrefl _ hlt
    | some mark =>
      rcases hstring mark hnext with hsome | ⟨hcode, rfl⟩
      · cases hmark.symm.trans hsome
      · exact .inr ⟨p, mark, hlt, ⟨hcode, hreading⟩, hquiet⟩
  · rw [passAt, hstep, offset_placeAt (Nat.le_of_lt hp)] at h
    cases word <;> cases h
    exact absurd hlt (Nat.lt_irrefl _)
  · rw [readingAt, hlexer] at hmark
    cases hmark

/-- While an import is looking for its path, nothing that could be the path or replace the import has been
    passed, unless the path itself is being read. -/
theorem searching_of_importing {source : Text} {p : Nat} (hp : p ≤ source.length) {start : Nat}
    (h : (passAt source p).mode = .importing start) :
    (readingAt source p).mark? = none ∧ QuietIn source (readingAt source) start p ∨
      ∃ q mark, PathIn source (readingAt source) start q mark := by
  induction p with
  | zero => cases h
  | succ p ih =>
    have hle := Nat.le_of_succ_le hp
    rcases Pass.step_opening? (passAt source p) (placeAt source p) with
      ⟨_, hmode⟩ | ⟨word, _, _, hstep⟩ | ⟨_, _, _, _, htop⟩
    · have hopen : (passAt source p).mode.opening? = some (.importWord, start) := by
        rw [← hmode, ← passAt, h]
        rfl
      have hbefore := eq_importing_of_opening? hopen
      rcases ih hle hbefore with ⟨hmark, hquiet⟩ | hpath
      · exact searching_succ hp (liveIn_of_opening? hle hopen).1 hbefore h hmark hquiet
      · exact .inr hpath
    · rw [passAt, hstep, offset_placeAt hle] at h
      obtain ⟨rfl, rfl⟩ : word = .importWord ∧ p = start := by
        cases word <;> cases h
        exact ⟨rfl, rfl⟩
      refine .inl ⟨by rw [readingAt, passAt, hstep]; rfl, fun r hr hr' => ?_⟩
      omega
    · rw [passAt, htop] at h
      cases h

/-- An import that is reported has found its path. -/
theorem exists_path_of_mem_scan {source : Text} {path : Text} {span : Span}
    (h : .imported path span ∈ scan source) : ∃ q mark, PathIn source (readingAt source) span.start q mark := by
  obtain ⟨p, hp, hreport⟩ := mem_scan_iff.1 h
  have hmode := eq_importing_of_opening? (opening?_of_reportAt hreport)
  rcases searching_of_importing hp hmode with ⟨hmark, _⟩ | hpath
  · exfalso
    have hclose (stop : Nat) : (passAt source p).mode.close stop = none := by
      rw [hmode]
      rfl
    unfold reportAt at hreport
    split at hreport
    · rcases Pass.step_importing hmode (placeAt source p) with
        ⟨_, _, hstep, _⟩ | ⟨_, _, _, hstep⟩ | ⟨mark, content, hlexer, _⟩
      · rw [hstep] at hreport
        cases hreport
      · rw [hstep] at hreport
        cases hreport
      · rw [readingAt, hlexer] at hmark
        cases hmark
    · unfold Pass.finish at hreport
      split at hreport
      · rename_i hlexer
        rw [readingAt, hlexer] at hmark
        cases hmark
      · rw [hclose] at hreport
        cases hreport
  · exact hpath

/-- An import stays open, outside string literals, up to its path. -/
theorem importing_of_pathIn {source : Text} {start q : Nat} {mark : Quote}
    (hlive : LiveIn source (readingAt source) .importWord start)
    (hpath : PathIn source (readingAt source) start q mark) {p : Nat} (hlt : start < p) (hp : p ≤ q) :
    (passAt source p).mode = .importing start ∧ (readingAt source p).mark? = none := by
  induction p with
  | zero => cases hlt
  | succ p ih =>
    rcases Nat.lt_succ_iff_lt_or_eq.1 hlt with hlt | rfl
    · obtain ⟨hmode, hmark⟩ := ih hlt (Nat.le_of_succ_le hp)
      obtain ⟨hopens, hkeyword⟩ := hpath.2.2 p hp hlt
      rcases Pass.step_importing hmode (placeAt source p) with
        ⟨lexer, due, hstep, hstring⟩ | ⟨word, hcode, hsign, _⟩ | ⟨other, content, hlexer, _⟩
      · rw [readingAt, passAt, hstep]
        refine ⟨rfl, ?_⟩
        cases hnext : lexer.mark? with
        | none => rfl
        | some other =>
          rcases hstring other hnext with hsome | ⟨hcode, rfl⟩
          · cases hmark.symm.trans hsome
          · refine absurd ⟨hcode, ?_⟩ (hopens other)
            rw [readingAt, passAt, hstep]
      · exact absurd ⟨hcode, hsign⟩ (hkeyword word)
      · rw [readingAt, hlexer] at hmark
        cases hmark
    · rw [readingAt, passAt_succ_of_liveIn hlive]
      exact ⟨rfl, rfl⟩

/-- A string opens inside the source. -/
theorem lt_length_of_opensIn {source : Text} {mark : Quote} {q : Nat}
    (h : OpensIn source (readingAt source) mark q) : q < source.length := by
  refine Nat.lt_of_not_le fun hle => ?_
  obtain ⟨hcode, hopen⟩ := h
  rw [readingAt, passAt_succ_of_length_le hle] at hopen
  rw [readingAt, hopen] at hcode
  cases hcode

/-- A string literal opens at a quote mark. -/
theorem sign?_of_opensIn {source : Text} {mark : Quote} {q : Nat} (h : OpensIn source (readingAt source) mark q) :
    (placeAt source q).sign? = some (.quote mark) := by
  have hlt := lt_length_of_opensIn h
  have hfits := fits_passAt (Nat.le_of_lt hlt)
  obtain ⟨hcode, hopen⟩ := h
  obtain ⟨last?, hplace⟩ := placeAt_of_lt hlt
  simp only [readingAt] at hcode
  rw [readingAt, passAt] at hopen
  rw [hplace] at hcode hopen hfits ⊢
  rcases Pass.step_cases (passAt source q) last? q source[q] (source.drop (q + 1)) with
    ⟨hpos, hstep⟩ | ⟨_, _, hstep⟩ | ⟨other, content, _, hlexer, _⟩ | ⟨_, hcomment, _, _⟩
  · rw [hstep, (hfits hpos).1] at hopen
    cases hopen
  · rw [hstep] at hopen
    cases hsign : Cursor.sign? ⟨last?, q, source[q] :: source.drop (q + 1)⟩ with
    | none =>
      rw [hsign] at hopen
      cases hopen
    | some sign =>
      rw [hsign] at hopen
      generalize (passAt source q).mode = mode at hopen
      cases sign with
      | quote other =>
        cases hnaming : mode.isNaming <;> simp only [Pass.meet, hnaming] at hopen <;> cases hopen
        rfl
      | identifier => cases mode <;> cases hopen
      | _ => cases hopen
  · rw [hlexer] at hcode
    cases hcode
  · exact absurd hcode hcomment

/-- An import whose path the pass comes to is reported with it, and ends where the string literal does. -/
theorem imported_mem_scan {source : Text} {start q : Nat} {mark : Quote}
    (hlive : LiveIn source (readingAt source) .importWord start)
    (hpath : PathIn source (readingAt source) start q mark) :
    .imported ((placeAt source (q + 1)).readString mark).1
      ⟨start, ((placeAt source (q + 1)).readString mark).2.offset⟩ ∈ scan source := by
  obtain ⟨hmode, hmark⟩ := importing_of_pathIn hlive hpath hpath.1 Nat.le.refl
  obtain ⟨hlt, hopens, _⟩ := hpath
  have hq := lt_length_of_opensIn hopens
  have hopened : passAt source (q + 1) = ⟨.importing start, .string mark [], 0⟩ := by
    have hlexer : (passAt source (q + 1)).lexer = .string mark [] := hopens.2
    have hdue : (passAt source (q + 1)).due = 0 := by
      refine Nat.eq_zero_of_not_pos fun hpos => ?_
      cases hlexer.symm.trans (fits_passAt hq hpos).1
    rcases Pass.step_importing hmode (placeAt source q) with
      ⟨lexer, due, hstep, _⟩ | ⟨_, _, _, hstep⟩ | ⟨_, _, _, hstep⟩
    · rw [passAt, hstep] at hlexer hdue ⊢
      rw [show lexer = .string mark [] from hlexer, show due = 0 from hdue]
    · rw [passAt, hstep] at hlexer
      cases hlexer
    · rw [passAt, hstep] at hlexer
      cases hlexer
  have hrun := Pass.runFrom_readString_importing start mark [] (placeAt source (q + 1))
  rw [← hopened, List.nil_append] at hrun
  refine mem_scan_of_mem_runFrom hq ?_
  rw [hrun]
  exact List.mem_cons_self

/-- A string behind a live import is reported as its path. -/
theorem exists_imported_of_pathIn {source : Text} {start q : Nat} {mark : Quote}
    (hlive : LiveIn source (readingAt source) .importWord start)
    (hpath : PathIn source (readingAt source) start q mark) :
    ∃ stop, .imported (contentAt source mark q) ⟨start, stop⟩ ∈ scan source := by
  have hmem := imported_mem_scan hlive hpath
  rw [Cursor.readString_fst, rest_placeAt] at hmem
  exact ⟨_, hmem⟩

end DirectiveIndex
