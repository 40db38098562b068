import DirectiveIndex.Metadata
import DirectiveIndex.Proofs.Regions
import DirectiveIndex.Proofs.Relocation

namespace DirectiveIndex

/-- Every carriage return stands before a line feed. -/
def Text.ReturnsPaired (text : Text) : Prop :=
  ∀ p, text[p]? = some '\r' → text[p + 1]? = some '\n'

instance (text : Text) : Decidable (Text.ReturnsPaired text) :=
  decidable_of_iff (∀ p < text.length, text[p]? = some '\r' → text[p + 1]? = some '\n')
    ⟨fun h p hp => h p (List.getElem?_eq_some_iff.1 hp).1 hp, fun h p _ => h p⟩

/-- The text with every carriage return before a line feed left out. -/
def Text.foldBreaks : Text → Text
  | [] => []
  | '\r' :: '\n' :: rest => '\n' :: Text.foldBreaks rest
  | c :: rest => c :: Text.foldBreaks rest

/-- The place in the folded text that corresponds to a place in the text. -/
def foldedPlace (text : Text) (p : Nat) : Nat :=
  (Text.foldBreaks (text.take p)).length

/-- The directive with the line endings in its texts folded. -/
def Directive.foldBreaks : Directive → Directive
  | .imported path span => .imported (Text.foldBreaks path) span
  | .pragma name value span => .pragma name (Text.foldBreaks value) span

/-- The metadata with the line endings in its texts folded. -/
def Metadata.foldBreaks (metadata : Metadata) : Metadata :=
  ⟨metadata.imports.map Text.foldBreaks, metadata.solidity.map Text.foldBreaks⟩

namespace Text

variable {c : Char} {text rest : Text}

/-- Whether the carriage returns are paired is told character by character. -/
theorem returnsPaired_cons : ReturnsPaired (c :: rest) ↔ (c = '\r' → rest.head? = some '\n') ∧ ReturnsPaired rest := by
  constructor
  · intro h
    refine ⟨fun hc => ?_, fun p hp => h (p + 1) hp⟩
    rw [List.head?_eq_getElem?]
    exact h 0 (congrArg some hc)
  · rintro ⟨hhead, htail⟩ p hp
    cases p with
    | zero =>
      rw [List.getElem?_cons_succ, ← List.head?_eq_getElem?]
      exact hhead (Option.some.inj hp)
    | succ p => exact htail p hp

/-- Two texts with paired carriage returns make one. -/
theorem ReturnsPaired.append (h : ReturnsPaired text) (hrest : ReturnsPaired rest) : ReturnsPaired (text ++ rest) := by
  induction text with
  | nil => exact hrest
  | cons c text ih =>
    obtain ⟨hhead, htail⟩ := returnsPaired_cons.1 h
    refine returnsPaired_cons.2 ⟨fun hc => ?_, ih htail⟩
    have hmore := hhead hc
    cases text with
    | nil => cases hmore
    | cons d text => exact hmore

theorem returnsPaired_singleton (hc : c ≠ '\r') : ReturnsPaired [c] :=
  returnsPaired_cons.2 ⟨fun h => absurd h hc, nofun⟩

theorem returnsPaired_break : ReturnsPaired ['\r', '\n'] :=
  returnsPaired_cons.2 ⟨fun _ => rfl, returnsPaired_singleton (by decide)⟩

/-- Any character but a carriage return is kept. -/
theorem foldBreaks_cons (hc : c ≠ '\r') (rest : Text) : foldBreaks (c :: rest) = c :: foldBreaks rest := by
  rw [foldBreaks]
  rintro rest rfl
  exact absurd rfl hc

/-- A carriage return stands before a line feed, so what does not stand so is none. -/
theorem ReturnsPaired.ne_return (h : ReturnsPaired (c :: rest))
    (hnot : ∀ tail, c = '\r' → rest = '\n' :: tail → False) : c ≠ '\r' := by
  intro hc
  obtain ⟨tail, htail⟩ := List.head?_eq_some_iff.1 ((returnsPaired_cons.1 h).1 hc)
  exact hnot tail hc htail

/-- Folding goes through two texts one after the other where no line ending lies across their
border. -/
theorem ReturnsPaired.foldBreaks_append (h : ReturnsPaired text) (rest : Text) :
    foldBreaks (text ++ rest) = foldBreaks text ++ foldBreaks rest := by
  fun_induction foldBreaks text with
  | case1 => rfl
  | case2 text ih =>
    have htail := (returnsPaired_cons.1 (returnsPaired_cons.1 h).2).2
    rw [List.cons_append, List.cons_append, foldBreaks, ih htail, List.cons_append]
  | case3 c text hnot ih =>
    have htail := (returnsPaired_cons.1 h).2
    rw [List.cons_append, foldBreaks_cons (h.ne_return hnot), ih htail, List.cons_append]

/-- The word ahead is the same in the folded text. -/
theorem takeWhile_foldBreaks (text : Text) :
    (foldBreaks text).takeWhile Text.isIdentifier = text.takeWhile Text.isIdentifier := by
  fun_induction foldBreaks text with
  | case1 => rfl
  | case2 rest => rfl
  | case3 c rest _ ih => rw [List.takeWhile_cons, List.takeWhile_cons, ih]

/-- The next character is the same in the folded text, unless it is a carriage return. -/
theorem head?_foldBreaks {d : Char} (hreturn : d ≠ '\r') (hfeed : d ≠ '\n') (text : Text) :
    (foldBreaks text).head? = some d ↔ text.head? = some d := by
  fun_induction foldBreaks text with
  | case1 => rfl
  | case2 rest => simp [hreturn.symm, hfeed.symm]
  | case3 c rest => rfl

/-- A mark is ahead of the folded text if it is ahead of the text. -/
theorem pair_isPrefixOf_foldBreaks {a b : Char} (hreturn : b ≠ '\r') (hfeed : b ≠ '\n') (c : Char) (rest : Text) :
    [a, b].isPrefixOf (c :: foldBreaks rest) = [a, b].isPrefixOf (c :: rest) := by
  simp only [pair_isPrefixOf_cons, head?_foldBreaks hreturn hfeed]

end Text

/-- The state with the line endings in the open string literal folded. -/
def Lexer.foldBreaks : Lexer → Lexer
  | .string mark content => .string mark (Text.foldBreaks content)
  | lexer => lexer

/-- The mode with the line endings in the value that is being read folded. -/
def Mode.foldBreaks : Mode → Mode
  | .valuing start name captured => .valuing start name (Text.foldBreaks captured)
  | mode => mode

/-- The pass with the line endings in what it has read folded. -/
def Pass.foldBreaks (pass : Pass) : Pass :=
  ⟨pass.mode.foldBreaks, pass.lexer.foldBreaks, pass.due⟩

/-- No line ending is broken at the end of the open string literal. -/
def Lexer.ReturnsPaired : Lexer → Prop
  | .string _ content => Text.ReturnsPaired content
  | _ => True

/-- No line ending is broken at the end of the value that is being read. -/
def Mode.ReturnsPaired : Mode → Prop
  | .valuing _ _ captured => Text.ReturnsPaired captured
  | _ => True

/-- Between the two characters of a mark, the second one is ahead. -/
def Lexer.Awaits (lexer : Lexer) (rest : Text) : Prop :=
  (∀ kind, lexer = .opening kind → rest.head? = some kind.second) ∧ (lexer = .closing → rest.head? = some '/')

/-- What holds of the pass before a line ending and before any other character. -/
structure Pass.Whole (pass : Pass) (place : Cursor) : Prop where
  fits : pass.Fits place
  awaits : pass.lexer.Awaits place.rest
  mode : pass.mode.ReturnsPaired
  lexer : pass.lexer.ReturnsPaired

namespace Mode

variable {mode : Mode} {c : Char}

/-- What is captured keeps its carriage returns paired. -/
theorem ReturnsPaired.capture (h : mode.ReturnsPaired) (hc : c ≠ '\r') : (mode.capture c).ReturnsPaired := by
  cases mode with
  | valuing start name captured => exact Text.ReturnsPaired.append h (Text.returnsPaired_singleton hc)
  | _ => trivial

/-- Capturing commutes with folding at any character but a carriage return. -/
theorem ReturnsPaired.capture_foldBreaks (h : mode.ReturnsPaired) (hc : c ≠ '\r') :
    mode.foldBreaks.capture c = (mode.capture c).foldBreaks := by
  cases mode with
  | valuing start name captured =>
    have hfold : Text.foldBreaks [c] = [c] := Text.foldBreaks_cons hc []
    simp only [Mode.foldBreaks, Mode.capture, Text.ReturnsPaired.foldBreaks_append h, hfold]
  | _ => rfl

/-- The end of a string commutes with folding. -/
theorem ReturnsPaired.endString_foldBreaks (h : mode.ReturnsPaired) (hc : c ≠ '\r') :
    mode.foldBreaks.endString c = (mode.endString c).foldBreaks := by
  cases mode with
  | importing start => rfl
  | _ => exact h.capture_foldBreaks hc

/-- Closing a directive commutes with folding. -/
theorem close_foldBreaks (mode : Mode) (stop : Nat) :
    mode.foldBreaks.close stop = (mode.close stop).map Directive.foldBreaks := by
  cases mode <;> rfl

/-- Completing an import commutes with folding. -/
theorem complete_foldBreaks (mode : Mode) (content : Text) (stop : Nat) :
    mode.foldBreaks.complete (Text.foldBreaks content) stop =
      (mode.complete content stop).map Directive.foldBreaks := by
  cases mode <;> rfl

/-- A semicolon commutes with folding. -/
theorem terminate_foldBreaks (mode : Mode) : mode.foldBreaks.terminate = mode.terminate.foldBreaks := by
  cases mode <;> rfl

theorem isNaming_foldBreaks (mode : Mode) : mode.foldBreaks.isNaming = mode.isNaming := by
  cases mode <;> rfl

/-- A whole line ending leaves the carriage returns paired. -/
theorem ReturnsPaired.capture_break (h : mode.ReturnsPaired) : ((mode.capture '\r').capture '\n').ReturnsPaired := by
  cases mode with
  | valuing start name captured =>
    have hcaptured := Text.ReturnsPaired.append h Text.returnsPaired_break
    rw [← List.singleton_append, ← List.append_assoc] at hcaptured
    exact hcaptured
  | _ => trivial

/-- A line ending is captured as the line feed that it is folded to. -/
theorem ReturnsPaired.capture_break_foldBreaks (h : mode.ReturnsPaired) :
    mode.foldBreaks.capture '\n' = ((mode.capture '\r').capture '\n').foldBreaks := by
  cases mode with
  | valuing start name captured =>
    have hfold : Text.foldBreaks (captured ++ ['\r'] ++ ['\n']) = Text.foldBreaks captured ++ ['\n'] := by
      rw [List.append_assoc]
      exact Text.ReturnsPaired.foldBreaks_append h ['\r', '\n']
    simp only [Mode.foldBreaks, Mode.capture, hfold]
  | _ => rfl

end Mode

namespace Lexer

theorem awaits_code (rest : Text) : code.Awaits rest := by
  constructor
  · intro kind h
    cases h
  · intro h
    cases h

/-- A step of the lexer leaves it waiting for what comes next. -/
theorem awaits_stepOver (lexer : Lexer) (c : Char) (rest : Text) : (lexer.stepOver c rest.head?).Awaits rest := by
  constructor
  · intro kind h
    unfold stepOver at h
    split at h
    · exact (opened_eq_opening_iff.1 h).2
    · cases h
    · split at h <;> cases h
    · cases h
    · cases h
    · split at h <;> cases h
  · intro h
    unfold stepOver at h
    split at h
    · rcases opened_cases c rest.head? with ⟨mark, -, hopened⟩ | ⟨kind, -, hopened⟩ | hopened <;>
        cases hopened.symm.trans h
    · cases h
    · split at h
      · rename_i hend
        exact hend.2
      · cases h
    · cases h
    · cases h
    · split at h <;> cases h

/-- A step over any character but a carriage return leaves the carriage returns of a string paired. -/
theorem ReturnsPaired.stepOver {lexer : Lexer} {c : Char} (h : lexer.ReturnsPaired) (hc : c ≠ '\r')
    (next? : Option Char) : (lexer.stepOver c next?).ReturnsPaired := by
  rcases regionOf_cases lexer c next? with
    ⟨-, -, hnext⟩ | ⟨mark, -, -, -, hnext⟩ | ⟨-, -, -, hnext⟩ | ⟨mark, content, rfl, -, hnext⟩
  · cases hover : lexer.stepOver c next? with
    | string mark content =>
      rw [hover] at hnext
      cases hnext
    | _ => trivial
  · rw [hnext]
    exact nofun
  · rw [hnext]
    trivial
  · rw [hnext]
    split
    · trivial
    · exact Text.ReturnsPaired.append h (Text.returnsPaired_singleton hc)

end Lexer

section Step

variable {last? : Option Char} {offset : Nat} {c : Char} {rest : Text}

/-- What begins at a place does not depend on the line endings behind it. -/
theorem Cursor.sign?_foldBreaks (last? : Option Char) (offset : Nat) (c : Char) (rest : Text) :
    sign? ⟨last?, offset, c :: Text.foldBreaks rest⟩ = sign? ⟨last?, offset, c :: rest⟩ := by
  have hword : word ⟨last?, offset, c :: Text.foldBreaks rest⟩ = word ⟨last?, offset, c :: rest⟩ := by
    rw [word, word, List.takeWhile_cons, List.takeWhile_cons, Text.takeWhile_foldBreaks]
  unfold sign?
  congr 1
  funext sign
  cases sign with
  | keyword word => rw [Sign.beginsAt_keyword, Sign.beginsAt_keyword, hword]
  | comment kind => cases kind <;> exact Text.pair_isPrefixOf_foldBreaks (by decide) (by decide) c rest
  | _ => rfl

namespace Pass

private theorem meet_foldBreaks {mode : Mode} (h : mode.ReturnsPaired) (hc : c ≠ '\r') (sign? : Option Sign) :
    meet mode.foldBreaks ⟨last?, offset, c :: Text.foldBreaks rest⟩ c sign? =
      ((meet mode ⟨last?, offset, c :: rest⟩ c sign?).1.map Directive.foldBreaks,
        (meet mode ⟨last?, offset, c :: rest⟩ c sign?).2.foldBreaks) := by
  have hcapture := h.capture_foldBreaks hc
  cases sign? with
  | none => simp only [meet, hcapture, foldBreaks, Lexer.foldBreaks, Option.map_none]
  | some sign =>
    cases sign with
    | keyword word =>
      simp only [meet, Mode.close_foldBreaks]
      cases word <;> rfl
    | comment kind => rfl
    | quote mark =>
      simp only [meet, hcapture, Mode.isNaming_foldBreaks, foldBreaks, Option.map_none]
      cases mode.isNaming <;> rfl
    | semicolon => simp only [meet, Mode.close_foldBreaks, Mode.terminate_foldBreaks, foldBreaks, Lexer.foldBreaks]
    | identifier =>
      have hword : Cursor.word ⟨last?, offset, c :: Text.foldBreaks rest⟩ = Cursor.word ⟨last?, offset, c :: rest⟩ := by
        rw [Cursor.word, Cursor.word, List.takeWhile_cons, List.takeWhile_cons, Text.takeWhile_foldBreaks]
      cases mode with
      | naming start =>
        simp only [meet, Mode.foldBreaks, hword]
        rfl
      | valuing start name captured => exact congrArg (fun mode => (none, (⟨mode, .code, 0⟩ : Pass))) hcapture
      | _ => rfl

/-- What a character that is no carriage return does to the pass does not depend on line endings. -/
theorem step_foldBreaks {pass : Pass} (hc : c ≠ '\r') (hmode : pass.mode.ReturnsPaired)
    (hlexer : pass.lexer.ReturnsPaired) :
    pass.foldBreaks.step ⟨last?, offset, c :: Text.foldBreaks rest⟩ =
      ((pass.step ⟨last?, offset, c :: rest⟩).1.map Directive.foldBreaks,
        (pass.step ⟨last?, offset, c :: rest⟩).2.foldBreaks) := by
  obtain ⟨mode, lexer, due⟩ := pass
  cases due with
  | succ due => rfl
  | zero =>
    cases lexer with
    | code =>
      rw [step_code, ← Cursor.sign?_foldBreaks]
      exact meet_foldBreaks hmode hc _
    | opening kind => rfl
    | closing => rfl
    | comment kind =>
      cases kind with
      | block =>
        have hclosing : "*/".toList.isPrefixOf (c :: Text.foldBreaks rest) = "*/".toList.isPrefixOf (c :: rest) :=
          Text.pair_isPrefixOf_foldBreaks (by decide) (by decide) c rest
        simp only [step, Lexer.settle, Lexer.step, Pass.foldBreaks, Lexer.foldBreaks, hclosing]
        split <;> rfl
      | line =>
        have hend : Cursor.atLineEnd ⟨last?, offset, c :: Text.foldBreaks rest⟩ =
            Cursor.atLineEnd ⟨last?, offset, c :: rest⟩ := by
          have hfeed : ['\n'].isPrefixOf (c :: Text.foldBreaks rest) = ['\n'].isPrefixOf (c :: rest) := rfl
          simp only [Cursor.atLineEnd, pair_isPrefixOf_cons, hfeed, hc, false_and]
        cases hline : Cursor.atLineEnd ⟨last?, offset, c :: rest⟩ with
        | true =>
          rw [hline] at hend
          simp only [step, Pass.foldBreaks, Lexer.foldBreaks, Lexer.settle, hline, hend, if_true,
            Cursor.sign?_foldBreaks]
          exact meet_foldBreaks hmode hc _
        | false =>
          rw [hline] at hend
          simp only [step, Pass.foldBreaks, Lexer.foldBreaks, Lexer.settle, Lexer.step, hline, hend,
            if_neg Bool.false_ne_true]
          rfl
    | string mark content =>
      have hcontent : Text.foldBreaks (content ++ [c]) = Text.foldBreaks content ++ [c] := by
        rw [Text.ReturnsPaired.foldBreaks_append hlexer, Text.foldBreaks_cons hc]
        rfl
      simp only [Pass.foldBreaks, Lexer.foldBreaks, step_string, Mode.complete_foldBreaks,
        hmode.capture_foldBreaks hc, hmode.endString_foldBreaks hc]
      split
      · rfl
      · rw [← hcontent]
        rfl

/-- The pass goes on as the lexer does, or opens nothing. -/
private theorem lexer_step_or {pass : Pass} (hfits : pass.Fits ⟨last?, offset, c :: rest⟩) :
    (pass.step ⟨last?, offset, c :: rest⟩).2.lexer = pass.lexer.stepOver c rest.head? ∨
      (pass.step ⟨last?, offset, c :: rest⟩).2.lexer = .code := by
  rcases lexer_step hfits with hstep | ⟨start, mark, hmode, hdue, hcode, hsign⟩
  · exact .inl (hstep.trans Lexer.step_eq_stepOver)
  · obtain ⟨mode, lexer, due⟩ := pass
    obtain rfl : mode = .naming start := hmode
    obtain rfl : due = 0 := hdue
    simp only [step, hcode, hsign]
    exact .inr rfl

private theorem mode_step {pass : Pass} (h : pass.mode.ReturnsPaired) (hc : c ≠ '\r') :
    (pass.step ⟨last?, offset, c :: rest⟩).2.mode.ReturnsPaired := by
  rcases step_cases pass last? offset c rest with
    ⟨_, hstep⟩ | ⟨_, _, hstep⟩ | ⟨mark, content, _, _, hstep⟩ | ⟨_, _, _, hstep⟩
  · rw [hstep]
    exact h
  · rw [hstep]
    generalize pass.mode = mode at h
    cases Cursor.sign? ⟨last?, offset, c :: rest⟩ with
    | none => exact h.capture hc
    | some sign =>
      cases sign with
      | keyword word => cases word <;> trivial
      | comment kind => exact h
      | quote mark => exact h.capture hc
      | semicolon => cases mode <;> trivial
      | identifier =>
        cases mode with
        | naming start => exact nofun
        | _ => exact h.capture hc
  · rw [hstep]
    generalize pass.mode = mode at h
    split
    · cases mode with
      | importing start => trivial
      | _ => exact h.capture hc
    · exact h.capture hc
  · rw [hstep]
    exact h

/-- A step over any character but a carriage return leaves no line ending half captured. -/
theorem Whole.step {pass : Pass} (h : pass.Whole ⟨last?, offset, c :: rest⟩) (hc : c ≠ '\r') :
    (pass.step ⟨last?, offset, c :: rest⟩).2.Whole ⟨some c, offset + 1, rest⟩ where
  fits := fits_step h.fits
  awaits := by
    rcases lexer_step_or h.fits with hlexer | hlexer
    · rw [hlexer]
      exact Lexer.awaits_stepOver pass.lexer c rest
    · rw [hlexer]
      exact Lexer.awaits_code rest
  mode := mode_step h.mode hc
  lexer := by
    rcases lexer_step_or h.fits with hlexer | hlexer
    · rw [hlexer]
      exact h.lexer.stepOver hc rest.head?
    · rw [hlexer]
      trivial

/-- A line ending does to the pass what its line feed alone does. -/
theorem Whole.step_break {pass : Pass} (h : pass.Whole ⟨last?, offset, '\r' :: '\n' :: rest⟩) :
    ∃ between next, pass.step ⟨last?, offset, '\r' :: '\n' :: rest⟩ = (none, between) ∧
      between.step ⟨some '\r', offset + 1, '\n' :: rest⟩ = (none, next) ∧
      pass.foldBreaks.step ⟨last?, offset, '\n' :: Text.foldBreaks rest⟩ = (none, next.foldBreaks) ∧
      next.Whole ⟨some '\n', offset + 2, rest⟩ := by
  have hdue : pass.due = 0 := by
    refine Nat.eq_zero_of_not_pos fun hpos => ?_
    have hidentifier := isIdentifier_of_fits h.fits hpos
    exact absurd hidentifier (by decide)
  have hmode := h.mode.capture_break
  have hfold := h.mode.capture_break_foldBreaks
  obtain ⟨hopening, hclosing⟩ := h.awaits
  obtain ⟨mode, lexer, due⟩ := pass
  subst hdue
  have hwhole {mode : Mode} {lexer : Lexer} (hmode : mode.ReturnsPaired) (hlexer : lexer.ReturnsPaired)
      (hawaits : lexer.Awaits rest) : Whole ⟨mode, lexer, 0⟩ ⟨some '\n', offset + 2, rest⟩ :=
    ⟨fun hpos => absurd hpos (Nat.lt_irrefl 0), hawaits, hmode, hlexer⟩
  have hcode : Whole ⟨(mode.capture '\r').capture '\n', .code, 0⟩ ⟨some '\n', offset + 2, rest⟩ :=
    hwhole hmode trivial (Lexer.awaits_code rest)
  cases lexer with
  | opening kind =>
    have hsecond := hopening kind rfl
    cases kind <;> cases hsecond
  | closing => cases hclosing rfl
  | code => exact ⟨_, _, rfl, rfl, congrArg (fun mode => (none, (⟨mode, .code, 0⟩ : Pass))) hfold, hcode⟩
  | comment kind =>
    cases kind with
    | block => exact ⟨_, _, rfl, rfl, rfl, hwhole h.mode trivial ⟨nofun, nofun⟩⟩
    | line => exact ⟨_, _, rfl, rfl, congrArg (fun mode => (none, (⟨mode, .code, 0⟩ : Pass))) hfold, hcode⟩
  | string mark content =>
    have hreturn : '\r' ≠ mark.char := by cases mark <;> decide
    have hfeed : '\n' ≠ mark.char := by cases mark <;> decide
    have hcontent : content ++ ['\r'] ++ ['\n'] = content ++ ['\r', '\n'] := List.append_assoc _ _ _
    have hread : Text.foldBreaks content ++ ['\n'] = Text.foldBreaks (content ++ ['\r', '\n']) :=
      (Text.ReturnsPaired.foldBreaks_append h.lexer ['\r', '\n']).symm
    refine ⟨⟨mode.capture '\r', .string mark (content ++ ['\r']), 0⟩,
      ⟨(mode.capture '\r').capture '\n', .string mark (content ++ ['\r', '\n']), 0⟩, ?_, ?_, ?_,
      hwhole hmode (Text.ReturnsPaired.append h.lexer Text.returnsPaired_break) ⟨nofun, nofun⟩⟩
    · rw [step_string, if_neg hreturn]
    · rw [step_string, if_neg hfeed, hcontent]
    · have hstep := step_string mode.foldBreaks mark (Text.foldBreaks content) last? offset '\n' (Text.foldBreaks rest)
      rw [if_neg hfeed, hfold, hread] at hstep
      exact hstep

/-- What is due at the end of the source is folded with it. -/
theorem finish_foldBreaks (pass : Pass) (stop : Nat) :
    pass.foldBreaks.finish stop = (pass.finish stop).map Directive.foldBreaks := by
  obtain ⟨mode, lexer, due⟩ := pass
  cases mode <;> cases lexer <;> rfl

/-- What the pass reports of a text with its line endings folded is what it reports of the text, folded and put at the
places that correspond. -/
theorem runFrom_foldBreaks {pass : Pass} {text : Text} {last'? : Option Char} {offset' : Nat} {move : Nat → Nat}
    (hpaired : Text.ReturnsPaired text) (hwhole : pass.Whole ⟨last?, offset, text⟩)
    (hmove : ∀ k ≤ text.length, move (offset + k) = offset' + foldedPlace text k)
    (hlast : Pattern.startsIdentifier text = true → last'?.any Text.isIdentifier = last?.any Text.isIdentifier) :
    (pass.foldBreaks.relocate move).runFrom ⟨last'?, offset', Text.foldBreaks text⟩ =
      (pass.runFrom ⟨last?, offset, text⟩).map fun d => d.foldBreaks.relocate move := by
  fun_induction Text.foldBreaks text generalizing pass last? last'? offset offset' with
  | case1 =>
    have hhere : move offset = offset' := hmove 0 (Nat.zero_le _)
    rw [runFrom_of_rest_nil _ rfl, runFrom_of_rest_nil _ rfl, ← hhere, finish_relocate, finish_foldBreaks]
    cases pass.finish offset <;> rfl
  | case2 rest ih =>
    obtain ⟨between, next, hreturn, hfeed, hfold, hnext⟩ := hwhole.step_break
    have hrest := (Text.returnsPaired_cons.1 (Text.returnsPaired_cons.1 hpaired).2).2
    have hhere : move offset = offset' := hmove 0 (Nat.zero_le _)
    have hbehind : move (offset + 1) = offset' + 1 := hmove 1 (by simp)
    have hlast : Pattern.startsIdentifier ('\n' :: Text.foldBreaks rest) = true →
        last'?.any Text.isIdentifier = last?.any Text.isIdentifier :=
      fun hstarts => absurd hstarts Bool.false_ne_true
    have hlater : ∀ k ≤ rest.length, move (offset + 2 + k) = offset' + 1 + foldedPlace rest k := by
      intro k hk
      have hfurther := hmove (k + 2) (by simpa using hk)
      have hplace : foldedPlace ('\r' :: '\n' :: rest) (k + 2) = foldedPlace rest k + 1 := rfl
      rw [hplace] at hfurther
      rw [Nat.add_assoc, Nat.add_comm 2, hfurther]
      omega
    rw [runFrom_cons, runFrom_cons, hreturn, runFrom_cons, hfeed, step_relocate hhere hbehind hlast, hfold]
    exact ih hrest hnext hlater fun _ => rfl
  | case3 c rest hnot ih =>
    have hrest := (Text.returnsPaired_cons.1 hpaired).2
    have hc := hpaired.ne_return hnot
    have hplace (k : Nat) : foldedPlace (c :: rest) (k + 1) = foldedPlace rest k + 1 := by
      rw [foldedPlace, List.take_succ_cons, Text.foldBreaks_cons hc]
      rfl
    have hhere : move offset = offset' := hmove 0 (Nat.zero_le _)
    have hbehind : move (offset + 1) = offset' + 1 := (hmove 1 (by simp)).trans (congrArg (offset' + ·) (hplace 0))
    have hlater : ∀ k ≤ rest.length, move (offset + 1 + k) = offset' + 1 + foldedPlace rest k := by
      intro k hk
      have hfurther := hmove (k + 1) (by simpa using hk)
      rw [hplace] at hfurther
      rw [Nat.add_assoc, Nat.add_comm 1, hfurther]
      omega
    have hlast : Pattern.startsIdentifier (c :: Text.foldBreaks rest) = true →
        last'?.any Text.isIdentifier = last?.any Text.isIdentifier := hlast
    rw [runFrom_cons, runFrom_cons, step_relocate hhere hbehind hlast, step_foldBreaks hc hwhole.mode hwhole.lexer,
      ih hrest (hwhole.step hc) hlater fun _ => rfl, List.map_append]
    cases (pass.step ⟨last?, offset, c :: rest⟩).1 <;> rfl

end Pass

end Step

/-- A source in which every carriage return stands before a line feed has, with its line endings folded, the directives
that it has itself, folded and at the places that correspond. -/
theorem scan_foldBreaks {source : Text} (h : Text.ReturnsPaired source) :
    scan (Text.foldBreaks source) = (scan source).map fun d => d.foldBreaks.relocate (foldedPlace source) := by
  rw [scan, scan, Scanner.directives_eq, Scanner.directives_eq]
  have hmove : ∀ k ≤ source.length, foldedPlace source (0 + k) = 0 + foldedPlace source k := by
    intro k _
    rw [Nat.zero_add, Nat.zero_add]
  have hwhole : Pass.initial.Whole (Cursor.ofText source) :=
    ⟨fun hpos => absurd hpos (Nat.lt_irrefl 0), Lexer.awaits_code source, trivial, trivial⟩
  exact Pass.runFrom_foldBreaks h hwhole hmove fun _ => rfl

/-- From a source with folded line endings the same is extracted, folded. -/
theorem extract_foldBreaks {source : Text} (h : Text.ReturnsPaired source) :
    extract (Text.foldBreaks source) = (extract source).foldBreaks := by
  have himport (d : Directive) (move : Nat → Nat) : Metadata.importPath? (d.foldBreaks.relocate move) =
      (Metadata.importPath? d).map Text.foldBreaks := by
    cases d <;> rfl
  have hsolidity (d : Directive) (move : Nat → Nat) : Metadata.solidityValue? (d.foldBreaks.relocate move) =
      (Metadata.solidityValue? d).map Text.foldBreaks := by
    cases d with
    | imported path span => rfl
    | pragma name value span =>
      simp only [Directive.foldBreaks, Directive.relocate, Metadata.solidityValue?]
      split <;> rfl
  simp only [extract, scan_foldBreaks h, Metadata.ofDirectives, Metadata.foldBreaks, List.filterMap_map,
    Function.comp_def, himport, hsolidity, List.map_filterMap]

end DirectiveIndex
