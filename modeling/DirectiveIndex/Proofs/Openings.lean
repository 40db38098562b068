import DirectiveIndex.Proofs.Reading
import DirectiveIndex.Proofs.Search

namespace DirectiveIndex

/-- The keyword that a directive begins with, and where. -/
def Directive.opening : Directive → Keyword × Nat
  | .imported _ span => (.importWord, span.start)
  | .pragma _ _ span => (.pragmaWord, span.start)

/-- The keyword of the open directive, and where it begins. -/
def Mode.opening? : Mode → Option (Keyword × Nat)
  | .top => none
  | .importing start => some (.importWord, start)
  | .naming start | .valuing start _ _ => some (.pragmaWord, start)

/-- A directive opens at the start of its span. -/
theorem Directive.opening_snd (d : Directive) : d.opening.2 = d.span.start := by
  cases d <;> rfl

namespace Mode

/-- What a keyword begins is opened by it. -/
theorem opening?_ofKeyword (word : Keyword) (start : Nat) : (ofKeyword word start).opening? = some (word, start) := by
  cases word <;> rfl

/-- Capturing leaves what is open. -/
theorem opening?_capture (mode : Mode) (c : Char) : (mode.capture c).opening? = mode.opening? := by
  cases mode <;> rfl

/-- A directive that is closed was the open one. -/
theorem opening?_of_close {mode : Mode} {stop : Nat} {d : Directive} (h : mode.close stop = some d) :
    mode.opening? = some d.opening := by
  cases mode <;> cases h <;> rfl

/-- An import that is completed was the open one. -/
theorem opening?_of_complete {mode : Mode} {content : Text} {stop : Nat} {d : Directive}
    (h : mode.complete content stop = some d) : mode.opening? = some d.opening := by
  cases mode <;> cases h
  rfl

/-- A closed directive ends where it is closed. -/
theorem stop_of_close {mode : Mode} {stop : Nat} {d : Directive} (h : mode.close stop = some d) :
    d.span.stop = stop := by
  cases mode <;> cases h <;> rfl

/-- A completed import ends where it is completed. -/
theorem stop_of_complete {mode : Mode} {content : Text} {stop : Nat} {d : Directive}
    (h : mode.complete content stop = some d) : d.span.stop = stop := by
  cases mode <;> cases h
  rfl

end Mode

namespace Pass

/-- All that the next character can do to the open directive: it goes on, a keyword takes its place,
    or it is reported, the character included. -/
theorem step_opening? (pass : Pass) (place : Cursor) :
    ((pass.step place).1 = none ∧ (pass.step place).2.mode.opening? = pass.mode.opening?) ∨
    (∃ word, pass.lexer.settle place = .code ∧ place.sign? = some (.keyword word) ∧
      pass.step place =
        (pass.mode.close place.offset, ⟨.ofKeyword word place.offset, .code, word.text.length - 1⟩)) ∨
    (∃ d, (pass.step place).1 = some d ∧ pass.mode.opening? = some d.opening ∧
      d.span.stop = place.offset + 1 ∧ (pass.step place).2.mode = .top) := by
  obtain ⟨last?, offset, _ | ⟨c, rest⟩⟩ := place
  · exact .inl ⟨rfl, rfl⟩
  rcases step_cases pass last? offset c rest with
    ⟨_, hstep⟩ | ⟨_, hcode, hstep⟩ | ⟨mark, content, _, _, hstep⟩ | ⟨_, _, _, hstep⟩
  · rw [hstep]
    exact .inl ⟨rfl, rfl⟩
  · rw [hstep]
    cases hsign : Cursor.sign? ⟨last?, offset, c :: rest⟩ with
    | none => exact .inl ⟨rfl, Mode.opening?_capture _ c⟩
    | some sign =>
      cases sign with
      | keyword word => exact .inr (.inl ⟨word, hcode, rfl, rfl⟩)
      | comment kind => exact .inl ⟨rfl, rfl⟩
      | quote mark => exact .inl ⟨rfl, Mode.opening?_capture _ c⟩
      | semicolon =>
        generalize pass.mode = mode
        cases mode <;> simp [meet, Mode.close, Mode.terminate, Mode.opening?, Directive.opening, Directive.span]
      | identifier =>
        generalize pass.mode = mode
        cases mode <;> simp [meet, Mode.capture, Mode.opening?]
  · rw [hstep]
    by_cases hc : c = mark.char
    · rw [if_pos hc]
      generalize pass.mode = mode
      cases mode <;>
        simp [Mode.complete, Mode.endString, Mode.capture, Mode.opening?, Directive.opening, Directive.span]
    · rw [if_neg hc]
      exact .inl ⟨rfl, Mode.opening?_capture _ c⟩
  · rw [hstep]
    exact .inl ⟨rfl, rfl⟩

/-- What is reported at the end of the source was open. -/
theorem opening?_of_finish {pass : Pass} {stop : Nat} {d : Directive} (h : pass.finish stop = some d) :
    pass.mode.opening? = some d.opening := by
  obtain ⟨mode, lexer, due⟩ := pass
  cases lexer with
  | string mark content =>
    rcases Option.or_eq_some_iff.1 h with hcomplete | ⟨-, hclose⟩
    · exact Mode.opening?_of_complete hcomplete
    · exact Mode.opening?_of_close hclose
  | _ => exact Mode.opening?_of_close h

/-- What is reported at the end of the source ends there. -/
theorem stop_of_finish {pass : Pass} {stop : Nat} {d : Directive} (h : pass.finish stop = some d) :
    d.span.stop = stop := by
  obtain ⟨mode, lexer, due⟩ := pass
  cases lexer with
  | string mark content =>
    rcases Option.or_eq_some_iff.1 h with hcomplete | ⟨-, hclose⟩
    · exact Mode.stop_of_complete hcomplete
    · exact Mode.stop_of_close hclose
  | _ => exact Mode.stop_of_close h

/-- From a place on, the pass reports the open directive and directives that begin at the place or
    behind it. -/
theorem opening_of_mem_runFrom {pass : Pass} {place : Cursor} {d : Directive} (h : d ∈ pass.runFrom place) :
    pass.mode.opening? = some d.opening ∨ place.offset ≤ d.span.start := by
  obtain ⟨last?, offset, rest⟩ := place
  induction rest generalizing pass last? offset with
  | nil =>
    rw [runFrom_of_rest_nil pass rfl, Option.mem_toList] at h
    exact .inl (opening?_of_finish h)
  | cons c rest ih =>
    rw [runFrom_cons, List.mem_append, Option.mem_toList] at h
    rcases step_opening? pass ⟨last?, offset, c :: rest⟩ with
      ⟨hnone, hmode⟩ | ⟨word, _, _, hstep⟩ | ⟨e, hsome, hmode, _, htop⟩
    · rcases h with h | h
      · rw [hnone] at h
        cases h
      · rcases ih _ _ h with hopen | hle
        · exact .inl (hmode.symm.trans hopen)
        · exact .inr (Nat.le_of_succ_le hle)
    · rw [hstep] at h
      rcases h with h | h
      · exact .inl (Mode.opening?_of_close h)
      · rcases ih _ _ h with hopen | hle
        · rw [Mode.opening?_ofKeyword, Option.some.injEq] at hopen
          rw [← Directive.opening_snd, ← hopen]
          exact .inr Nat.le.refl
        · exact .inr (Nat.le_of_succ_le hle)
    · rcases h with h | h
      · obtain rfl : e = d := Option.some.inj (hsome.symm.trans h)
        exact .inl hmode
      · rcases ih _ _ h with hopen | hle
        · rw [htop] at hopen
          cases hopen
        · exact .inr (Nat.le_of_succ_le hle)

/-- From a place on, the pass reports directives that cover at least one character and end within the source. -/
theorem start_lt_stop_of_mem_runFrom {pass : Pass} {place : Cursor}
    (hopen : ∀ word start, pass.mode.opening? = some (word, start) → start < place.offset) {d : Directive}
    (h : d ∈ pass.runFrom place) : d.span.start < d.span.stop ∧ d.span.stop ≤ place.length := by
  obtain ⟨last?, offset, rest⟩ := place
  have hstart {pass : Pass} {offset : Nat} {d : Directive}
      (hopen : ∀ word start, pass.mode.opening? = some (word, start) → start < offset)
      (h : pass.mode.opening? = some d.opening) : d.span.start < offset := by
    rw [← Directive.opening_snd]
    exact hopen _ _ h
  induction rest generalizing pass last? offset with
  | nil =>
    rw [runFrom_of_rest_nil pass rfl, Option.mem_toList] at h
    rw [stop_of_finish h]
    exact ⟨hstart hopen (opening?_of_finish h), Nat.le.refl⟩
  | cons c rest ih =>
    have hlength : Cursor.length ⟨some c, offset + 1, rest⟩ = Cursor.length ⟨last?, offset, c :: rest⟩ := by
      simp only [Cursor.length, List.length_cons]
      omega
    have hlt : offset < Cursor.length ⟨last?, offset, c :: rest⟩ := Nat.lt_add_of_pos_right (Nat.succ_pos _)
    rw [runFrom_cons, List.mem_append, Option.mem_toList] at h
    rcases step_opening? pass ⟨last?, offset, c :: rest⟩ with
      ⟨hnone, hmode⟩ | ⟨word, _, _, hstep⟩ | ⟨e, hsome, hmode, hstop, htop⟩
    · rcases h with h | h
      · rw [hnone] at h
        cases h
      · rw [← hlength]
        refine ih _ _ (fun word start hword => ?_) h
        exact Nat.lt_succ_of_lt (hopen word start (hmode.symm.trans hword))
    · rw [hstep] at h
      rcases h with h | h
      · rw [Mode.stop_of_close h]
        exact ⟨hstart hopen (Mode.opening?_of_close h), Nat.le_of_lt hlt⟩
      · rw [← hlength]
        refine ih _ _ (fun other start hword => ?_) h
        rw [Mode.opening?_ofKeyword, Option.some.injEq, Prod.mk.injEq] at hword
        exact hword.2 ▸ Nat.lt_succ_self offset
    · rcases h with h | h
      · obtain rfl : e = d := Option.some.inj (hsome.symm.trans h)
        rw [hstop]
        exact ⟨Nat.lt_succ_of_lt (hstart hopen hmode), hlt⟩
      · rw [← hlength]
        refine ih _ _ (fun word start hword => ?_) h
        rw [htop] at hword
        cases hword

/-- The pass reports directives one behind the other, without overlap. -/
theorem disjoint_runFrom (pass : Pass) (place : Cursor) :
    (pass.runFrom place).Pairwise fun d e => d.span.stop ≤ e.span.start := by
  obtain ⟨last?, offset, rest⟩ := place
  induction rest generalizing pass last? offset with
  | nil =>
    rw [runFrom_of_rest_nil pass rfl]
    cases pass.finish offset <;> simp
  | cons c rest ih =>
    rw [runFrom_cons]
    refine List.pairwise_append.2 ⟨?_, ih _ _ _, fun d hd later hlater => ?_⟩
    · cases (pass.step ⟨last?, offset, c :: rest⟩).1 <;> simp
    rw [Option.mem_toList] at hd
    rcases step_opening? pass ⟨last?, offset, c :: rest⟩ with
      ⟨hnone, _⟩ | ⟨word, _, _, hstep⟩ | ⟨e, hsome, _, hstop, htop⟩
    · rw [hnone] at hd
      cases hd
    · rw [hstep] at hd hlater
      rw [Mode.stop_of_close hd]
      rcases opening_of_mem_runFrom hlater with h | hle
      · rw [Mode.opening?_ofKeyword, Option.some.injEq] at h
        exact Nat.le_of_eq ((congrArg Prod.snd h).trans later.opening_snd)
      · exact Nat.le_of_succ_le hle
    · obtain rfl : e = d := Option.some.inj (hsome.symm.trans hd)
      rw [hstop]
      rcases opening_of_mem_runFrom hlater with h | hle
      · rw [htop] at h
        cases h
      · exact hle

private theorem close_of_opening?_pragma {mode : Mode} {start : Nat}
    (hopen : mode.opening? = some (.pragmaWord, start)) (stop : Nat) :
    ∃ d, mode.close stop = some d ∧ d.opening = (.pragmaWord, start) := by
  cases mode <;> cases hopen <;> exact ⟨_, rfl, rfl⟩

/-- An open pragma is reported in the end. -/
theorem exists_pragma_of_opening? {pass : Pass} {start : Nat}
    (hopen : pass.mode.opening? = some (.pragmaWord, start)) (place : Cursor) :
    ∃ d ∈ pass.runFrom place, d.opening = (.pragmaWord, start) := by
  obtain ⟨last?, offset, rest⟩ := place
  induction rest generalizing pass last? offset with
  | nil =>
    obtain ⟨d, hclose, hd⟩ := close_of_opening?_pragma hopen offset
    have hfinish : pass.finish offset = some d := by
      obtain ⟨mode, lexer, due⟩ := pass
      cases mode <;> cases hopen <;> cases lexer <;> exact hclose
    exact ⟨d, by rw [runFrom_of_rest_nil pass rfl, hfinish]; exact List.mem_singleton.2 rfl, hd⟩
  | cons c rest ih =>
    rw [runFrom_cons]
    rcases step_opening? pass ⟨last?, offset, c :: rest⟩ with
      ⟨_, hmode⟩ | ⟨word, _, _, hstep⟩ | ⟨e, hsome, hmode, _⟩
    · obtain ⟨d, hmem, hd⟩ := ih (hmode.trans hopen) (some c) (offset + 1)
      exact ⟨d, List.mem_append_right _ hmem, hd⟩
    · obtain ⟨d, hclose, hd⟩ := close_of_opening?_pragma hopen offset
      refine ⟨d, List.mem_append_left _ ?_, hd⟩
      rw [hstep, hclose]
      exact List.mem_singleton.2 rfl
    · refine ⟨e, List.mem_append_left _ ?_, ?_⟩
      · rw [hsome]
        exact List.mem_singleton.2 rfl
      · exact Option.some.inj (hmode.symm.trans hopen)

end Pass

end DirectiveIndex
