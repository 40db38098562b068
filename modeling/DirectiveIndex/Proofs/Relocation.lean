import DirectiveIndex.Proofs.Openings

namespace DirectiveIndex

/-- The directive with its offsets moved. -/
def Directive.relocate (move : Nat → Nat) : Directive → Directive
  | .imported path span => .imported path ⟨move span.start, move span.stop⟩
  | .pragma name value span => .pragma name value ⟨move span.start, move span.stop⟩

/-- The mode with its offsets moved. -/
def Mode.relocate (move : Nat → Nat) : Mode → Mode
  | .top => .top
  | .importing start => .importing (move start)
  | .naming start => .naming (move start)
  | .valuing start name captured => .valuing (move start) name captured

namespace Mode

variable (mode : Mode) (move : Nat → Nat)

/-- Closing a directive commutes with moving the offsets, its end included. -/
theorem close_relocate (stop : Nat) :
    (mode.relocate move).close (move stop) = (mode.close stop).map (·.relocate move) := by
  cases mode <;> rfl

/-- A string completes a moved import where it completes the import. -/
theorem complete_relocate (content : Text) (stop : Nat) :
    (mode.relocate move).complete content (move stop) = (mode.complete content stop).map (·.relocate move) := by
  cases mode <;> rfl

/-- A keyword that stands elsewhere begins a directive there. -/
theorem ofKeyword_relocate (word : Keyword) (start : Nat) :
    ofKeyword word (move start) = (ofKeyword word start).relocate move := by
  cases word <;> rfl

/-- What is captured carries no offset. -/
theorem capture_relocate (c : Char) : (mode.relocate move).capture c = (mode.capture c).relocate move := by
  cases mode <;> rfl

/-- A semicolon leaves the same mode wherever it stands. -/
theorem terminate_relocate : (mode.relocate move).terminate = mode.terminate.relocate move := by
  cases mode <;> rfl

/-- The end of a string leaves the same mode wherever it stands. -/
theorem endString_relocate (c : Char) : (mode.relocate move).endString c = (mode.endString c).relocate move := by
  cases mode <;> rfl

/-- Whether a name is awaited does not depend on the offsets. -/
theorem isNaming_relocate : (mode.relocate move).isNaming = mode.isNaming := by
  cases mode <;> rfl

/-- A move that fixes the start of what is open leaves the mode as it is. -/
theorem relocate_eq_self {mode : Mode} {move : Nat → Nat}
    (h : ∀ word start, mode.opening? = some (word, start) → move start = start) : mode.relocate move = mode := by
  cases mode with
  | top => rfl
  | importing start => rw [relocate, h .importWord start rfl]
  | naming start => rw [relocate, h .pragmaWord start rfl]
  | valuing start name captured => rw [relocate, h .pragmaWord start rfl]

end Mode

/-- What begins at a place depends on the character just passed only in so far as a word may go on. -/
theorem Cursor.sign?_congr {last? last'? : Option Char} (offset offset' : Nat) {rest : Text}
    (hlast : Pattern.startsIdentifier rest = true → last'?.any Text.isIdentifier = last?.any Text.isIdentifier) :
    sign? ⟨last'?, offset', rest⟩ = sign? ⟨last?, offset, rest⟩ := by
  unfold sign?
  congr 1
  funext sign
  cases sign with
  | keyword word =>
    have hword : Cursor.word ⟨last'?, offset', rest⟩ = Cursor.word ⟨last?, offset, rest⟩ := rfl
    rw [Sign.beginsAt_keyword, Sign.beginsAt_keyword, hword]
    cases hstarts : Pattern.startsIdentifier rest with
    | true => rw [hlast hstarts]
    | false =>
      have hnone : Cursor.word ⟨last?, offset, rest⟩ = [] := Pattern.takeWhile_of_startsIdentifier hstarts
      rw [hnone]
      cases word <;> rfl
  | _ => rfl

/-- Behind the first character nothing depends on what stands before the text, so that the condition
on the character just passed is about the first place only. -/
theorem Cursor.sign?_skip_congr {last? last'? : Option Char} (offset offset' : Nat) {rest : Text}
    (hlast : Pattern.startsIdentifier rest = true → last'?.any Text.isIdentifier = last?.any Text.isIdentifier)
    (n : Nat) : sign? (skip n ⟨last'?, offset', rest⟩) = sign? (skip n ⟨last?, offset, rest⟩) := by
  induction n generalizing last? last'? offset offset' rest with
  | zero => exact sign?_congr offset offset' hlast
  | succ n ih =>
    cases rest with
    | nil => rfl
    | cons c rest => exact ih (offset + 1) (offset' + 1) fun _ => rfl

namespace Pass

/-- The pass with the offsets of what is open moved. -/
def relocate (move : Nat → Nat) (pass : Pass) : Pass :=
  { pass with mode := pass.mode.relocate move }

variable {move : Nat → Nat} {last? last'? : Option Char} {offset offset' : Nat} {rest : Text}

private theorem meet_relocate (hhere : move offset = offset') (hnext : move (offset + 1) = offset' + 1) (mode : Mode)
    (c : Char) (sign? : Option Sign) :
    meet (mode.relocate move) ⟨last'?, offset', rest⟩ c sign? =
      ((meet mode ⟨last?, offset, rest⟩ c sign?).1.map (·.relocate move),
        (meet mode ⟨last?, offset, rest⟩ c sign?).2.relocate move) := by
  have hword : Cursor.word ⟨last'?, offset', rest⟩ = Cursor.word ⟨last?, offset, rest⟩ := rfl
  subst hhere
  cases sign? with
  | none => simp only [meet, relocate, Mode.capture_relocate, Option.map_none]
  | some sign =>
    cases sign with
    | keyword word => simp only [meet, relocate, Mode.close_relocate, Mode.ofKeyword_relocate]
    | comment kind => rfl
    | quote mark => simp only [meet, relocate, Mode.capture_relocate, Mode.isNaming_relocate, Option.map_none]
    | semicolon => simp only [meet, relocate, ← hnext, Mode.close_relocate, Mode.terminate_relocate]
    | identifier => cases mode <;> rfl

/-- What the next character does to the pass does not depend on where it stands. -/
theorem step_relocate (hhere : move offset = offset') (hnext : move (offset + 1) = offset' + 1)
    (hlast : Pattern.startsIdentifier rest = true → last'?.any Text.isIdentifier = last?.any Text.isIdentifier)
    (pass : Pass) :
    (pass.relocate move).step ⟨last'?, offset', rest⟩ =
      ((pass.step ⟨last?, offset, rest⟩).1.map (·.relocate move),
        (pass.step ⟨last?, offset, rest⟩).2.relocate move) := by
  obtain ⟨mode, lexer, due⟩ := pass
  cases rest with
  | nil => rfl
  | cons c rest =>
    cases due with
    | succ due => rfl
    | zero =>
      have hsettle : lexer.settle ⟨last'?, offset', c :: rest⟩ = lexer.settle ⟨last?, offset, c :: rest⟩ := rfl
      have hsign := Cursor.sign?_congr offset offset' hlast
      simp only [relocate, step, hsettle, hsign]
      split
      · exact meet_relocate hhere hnext mode c _
      · split
        · simp only [← hnext, Mode.complete_relocate, Mode.endString_relocate]
        · simp only [Mode.capture_relocate, Option.map_none]
      · have hlexer : (lexer.settle ⟨last?, offset, c :: rest⟩).step ⟨last'?, offset', c :: rest⟩ =
            (lexer.settle ⟨last?, offset, c :: rest⟩).step ⟨last?, offset, c :: rest⟩ := by
          simp only [Lexer.step, hsign]
          rfl
        simp only [hlexer, Option.map_none]

/-- What is due at the end of the source moves with its offsets. -/
theorem finish_relocate (move : Nat → Nat) (pass : Pass) (stop : Nat) :
    (pass.relocate move).finish (move stop) = (pass.finish stop).map (·.relocate move) := by
  obtain ⟨mode, lexer, due⟩ := pass
  cases mode <;> cases lexer <;> rfl

/-- What the pass reports of a text does not depend on where the text stands. -/
theorem runFrom_relocate (hmove : ∀ k ≤ rest.length, move (offset + k) = offset' + k)
    (hlast : Pattern.startsIdentifier rest = true → last'?.any Text.isIdentifier = last?.any Text.isIdentifier)
    (pass : Pass) :
    (pass.relocate move).runFrom ⟨last'?, offset', rest⟩ =
      (pass.runFrom ⟨last?, offset, rest⟩).map (·.relocate move) := by
  have hhere : move offset = offset' := hmove 0 (Nat.zero_le _)
  induction rest generalizing pass last? last'? offset offset' with
  | nil =>
    rw [runFrom_of_rest_nil _ rfl, runFrom_of_rest_nil _ rfl, ← hhere, finish_relocate]
    cases pass.finish offset <;> rfl
  | cons c rest ih =>
    have hnext : move (offset + 1) = offset' + 1 := hmove 1 (Nat.succ_le_succ (Nat.zero_le _))
    have hlater : ∀ k ≤ rest.length, move (offset + 1 + k) = offset' + 1 + k := by
      intro k hk
      rw [Nat.add_right_comm, Nat.add_right_comm offset']
      exact hmove (k + 1) (Nat.succ_le_succ hk)
    have htail (pass : Pass) : (pass.relocate move).runFrom ⟨some c, offset' + 1, rest⟩ =
        (pass.runFrom ⟨some c, offset + 1, rest⟩).map (·.relocate move) :=
      ih hlater (fun _ => rfl) pass hnext
    rw [runFrom_cons, runFrom_cons, step_relocate hhere hnext hlast, htail, List.map_append]
    cases (pass.step ⟨last?, offset, c :: rest⟩).1 <;> rfl

end Pass

end DirectiveIndex
