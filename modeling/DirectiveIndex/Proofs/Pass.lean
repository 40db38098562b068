import DirectiveIndex.Proofs.Lexer
import DirectiveIndex.Record

namespace DirectiveIndex

/-- The directive that is open. -/
inductive Mode where
  | top
  | importing (start : Nat)
  | naming (start : Nat)
  | valuing (start : Nat) (name captured : Text)
deriving DecidableEq, Repr

namespace Mode

/-- The mode behind a keyword that begins at `start`. -/
def ofKeyword (word : Keyword) (start : Nat) : Mode :=
  match word with
  | .importWord => .importing start
  | .pragmaWord => .naming start

/-- The open pragma, ended at `stop`; an open import has no path and is dropped. -/
def close (mode : Mode) (stop : Nat) : Option Directive :=
  match mode with
  | .top | .importing _ => none
  | .naming start => some (.pragma [] [] ⟨start, stop⟩)
  | .valuing start name captured => some (.pragma name captured ⟨start, stop⟩)

/-- The open import, completed by a string literal that ends at `stop`. -/
def complete (mode : Mode) (content : Text) (stop : Nat) : Option Directive :=
  match mode with
  | .importing start => some (.imported content ⟨start, stop⟩)
  | _ => none

/-- The mode behind a character that is no part of a comment: it counts in a pragma's value only. -/
def capture (mode : Mode) (c : Char) : Mode :=
  match mode with
  | .valuing start name captured => .valuing start name (captured ++ [c])
  | mode => mode

/-- The mode behind a semicolon, which ends a pragma and nothing else. -/
def terminate : Mode → Mode
  | .naming _ | .valuing _ _ _ => .top
  | mode => mode

/-- The mode behind the closing quote mark of a string literal. -/
def endString (mode : Mode) (c : Char) : Mode :=
  match mode with
  | .importing _ => .top
  | mode => mode.capture c

/-- Whether the name of a pragma is looked for. -/
def isNaming : Mode → Bool
  | .naming _ => true
  | _ => false

/-- Whether the path of an import is looked for. -/
def isImporting : Mode → Bool
  | .importing _ => true
  | _ => false

end Mode

/-- The state of the pass before a character. The next `due` characters belong to a word that has
been read already. -/
structure Pass where
  mode : Mode
  lexer : Lexer
  due : Nat
deriving DecidableEq, Repr

namespace Pass

/-- The pass at the start of a source. -/
def initial : Pass :=
  ⟨.top, .code, 0⟩

/-- What the pass reports at a place outside comments and string literals, and its state behind the
next character `c`. Where a name is looked for, a quote mark opens nothing. -/
def meet (mode : Mode) (place : Cursor) (c : Char) : Option Sign → Option Directive × Pass
  | some (.keyword word) =>
    (mode.close place.offset, ⟨.ofKeyword word place.offset, .code, word.text.length - 1⟩)
  | some (.comment kind) => (none, ⟨mode, .opening kind, 0⟩)
  | some (.quote mark) => (none, ⟨mode.capture c, if mode.isNaming then .code else .string mark [], 0⟩)
  | some .semicolon => (mode.close (place.offset + 1), ⟨mode.terminate, .code, 0⟩)
  | some .identifier =>
    match mode with
    | .naming start => (none, ⟨.valuing start place.word [], .code, place.word.length - 1⟩)
    | mode => (none, ⟨mode.capture c, .code, 0⟩)
  | none => (none, ⟨mode.capture c, .code, 0⟩)

/-- What the pass reports at the next character, and its state behind it. -/
def step (pass : Pass) (place : Cursor) : Option Directive × Pass :=
  match place.rest, pass.due with
  | [], _ => (none, pass)
  | _ :: _, due + 1 => (none, { pass with due })
  | c :: _, 0 =>
    match pass.lexer.settle place with
    | .code => meet pass.mode place c place.sign?
    | .string mark content =>
      if c = mark.char then
        (pass.mode.complete content (place.offset + 1), ⟨pass.mode.endString c, .code, 0⟩)
      else
        (none, ⟨pass.mode.capture c, .string mark (content ++ [c]), 0⟩)
    | lexer => (none, ⟨pass.mode, lexer.step place, 0⟩)

/-- What the pass reports at the end of the source. -/
def finish (pass : Pass) (stop : Nat) : Option Directive :=
  match pass.lexer with
  | .string _ content => (pass.mode.complete content stop).or (pass.mode.close stop)
  | _ => pass.mode.close stop

/-- Everything that the pass reports from a place on. -/
def run (pass : Pass) (last? : Option Char) (offset : Nat) : Text → List Directive
  | [] => (pass.finish offset).toList
  | c :: rest =>
    let (found?, next) := pass.step ⟨last?, offset, c :: rest⟩
    found?.toList ++ next.run (some c) (offset + 1) rest

/-- Everything that the pass reports from a place on. -/
def runFrom (pass : Pass) (place : Cursor) : List Directive :=
  pass.run place.last? place.offset place.rest

/-- The pass reports what one step reports, and then goes on. -/
theorem runFrom_cons (pass : Pass) (last? : Option Char) (offset : Nat) (c : Char) (rest : Text) :
    pass.runFrom ⟨last?, offset, c :: rest⟩ =
      (pass.step ⟨last?, offset, c :: rest⟩).1.toList ++
        (pass.step ⟨last?, offset, c :: rest⟩).2.runFrom ⟨some c, offset + 1, rest⟩ :=
  rfl

/-- At the end of the source the pass reports what is due. -/
theorem runFrom_of_rest_nil (pass : Pass) {place : Cursor} (h : place.rest = []) :
    pass.runFrom place = (pass.finish place.offset).toList := by
  rw [runFrom, h, run]

/-- In code, the pass does what the mode does with what it meets. -/
theorem step_code (mode : Mode) (last? : Option Char) (offset : Nat) (c : Char) (rest : Text) :
    step ⟨mode, .code, 0⟩ ⟨last?, offset, c :: rest⟩ =
      meet mode ⟨last?, offset, c :: rest⟩ c (Cursor.sign? ⟨last?, offset, c :: rest⟩) :=
  rfl

/-- In a string, the pass waits for the mark that closes it. -/
theorem step_string (mode : Mode) (mark : Quote) (content : Text) (last? : Option Char) (offset : Nat) (c : Char)
    (rest : Text) :
    step ⟨mode, .string mark content, 0⟩ ⟨last?, offset, c :: rest⟩ =
      if c = mark.char then
        (mode.complete content (offset + 1), ⟨mode.endString c, .code, 0⟩)
      else
        (none, ⟨mode.capture c, .string mark (content ++ [c]), 0⟩) :=
  rfl

/-- All that the next character can do to the pass: it belongs to a word that has been read; it stands outside
    comments and string literals; it stands in a string literal; or it stands in a comment. -/
theorem step_cases (pass : Pass) (last? : Option Char) (offset : Nat) (c : Char) (rest : Text) :
    (0 < pass.due ∧ pass.step ⟨last?, offset, c :: rest⟩ = (none, { pass with due := pass.due - 1 })) ∨
    (pass.due = 0 ∧ pass.lexer.settle ⟨last?, offset, c :: rest⟩ = .code ∧
      pass.step ⟨last?, offset, c :: rest⟩ =
        meet pass.mode ⟨last?, offset, c :: rest⟩ c (Cursor.sign? ⟨last?, offset, c :: rest⟩)) ∨
    (∃ mark content, pass.due = 0 ∧ pass.lexer = .string mark content ∧
      pass.step ⟨last?, offset, c :: rest⟩ =
        if c = mark.char then
          (pass.mode.complete content (offset + 1), ⟨pass.mode.endString c, .code, 0⟩)
        else
          (none, ⟨pass.mode.capture c, .string mark (content ++ [c]), 0⟩)) ∨
    (pass.due = 0 ∧ pass.lexer.settle ⟨last?, offset, c :: rest⟩ ≠ .code ∧ pass.lexer.mark? = none ∧
      pass.step ⟨last?, offset, c :: rest⟩ =
        (none, ⟨pass.mode, pass.lexer.step ⟨last?, offset, c :: rest⟩, 0⟩)) := by
  obtain ⟨mode, lexer, due⟩ := pass
  cases due with
  | succ due => exact .inl ⟨Nat.succ_pos due, rfl⟩
  | zero =>
    refine .inr ?_
    by_cases hcode : lexer.settle ⟨last?, offset, c :: rest⟩ = .code
    · refine .inl ⟨rfl, hcode, ?_⟩
      simp only [step, hcode]
    · have hsettle := Lexer.settle_eq_self hcode
      rw [hsettle] at hcode
      refine .inr ?_
      cases lexer with
      | code => exact absurd rfl hcode
      | string mark content => exact .inl ⟨mark, content, rfl, rfl, rfl⟩
      | _ =>
        refine .inr ⟨rfl, by rwa [hsettle], rfl, ?_⟩
        simp only [step, hsettle]

end Pass

/-- The directives that one pass over a source reports. -/
def passOver (source : Text) : List Directive :=
  Pass.initial.run none 0 source

end DirectiveIndex
