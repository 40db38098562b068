import DirectiveIndex.Text.Identifier

namespace DirectiveIndex

/-- What an anchor looks for at a place: in the text ahead and in the one character just passed, never further back. -/
inductive Pattern where
  /-- The given text. -/
  | literal (text : Text)
  /-- The given text as a whole word, with no identifier character just before or after it. -/
  | keyword (text : Text)
  /-- The place just before a line ending, a line feed with or without a carriage return before
  it; nothing is consumed. -/
  | lineEnd
  /-- As many identifier characters as there are, at least one. -/
  | identifier
deriving DecidableEq, Repr

namespace Pattern

/-- Whether a text starts with an identifier character. -/
def startsIdentifier (text : Text) : Bool :=
  text.head?.any Text.isIdentifier

/-- How many characters the pattern covers at a place, given the character just passed and the text
ahead, if it occurs there. -/
def width? (last? : Option Char) (rest : Text) : Pattern → Option Nat
  | literal text => if text.isPrefixOf rest then some text.length else none
  | keyword text =>
    if text.isPrefixOf rest && !last?.any Text.isIdentifier && !startsIdentifier (rest.drop text.length) then
      some text.length
    else
      none
  | lineEnd =>
    if ['\n'].isPrefixOf rest || ['\r', '\n'].isPrefixOf rest then some 0 else none
  | identifier =>
    if startsIdentifier rest then some (rest.takeWhile Text.isIdentifier).length else none

/-- Whether the pattern covers at least one character wherever it occurs. -/
def consumes : Pattern → Bool
  | literal text => !text.isEmpty
  | keyword text => !text.isEmpty
  | lineEnd => false
  | identifier => true

theorem width?_le {pattern : Pattern} {last? : Option Char} {rest : Text} {n : Nat}
    (h : pattern.width? last? rest = some n) : n ≤ rest.length := by
  cases pattern with
  | literal text =>
    simp only [width?, Option.ite_none_right_eq_some, Option.some.injEq] at h
    exact h.2 ▸ (List.isPrefixOf_iff_prefix.1 h.1).length_le
  | keyword text =>
    simp only [width?, Option.ite_none_right_eq_some, Option.some.injEq, Bool.and_eq_true] at h
    exact h.2 ▸ (List.isPrefixOf_iff_prefix.1 h.1.1.1).length_le
  | lineEnd =>
    simp only [width?, Option.ite_none_right_eq_some, Option.some.injEq] at h
    omega
  | identifier =>
    simp only [width?, Option.ite_none_right_eq_some, Option.some.injEq] at h
    exact h.2 ▸ (List.takeWhile_prefix _).length_le

theorem width?_pos {pattern : Pattern} {last? : Option Char} {rest : Text} {n : Nat}
    (hconsumes : pattern.consumes = true) (h : pattern.width? last? rest = some n) : 0 < n := by
  cases pattern with
  | literal text =>
    simp only [width?, Option.ite_none_right_eq_some, Option.some.injEq] at h
    cases text <;> simp_all [consumes]
    omega
  | keyword text =>
    simp only [width?, Option.ite_none_right_eq_some, Option.some.injEq] at h
    cases text <;> simp_all [consumes]
    omega
  | lineEnd => simp [consumes] at hconsumes
  | identifier =>
    simp only [width?, Option.ite_none_right_eq_some, Option.some.injEq] at h
    obtain ⟨hstart, rfl⟩ := h
    cases rest with
    | nil => simp [startsIdentifier] at hstart
    | cons c rest =>
      have hc : Text.isIdentifier c = true := by simpa [startsIdentifier] using hstart
      simp [hc]

end Pattern

/-- A labelled pattern. -/
structure Anchor (κ : Type) where
  label : κ
  pattern : Pattern
deriving DecidableEq, Repr

/-- The same pattern under another label. -/
def Anchor.relabel {κ μ : Type} (f : κ → μ) (anchor : Anchor κ) : Anchor μ :=
  ⟨f anchor.label, anchor.pattern⟩

/-- An occurrence of an anchor: which one, and from where to where. -/
structure Found (κ : Type) where
  label : κ
  start : Nat
  stop : Nat
deriving DecidableEq, Repr

end DirectiveIndex
