import DirectiveIndex.Text.Regex

namespace DirectiveIndex

namespace Regex

variable {holds : Char → Bool}

/-- Whether all characters that an expression can match are of some class. -/
def Within (holds : Char → Bool) : Regex → Prop
  | never => True
  | done => True
  | one accepts => ∀ c, accepts c = true → holds c = true
  | seq first second => first.Within holds ∧ second.Within holds
  | either left right => left.Within holds ∧ right.Within holds
  | many inner => inner.Within holds

/-- What one after the other matches stays within the characters of both. -/
theorem within_andThen {first second : Regex} (hfirst : first.Within holds) (hsecond : second.Within holds) :
    (first.andThen second).Within holds := by
  cases first <;> trivial

/-- What either matches stays within the characters of both. -/
theorem within_orElse {left right : Regex} (hleft : left.Within holds) (hright : right.Within holds) :
    (left.orElse right).Within holds := by
  cases left <;> cases right <;> trivial

/-- What is left of an expression stays within its characters. -/
theorem within_derive {regex : Regex} (h : regex.Within holds) (c : Char) : (regex.derive c).Within holds := by
  induction regex with
  | never => trivial
  | done => trivial
  | one accepts =>
    rw [derive]
    split <;> trivial
  | seq first second ihfirst ihsecond =>
    have hthrough := within_andThen (ihfirst h.1) h.2
    rw [derive]
    split
    · exact within_orElse hthrough (ihsecond h.2)
    · exact hthrough
  | either left right ihleft ihright => exact within_orElse (ihleft h.1) (ihright h.2)
  | many inner ih => exact within_andThen (ih h) h

/-- A character after which something may follow is of the class. -/
theorem holds_of_derive_ne_never {regex : Regex} (h : regex.Within holds) {c : Char} (hc : regex.derive c ≠ never) :
    holds c = true := by
  refine Decidable.byContradiction fun hnot => hc ?_
  clear hc
  induction regex with
  | never => rfl
  | done => rfl
  | one accepts =>
    rw [derive, if_neg fun haccepts => hnot (h c haccepts)]
  | seq first second ihfirst ihsecond =>
    rw [derive, ihfirst h.1, ihsecond h.2]
    split <;> rfl
  | either left right ihleft ihright =>
    rw [derive, ihleft h.1, ihright h.2]
    rfl
  | many inner ih =>
    rw [derive, ih h]
    rfl

/-- A text that is matched has characters of the class only. -/
theorem holds_of_accepts {regex : Regex} (h : regex.Within holds) {text : Text} (haccepts : regex.accepts text = true) :
    ∀ c ∈ text, holds c = true := by
  induction text generalizing regex with
  | nil => exact nofun
  | cons c text ih =>
    have hne : regex.derive c ≠ never := by
      intro hnever
      rw [accepts, hnever] at haccepts
      cases haccepts
    have hrest : (regex.derive c).accepts text = true := by
      rw [accepts] at haccepts
      split at haccepts
      · cases haccepts
      · exact haccepts
    intro other hother
    rcases List.mem_cons.1 hother with rfl | hmem
    · exact holds_of_derive_ne_never h hne
    · exact ih (within_derive h c) hrest other hmem

/-- One of some characters is within them. -/
theorem within_oneOf {characters : Text} (h : characters.all holds = true) : (oneOf characters).Within holds :=
  fun c hc => List.all_eq_true.1 h c (List.contains_iff_mem.1 hc)

/-- A text is within its characters. -/
theorem within_exactly {text : Text} (h : text.all holds = true) : (exactly text).Within holds := by
  induction text with
  | nil => trivial
  | cons c text ih =>
    rw [List.all_cons, Bool.and_eq_true] at h
    refine ⟨fun other hother => ?_, ih h.2⟩
    rw [beq_iff_eq.1 hother]
    exact h.1

end Regex

end DirectiveIndex
