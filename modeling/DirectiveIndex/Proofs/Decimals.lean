import DirectiveIndex.Text.Integer
import DirectiveIndex.Proofs.Paths

namespace DirectiveIndex.Text

variable {c : Char} {text : Text}

/-- The numbers of the decimal digits. -/
theorem toNat_of_isDigit (h : c.isDigit = true) : 0x30 ≤ c.toNat ∧ c.toNat ≤ 0x39 := by
  simpa [Char.isDigit, UInt32.le_iff_toNat_le] using h

/-- The digits that numbers are written in come first among the digits that are read. -/
theorem digitValue?_of_isDigit (h : c.isDigit = true) : digitValue? c = some (c.toNat - '0'.toNat) := by
  have hrange := toNat_of_isDigit h
  have hfound : digitZeros.find? (fun first => first ≤ c.toNat && c.toNat ≤ first + 9) = some 0x30 :=
    List.find?_cons_of_pos (by simpa using hrange)
  rw [digitValue?, hfound]
  rfl

/-- The values of decimal digits. -/
theorem mapM_digitValue? (h : ∀ c ∈ text, c.isDigit = true) :
    text.mapM digitValue? = some (text.map fun c => c.toNat - '0'.toNat) := by
  induction text with
  | nil => rfl
  | cons c text ih =>
    obtain ⟨hc, htext⟩ := List.forall_mem_cons.1 h
    rw [List.mapM_cons, digitValue?_of_isDigit hc, ih htext]
    rfl

/-- Digits stand for the number that they are written for. -/
theorem ofDigits_map_toNat (text : Text) :
    ofDigits (text.map fun c => c.toNat - '0'.toNat) = Nat.ofDigitChars 10 text 0 := by
  rw [ofDigits, List.foldl_map, Nat.ofDigitChars_eq_foldl]
  simp only [Nat.mul_comm]

/-- Decimal digits that are not too many are read as the number they write. -/
theorem readNat?_of_isDigit (hdigits : ∀ c ∈ text, c.isDigit = true) (hne : text ≠ [])
    (hlength : text.length ≤ maxDigits) : readNat? text = some (Nat.ofDigitChars 10 text 0) := by
  have hsplit : split '_' text = [text] := by
    refine split_of_not_mem fun hmem => ?_
    exact absurd (hdigits '_' hmem) (by decide)
  have hempty : text.isEmpty = false := List.isEmpty_eq_false_iff.2 hne
  rw [← ofDigits_map_toNat]
  simp [readNat?, hsplit, mapM_digitValue? hdigits, hempty, hlength]

/-- A natural number is written in decimal digits. -/
theorem isDigit_of_mem_ofNat {n : Nat} (h : c ∈ ofNat n) : c.isDigit = true :=
  Nat.isDigit_of_mem_toDigits (by decide) (by decide) h

/-- A number is read back from its digits. -/
theorem readNat?_ofNat {n : Nat} (h : (ofNat n).length ≤ maxDigits) : readNat? (ofNat n) = some n := by
  have hdigits : ∀ c ∈ ofNat n, c.isDigit = true := fun c hc => isDigit_of_mem_ofNat hc
  rw [readNat?_of_isDigit hdigits Nat.toDigits_ne_nil h]
  exact congrArg some Nat.ofDigitChars_ten_toDigits

/-- Neither a sign nor a digit is blank. -/
theorem isIntegerBlank_eq_false (h : c = '-' ∨ c.isDigit = true) : isIntegerBlank c = false := by
  have hvisible : ∀ code < 0x7F, 0x20 < code → blanks.any (·.contains code) = false := by decide
  have hcode : 0x20 < c.toNat ∧ c.toNat < 0x7F := by
    rcases h with rfl | hdigit
    · decide
    · have hrange := toNat_of_isDigit hdigit
      omega
  have hblank : isBlank c = false := hvisible c.toNat hcode.2 hcode.1
  rw [isIntegerBlank, hblank, Bool.false_and]

/-- An integer has no blanks in front. -/
theorem dropWhile_isIntegerBlank (h : ∀ c ∈ text, c = '-' ∨ c.isDigit = true) :
    text.dropWhile isIntegerBlank = text := by
  cases text with
  | nil => rfl
  | cons c text =>
    have hc := isIntegerBlank_eq_false (h c List.mem_cons_self)
    exact List.dropWhile_cons_of_neg (Bool.eq_false_iff.1 hc)

/-- An integer is written in decimal digits and a sign. -/
theorem isDigit_of_mem_ofInt {n : Int} (h : c ∈ ofInt n) : c = '-' ∨ c.isDigit = true := by
  cases n with
  | ofNat n => exact .inr (isDigit_of_mem_ofNat h)
  | negSucc n => exact (List.mem_cons.1 h).imp_right isDigit_of_mem_ofNat

/-- An integer that is not too long is read back from its sign and its digits. -/
theorem readInt?_ofInt {n : Int} (h : (ofNat n.natAbs).length ≤ maxDigits) : readInt? (ofInt n) = some n := by
  have htrimmed : (((ofInt n).dropWhile isIntegerBlank).reverse.dropWhile isIntegerBlank).reverse = ofInt n := by
    have hforward : ∀ c ∈ ofInt n, c = '-' ∨ c.isDigit = true := fun c hc => isDigit_of_mem_ofInt hc
    have hbackward : ∀ c ∈ (ofInt n).reverse, c = '-' ∨ c.isDigit = true :=
      fun c hc => isDigit_of_mem_ofInt (List.mem_reverse.1 hc)
    rw [dropWhile_isIntegerBlank hforward, dropWhile_isIntegerBlank hbackward, List.reverse_reverse]
  rw [readInt?]
  simp only [htrimmed]
  cases n with
  | ofNat n =>
    have hread : readNat? (ofNat n) = some n := readNat?_ofNat h
    have hsign {sign : Char} {rest : Text} (heq : ofNat n = sign :: rest) : sign.isDigit = true :=
      isDigit_of_mem_ofNat (heq ▸ List.mem_cons_self)
    rw [ofInt]
    split
    · rename_i heq
      exact absurd (hsign heq) (by decide)
    · rename_i heq
      exact absurd (hsign heq) (by decide)
    · rw [hread]
      rfl
  | negSucc n =>
    have hread : readNat? (ofNat (n + 1)) = some (n + 1) := readNat?_ofNat h
    simp only [ofInt, hread]
    rfl

end DirectiveIndex.Text
