import Mathlib
import DirectiveIndex.Text.Quoted

namespace DirectiveIndex.Text

/-- The value of a hexadecimal digit. -/
def hexDigit? (c : Char) : Option Nat :=
  let code := c.toNat
  if 0x30 ≤ code ∧ code ≤ 0x39 then some (code - 0x30)
  else if 0x41 ≤ code ∧ code ≤ 0x46 then some (code - 0x37)
  else if 0x61 ≤ code ∧ code ≤ 0x66 then some (code - 0x57)
  else none

/-- The number that one more hexadecimal digit makes of a number. -/
def addHexDigit? (n : Nat) (c : Char) : Option Nat :=
  (hexDigit? c).map fun digit => 16 * n + digit

/-- Reads a number in hexadecimal digits. -/
def ofHex? (digits : Text) : Option Nat :=
  digits.foldlM addHexDigit? 0

/-- The lower-case digits are read back. -/
theorem hexDigit?_digitChar : ∀ digit < 16, hexDigit? digit.digitChar = some digit := by
  decide

/-- The upper-case digits are read back. -/
theorem hexDigit?_toUpper_digitChar : ∀ digit < 16, hexDigit? digit.digitChar.toUpper = some digit := by
  decide

/-- Leading zeros add nothing. -/
theorem foldlM_addHexDigit?_zeros {zero : Char} (hzero : hexDigit? zero = some 0) (count : Nat) :
    (List.replicate count zero).foldlM addHexDigit? 0 = some 0 := by
  induction count with
  | zero => rfl
  | succ count ih =>
    rw [List.replicate_succ, List.foldlM_cons, addHexDigit?, hzero]
    exact ih

/-- A hexadecimal digit is ASCII. -/
theorem lt_of_hexDigit? {c : Char} {digit : Nat} (h : hexDigit? c = some digit) : c.toNat < 0x80 := by
  unfold hexDigit? at h
  grind

/-- What is read as hexadecimal digits is ASCII. -/
theorem lt_of_foldlM_addHexDigit? {digits : Text} {start n : Nat} (h : digits.foldlM addHexDigit? start = some n) :
    ∀ c ∈ digits, c.toNat < 0x80 := by
  induction digits generalizing start with
  | nil => exact nofun
  | cons c digits ih =>
    obtain ⟨next, hnext, hrest⟩ := Option.bind_eq_some_iff.1 h
    obtain ⟨digit, hdigit, -⟩ := Option.map_eq_some_iff.1 hnext
    exact List.forall_mem_cons.2 ⟨lt_of_hexDigit? hdigit, ih hrest⟩

/-- Hexadecimal digits are ASCII characters. -/
theorem lt_of_ofHex? {digits : Text} {n : Nat} (h : ofHex? digits = some n) : ∀ c ∈ digits, c.toNat < 0x80 :=
  lt_of_foldlM_addHexDigit? h

variable {style : Char → Char}

/-- Digits are read back in every style of writing that keeps their values. -/
theorem foldlM_addHexDigit?_toDigits (hstyle : ∀ digit < 16, hexDigit? (style digit.digitChar) = some digit) (n : Nat) :
    ((Nat.toDigits 16 n).map style).foldlM addHexDigit? 0 = some n := by
  induction n using Nat.strongRecOn with
  | ind n ih =>
    rw [Nat.toDigits_eq_if (by decide)]
    split
    · rename_i hlt
      simp [addHexDigit?, hstyle n hlt]
    · rename_i hge
      have hdigit := hstyle (n % 16) (Nat.mod_lt n (by decide))
      rw [List.map_append, List.foldlM_append, ih (n / 16) (by omega)]
      simp only [List.map_cons, List.map_nil, List.foldlM_cons, List.foldlM_nil, addHexDigit?, hdigit]
      exact congrArg some (Nat.div_add_mod n 16)

/-- A number is read back from its digits in any style that keeps what they stand for. -/
theorem ofHex?_map_hex (hstyle : ∀ digit < 16, hexDigit? (style digit.digitChar) = some digit) (width n : Nat) :
    ofHex? ((hex width n).map style) = some n := by
  have hzero : hexDigit? (style '0') = some 0 := hstyle 0 (by decide)
  rw [ofHex?, hex, List.map_append, List.map_replicate, List.foldlM_append, foldlM_addHexDigit?_zeros hzero]
  exact foldlM_addHexDigit?_toDigits hstyle n

/-- A number is read back from its lower-case digits. -/
theorem ofHex?_hex (width n : Nat) : ofHex? (hex width n) = some n := by
  rw [← List.map_id (hex width n)]
  exact ofHex?_map_hex hexDigit?_digitChar width n

/-- A number is read back from its upper-case digits. -/
theorem ofHex?_hexUpper (width n : Nat) : ofHex? (hexUpper width n) = some n :=
  ofHex?_map_hex hexDigit?_toUpper_digitChar width n

/-- A number that fits is written in exactly the given width. -/
theorem length_hex {width n : Nat} (hwidth : 0 < width) (h : n < 16 ^ width) : (hex width n).length = width := by
  have hle := (Nat.length_toDigits_le_iff (by decide) hwidth).2 h
  rw [hex, List.length_append, List.length_replicate]
  omega

/-- A number that fits into a width is written in it. -/
theorem length_hexUpper {width n : Nat} (hwidth : 0 < width) (h : n < 16 ^ width) :
    (hexUpper width n).length = width := by
  rw [hexUpper, List.length_map, length_hex hwidth h]

end DirectiveIndex.Text
