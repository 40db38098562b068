import Mathlib
import DirectiveIndex.Proofs.SourceFiles

namespace DirectiveIndex.Utf8

variable {bytes others : List UInt8} {n position : Nat} {p : Partial}

/-- Whether bytes have one of the forms of a number: its bits, from the highest on, are put behind the marks 0, or 110,
1110 or 11110 in the first byte and 10 in each further one. -/
inductive HasForm : List UInt8 → Nat → Prop where
  | one {a : UInt8} {n : Nat} (hn : n < 0x80) (ha : a.toNat = n) : HasForm [a] n
  | two {a b : UInt8} {n : Nat} (hn : n < 0x800) (ha : a.toNat = 0xC0 + n / 0x40) (hb : b.toNat = 0x80 + n % 0x40) :
      HasForm [a, b] n
  | three {a b c : UInt8} {n : Nat} (hn : n < 0x10000) (ha : a.toNat = 0xE0 + n / 0x1000)
      (hb : b.toNat = 0x80 + n / 0x40 % 0x40) (hc : c.toNat = 0x80 + n % 0x40) : HasForm [a, b, c] n
  | four {a b c d : UInt8} {n : Nat} (hn : n < 0x200000) (ha : a.toNat = 0xF0 + n / 0x40000)
      (hb : b.toNat = 0x80 + n / 0x1000 % 0x40) (hc : c.toNat = 0x80 + n / 0x40 % 0x40)
      (hd : d.toNat = 0x80 + n % 0x40) : HasForm [a, b, c, d] n

/-- Whether bytes are one character: a form of a number that is no surrogate and not beyond U+10FFFF, and the shortest
one. -/
def IsCharacter (bytes : List UInt8) : Prop :=
  ∃ n, HasForm bytes n ∧ n.isValidChar ∧ ∀ others, HasForm others n → bytes.length ≤ others.length

/-- Whether bytes are characters one behind the other. -/
def WellFormed (bytes : List UInt8) : Prop :=
  ∃ pieces : List (List UInt8), (∀ piece ∈ pieces, IsCharacter piece) ∧ pieces.flatten = bytes

/-- How large the number can be that so many bytes are a form of. -/
theorem HasForm.bounds (h : HasForm bytes n) :
    bytes.length = 1 ∧ n < 0x80 ∨ bytes.length = 2 ∧ n < 0x800 ∨ bytes.length = 3 ∧ n < 0x10000 ∨
      bytes.length = 4 ∧ n < 0x200000 := by
  cases h with
  | one hn => exact .inl ⟨rfl, hn⟩
  | two hn => exact .inr (.inl ⟨rfl, hn⟩)
  | three hn => exact .inr (.inr (.inl ⟨rfl, hn⟩))
  | four hn => exact .inr (.inr (.inr ⟨rfl, hn⟩))

/-- A number has one form of each length. -/
theorem HasForm.unique (h : HasForm bytes n) (h' : HasForm others n) (hlength : bytes.length = others.length) :
    bytes = others := by
  have hbyte {a b : UInt8} {m : Nat} (ha : a.toNat = m) (hb : b.toNat = m) : a = b :=
    UInt8.toNat_inj.1 (ha.trans hb.symm)
  cases h with
  | one _ ha =>
    cases h' with
    | one _ ha' => rw [hbyte ha ha']
    | two | three | four => cases hlength
  | two _ ha hb =>
    cases h' with
    | two _ ha' hb' => rw [hbyte ha ha', hbyte hb hb']
    | one | three | four => cases hlength
  | three _ ha hb hc =>
    cases h' with
    | three _ ha' hb' hc' => rw [hbyte ha ha', hbyte hb hb', hbyte hc hc']
    | one | two | four => cases hlength
  | four _ ha hb hc hd =>
    cases h' with
    | four _ ha' hb' hc' hd' => rw [hbyte ha ha', hbyte hb hb', hbyte hc hc', hbyte hd hd']
    | one | two | three => cases hlength

/-- The bytes of a character are the shortest form of its number. -/
theorem hasForm_encodeChar (c : Char) :
    HasForm (String.utf8EncodeChar c) c.toNat ∧
      ∀ others, HasForm others c.toNat → (String.utf8EncodeChar c).length ≤ others.length := by
  have hvalid : c.toNat < 0xD800 ∨ 0xDFFF < c.toNat ∧ c.toNat < 0x110000 := c.valid
  have hval : c.val.toNat = c.toNat := rfl
  unfold String.utf8EncodeChar
  rw [hval]
  dsimp only
  split
  · refine ⟨.one (by omega) (toNat_byte (by omega)), fun others hothers => ?_⟩
    have hbounds := hothers.bounds
    simp only [List.length_cons, List.length_nil]
    omega
  · split
    · refine ⟨.two (by omega) ?_ ?_, fun others hothers => ?_⟩
      · rw [toNat_byte (by omega)]
        omega
      · rw [toNat_byte (by omega)]
        omega
      · have hbounds := hothers.bounds
        simp only [List.length_cons, List.length_nil]
        omega
    · split
      · refine ⟨.three (by omega) ?_ ?_ ?_, fun others hothers => ?_⟩
        · rw [toNat_byte (by omega)]
          omega
        · rw [toNat_byte (by omega)]
          omega
        · rw [toNat_byte (by omega)]
          omega
        · have hbounds := hothers.bounds
          simp only [List.length_cons, List.length_nil]
          omega
      · refine ⟨.four (by omega) ?_ ?_ ?_ ?_, fun others hothers => ?_⟩
        · rw [toNat_byte (by omega)]
          omega
        · rw [toNat_byte (by omega)]
          omega
        · rw [toNat_byte (by omega)]
          omega
        · rw [toNat_byte (by omega)]
          omega
        · have hbounds := hothers.bounds
          simp only [List.length_cons, List.length_nil]
          omega

/-- Bytes are one character if and only if they are those that a character is encoded in. -/
theorem isCharacter_iff : IsCharacter bytes ↔ ∃ c, String.utf8EncodeChar c = bytes := by
  constructor
  · rintro ⟨n, hform, hvalid, hshortest⟩
    have hn : (Char.ofNat n).toNat = n := by rw [Char.toNat_ofNat, if_pos hvalid]
    obtain ⟨hencoded, hleast⟩ := hasForm_encodeChar (Char.ofNat n)
    rw [hn] at hencoded hleast
    exact ⟨Char.ofNat n, hencoded.unique hform (Nat.le_antisymm (hleast bytes hform) (hshortest _ hencoded))⟩
  · rintro ⟨c, rfl⟩
    obtain ⟨hform, hleast⟩ := hasForm_encodeChar c
    exact ⟨c.toNat, hform, c.valid, hleast⟩

/-- Bytes are well-formed if and only if they are those that a text is encoded in. -/
theorem wellFormed_iff : WellFormed bytes ↔ ∃ text, encode text = bytes := by
  constructor
  · rintro ⟨pieces, hpieces, rfl⟩
    induction pieces with
    | nil => exact ⟨[], rfl⟩
    | cons piece pieces ih =>
      obtain ⟨hpiece, hrest⟩ := List.forall_mem_cons.1 hpieces
      obtain ⟨c, rfl⟩ := isCharacter_iff.1 hpiece
      obtain ⟨text, htext⟩ := ih hrest
      exact ⟨c :: text, by rw [encode_cons, htext, List.flatten_cons]⟩
  · rintro ⟨text, rfl⟩
    refine ⟨text.map String.utf8EncodeChar, fun piece hpiece => ?_, List.flatMap_def.symm⟩
    obtain ⟨c, -, hc⟩ := List.mem_map.1 hpiece
    exact isCharacter_iff.2 ⟨c, hc⟩

/-- A form that needs its length is a character. -/
theorem HasForm.isCharacter (h : HasForm bytes n) (hvalid : n.isValidChar)
    (hlength : bytes.length = 1 ∨ bytes.length = 2 ∧ 0x80 ≤ n ∨ bytes.length = 3 ∧ 0x800 ≤ n ∨
      bytes.length = 4 ∧ 0x10000 ≤ n) : IsCharacter bytes := by
  refine ⟨n, h, hvalid, fun others hothers => ?_⟩
  have hbounds := hothers.bounds
  omega

theorem isCharacter_two {a b : UInt8} (ha : 0xC2 ≤ a.toNat ∧ a.toNat ≤ 0xDF) (hb : 0x80 ≤ b.toNat ∧ b.toNat ≤ 0xBF) :
    IsCharacter [a, b] := by
  have hform : HasForm [a, b] ((a.toNat - 0xC0) * 0x40 + (b.toNat - 0x80)) :=
    .two (by omega) (by omega) (by omega)
  exact hform.isCharacter (by unfold Nat.isValidChar; omega) (.inr (.inl ⟨rfl, by omega⟩))

/-- Three bytes are a character; behind E0 some second bytes would give a form that is too long, behind ED a
surrogate. -/
theorem isCharacter_three {a b c : UInt8} (ha : 0xE0 ≤ a.toNat ∧ a.toNat ≤ 0xEF)
    (hb : 0x80 ≤ b.toNat ∧ b.toNat ≤ 0xBF) (hlong : a.toNat = 0xE0 → 0xA0 ≤ b.toNat)
    (hsurrogate : a.toNat = 0xED → b.toNat ≤ 0x9F) (hc : 0x80 ≤ c.toNat ∧ c.toNat ≤ 0xBF) : IsCharacter [a, b, c] := by
  have hform : HasForm [a, b, c] ((a.toNat - 0xE0) * 0x1000 + (b.toNat - 0x80) * 0x40 + (c.toNat - 0x80)) :=
    .three (by omega) (by omega) (by omega) (by omega)
  exact hform.isCharacter (by unfold Nat.isValidChar; omega) (.inr (.inr (.inl ⟨rfl, by omega⟩)))

/-- Four bytes are a character; behind F0 some second bytes would give a form that is too long, behind F4 a number
that is too large. -/
theorem isCharacter_four {a b c d : UInt8} (ha : 0xF0 ≤ a.toNat ∧ a.toNat ≤ 0xF4)
    (hb : 0x80 ≤ b.toNat ∧ b.toNat ≤ 0xBF) (hlong : a.toNat = 0xF0 → 0x90 ≤ b.toNat)
    (hlarge : a.toNat = 0xF4 → b.toNat ≤ 0x8F) (hc : 0x80 ≤ c.toNat ∧ c.toNat ≤ 0xBF)
    (hd : 0x80 ≤ d.toNat ∧ d.toNat ≤ 0xBF) : IsCharacter [a, b, c, d] := by
  have hform : HasForm [a, b, c, d]
      ((a.toNat - 0xF0) * 0x40000 + (b.toNat - 0x80) * 0x1000 + (c.toNat - 0x80) * 0x40 + (d.toNat - 0x80)) :=
    .four (by omega) (by omega) (by omega) (by omega) (by omega)
  exact hform.isCharacter (by unfold Nat.isValidChar; omega) (.inr (.inr (.inr ⟨rfl, by omega⟩)))

/-- Whether a byte goes on with a character. -/
def IsTrail (b : UInt8) : Prop :=
  0x80 ≤ b.toNat ∧ b.toNat ≤ 0xBF

/-- Inside a character, either the bytes that are due stand there, or reading fails, and names the first byte of the
character. -/
theorem decodeFrom_some_cases (position : Nat) (p : Partial) (bytes : List UInt8) :
    (∃ b trail rest, bytes = b :: (trail ++ rest) ∧ p.low.toNat ≤ b.toNat ∧ b.toNat ≤ p.high.toNat ∧
      trail.length = p.more ∧ ∀ t ∈ trail, IsTrail t) ∨
      ∃ failure, decodeFrom position (some p) bytes = .error failure ∧ failure.first = p.start := by
  obtain ⟨byte, start, value, more, low, high⟩ := p
  induction more generalizing position value low high bytes with
  | zero =>
    cases bytes with
    | nil => exact .inr ⟨_, rfl, rfl⟩
    | cons b rest =>
      rw [decodeFrom]
      split
      · rename_i hdue
        simp only [Bool.and_eq_true, decide_eq_true_iff, UInt8.le_iff_toNat_le] at hdue
        exact .inl ⟨b, [], rest, rfl, hdue.1, hdue.2, rfl, List.forall_mem_nil _⟩
      · exact .inr ⟨_, rfl, rfl⟩
  | succ more ih =>
    cases bytes with
    | nil => exact .inr ⟨_, rfl, rfl⟩
    | cons b rest =>
      rw [decodeFrom]
      split
      · rename_i hdue
        simp only [Bool.and_eq_true, decide_eq_true_iff, UInt8.le_iff_toNat_le] at hdue
        rcases ih (position + 1) rest _ 0x80 0xBF with
          ⟨t, trail, behind, hrest, hlow, hhigh, hlength, htrail⟩ | hfailure
        · refine .inl ⟨b, t :: trail, behind, by rw [hrest, List.cons_append], hdue.1, hdue.2, ?_, ?_⟩
          · exact congrArg (· + 1) hlength
          · exact List.forall_mem_cons.2 ⟨⟨hlow, hhigh⟩, htrail⟩
        · exact .inr hfailure
      · exact .inr ⟨_, rfl, rfl⟩

/-- What a first byte demands: how many bytes, and what the second one must be. -/
theorem begin?_cases {a : UInt8} (h : Partial.begin? a position = some p) :
    p.start = position ∧
      (0xC2 ≤ a.toNat ∧ a.toNat ≤ 0xDF ∧ p.more = 0 ∧ p.low.toNat = 0x80 ∧ p.high.toNat = 0xBF ∨
        0xE0 ≤ a.toNat ∧ a.toNat ≤ 0xEF ∧ p.more = 1 ∧ p.low.toNat = (if a.toNat = 0xE0 then 0xA0 else 0x80) ∧
          p.high.toNat = (if a.toNat = 0xED then 0x9F else 0xBF) ∨
        0xF0 ≤ a.toNat ∧ a.toNat ≤ 0xF4 ∧ p.more = 2 ∧ p.low.toNat = (if a.toNat = 0xF0 then 0x90 else 0x80) ∧
          p.high.toNat = (if a.toNat = 0xF4 then 0x8F else 0xBF)) := by
  have ha : UInt8.ofNat a.toNat = a := UInt8.ofNat_toNat
  by_cases htwo : 0xC2 ≤ a.toNat ∧ a.toNat ≤ 0xDF
  · have hbegin := @begin?_two a.toNat position htwo.1 htwo.2
    rw [ha, h] at hbegin
    rw [Option.some.inj hbegin]
    exact ⟨rfl, .inl ⟨htwo.1, htwo.2, rfl, rfl, rfl⟩⟩
  by_cases hthree : 0xE0 ≤ a.toNat ∧ a.toNat ≤ 0xEF
  · obtain ⟨low, high, hbegin, hlow, hhigh⟩ := @exists_begin?_three a.toNat position hthree.1 hthree.2
    rw [ha, h] at hbegin
    rw [Option.some.inj hbegin]
    exact ⟨rfl, .inr (.inl ⟨hthree.1, hthree.2, rfl, hlow, hhigh⟩)⟩
  by_cases hfour : 0xF0 ≤ a.toNat ∧ a.toNat ≤ 0xF4
  · obtain ⟨low, high, hbegin, hlow, hhigh⟩ := @exists_begin?_four a.toNat position hfour.1 hfour.2
    rw [ha, h] at hbegin
    rw [Option.some.inj hbegin]
    exact ⟨rfl, .inr (.inr ⟨hfour.1, hfour.2, rfl, hlow, hhigh⟩)⟩
  · have hbegin := @begin?_byte a.toNat position a.toNat_lt
    rw [ha, h, if_neg htwo, if_neg (by omega), if_neg (by omega), if_neg (by omega), if_neg (by omega),
      if_neg (by omega), if_neg (by omega)] at hbegin
    cases hbegin

/-- A first byte with the bytes that are due behind it is a character. -/
theorem isCharacter_of_begin? {a b : UInt8} {trail : List UInt8} (hbegin : Partial.begin? a position = some p)
    (hlow : p.low.toNat ≤ b.toNat) (hhigh : b.toNat ≤ p.high.toNat) (hlength : trail.length = p.more)
    (htrail : ∀ t ∈ trail, IsTrail t) : IsCharacter (a :: b :: trail) := by
  obtain ⟨-, htwo | hthree | hfour⟩ := begin?_cases hbegin
  · obtain ⟨hfirst, hlast, hmore, hleast, hmost⟩ := htwo
    obtain rfl : trail = [] := List.length_eq_zero_iff.1 (hlength.trans hmore)
    exact isCharacter_two ⟨hfirst, hlast⟩ (by omega)
  · obtain ⟨hfirst, hlast, hmore, hleast, hmost⟩ := hthree
    obtain ⟨c, rfl⟩ := List.length_eq_one_iff.1 (hlength.trans hmore)
    have hc := htrail c List.mem_cons_self
    exact isCharacter_three ⟨hfirst, hlast⟩ (by split at hleast <;> split at hmost <;> omega)
      (fun heq => by rw [if_pos heq] at hleast; omega) (fun heq => by rw [if_pos heq] at hmost; omega) hc
  · obtain ⟨hfirst, hlast, hmore, hleast, hmost⟩ := hfour
    obtain ⟨c, d, rfl⟩ := List.length_eq_two.1 (hlength.trans hmore)
    have hc := htrail c List.mem_cons_self
    have hd := htrail d (List.mem_cons_of_mem c List.mem_cons_self)
    exact isCharacter_four ⟨hfirst, hlast⟩ (by split at hleast <;> split at hmost <;> omega)
      (fun heq => by rw [if_pos heq] at hleast; omega) (fun heq => by rw [if_pos heq] at hmost; omega) hc hd

/-- Where characters begin, either there is one, or reading fails there. -/
theorem decodeFrom_none_cases (position : Nat) (hne : bytes ≠ []) :
    (∃ c rest, bytes = String.utf8EncodeChar c ++ rest) ∨
      ∃ failure, decodeFrom position none bytes = .error failure ∧ failure.first = position := by
  obtain ⟨a, rest, rfl⟩ := List.exists_cons_of_ne_nil hne
  rw [decodeFrom]
  by_cases hascii : a < 0x80
  · have ha : a.toNat < 0x80 := UInt8.lt_iff_toNat_lt.1 hascii
    have hform : HasForm [a] a.toNat := .one ha rfl
    obtain ⟨c, hc⟩ := isCharacter_iff.1 (hform.isCharacter (.inl (by omega)) (.inl rfl))
    exact .inl ⟨c, rest, by rw [hc, List.singleton_append]⟩
  · rw [if_neg hascii]
    cases hbegin : Partial.begin? a position with
    | none => exact .inr ⟨_, rfl, rfl⟩
    | some p =>
      rcases decodeFrom_some_cases (position + 1) p rest with
        ⟨b, trail, behind, rfl, hlow, hhigh, hlength, htrail⟩ | ⟨failure, hfailure, hfirst⟩
      · obtain ⟨c, hc⟩ := isCharacter_iff.1 (isCharacter_of_begin? hbegin hlow hhigh hlength htrail)
        exact .inl ⟨c, behind, by rw [hc]; rfl⟩
      · exact .inr ⟨failure, hfailure, hfirst.trans (begin?_cases hbegin).1⟩

end DirectiveIndex.Utf8
