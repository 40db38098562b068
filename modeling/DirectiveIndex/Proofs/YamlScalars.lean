import DirectiveIndex.Proofs.Hexadecimals
import DirectiveIndex.Yaml.Scalar

namespace DirectiveIndex.Yaml

/-- What is read, with a character in front. -/
def add (c : Char) (read : Text × Text) : Text × Text :=
  (c :: read.1, read.2)

/-- Reads a plain scalar whose further lines have an indentation. It ends before a colon at the end of a line, and
before a line without the indentation; other line feeds stand for spaces. The first number says how many characters
are passed over, so that the indentation is. -/
def readPlain (indent : Nat) : Nat → Text → Text × Text
  | _, [] => ([], [])
  | skip + 1, _ :: rest => readPlain indent skip rest
  | 0, c :: rest =>
    if c = ':' ∧ rest.head? = some '\n' then ([], c :: rest)
    else if c ≠ '\n' then add c (readPlain indent 0 rest)
    else if (List.replicate indent ' ').isPrefixOf rest then add ' ' (readPlain indent indent rest)
    else ([], c :: rest)

/-- Reads the rest of a scalar in single quotes. A line feed stands for a space, or for nothing if another line break
follows; other line breaks, and those behind one, stand for themselves. The truth value tells whether a line break comes
before the rest. -/
def readSingle (indent : Nat) : Nat → Bool → Text → Option (Text × Text)
  | _, _, [] => none
  | skip + 1, broken, _ :: rest => readSingle indent skip broken rest
  | 0, _, '\x27' :: '\x27' :: rest => (readSingle indent 0 false rest).map (add '\x27')
  | 0, _, '\x27' :: rest => some ([], rest)
  | 0, broken, c :: rest =>
    let goesOn := rest.head?.any isBreak
    if isBreak c = false then
      (readSingle indent 0 false rest).map (add c)
    else if c = '\n' ∧ broken = false then
      if goesOn then readSingle indent 0 true rest else (readSingle indent indent false rest).map (add ' ')
    else
      (readSingle indent (if goesOn then 0 else indent) true rest).map (add c)

/-- The characters that stand for others behind a backslash. -/
def escapes : List (Char × Char) :=
  [('"', '"'), ('\\', '\\'), ('N', '\u0085'), ('L', '\u2028'), ('P', '\u2029'), ('0', '\x00'), ('a', '\x07'),
    ('b', '\x08'), ('t', '\t'), ('n', '\n'), ('v', '\x0b'), ('f', '\x0c'), ('r', '\r'), ('e', '\x1b'), (' ', ' ')]

/-- The characters that stand, behind a backslash, before a code in a number of hexadecimal digits. -/
def codeWidths : List (Char × Nat) :=
  [('x', 2), ('u', 4), ('U', 8)]

/-- Reads the rest of a scalar in double quotes. A backslash at the end of a line stands for nothing, like the
indentation of the next line. -/
def readDouble (indent : Nat) : Nat → Text → Option (Text × Text)
  | _, [] => none
  | skip + 1, _ :: rest => readDouble indent skip rest
  | 0, '"' :: rest => some ([], rest)
  | 0, '\\' :: '\n' :: rest => readDouble indent indent rest
  | 0, '\\' :: kind :: rest =>
    match codeWidths.lookup kind with
    | some width => do
      let code ← Text.ofHex? (rest.take width)
      (readDouble indent width rest).map (add (Char.ofNat code))
    | none => do
      let c ← escapes.lookup kind
      (readDouble indent 0 rest).map (add c)
  | 0, c :: rest => (readDouble indent 0 rest).map (add c)

/-- Reads a scalar. -/
def readScalar (indent : Nat) : Text → Option (Text × Text)
  | '"' :: rest => readDouble indent 0 rest
  | '\x27' :: rest => readSingle indent 0 false rest
  | text => some (readPlain indent 0 text)

variable {indent skip : Nat} {text tail : Text}

/-- Characters that are due to be skipped are no part of a plain scalar. -/
theorem readPlain_skip {skipped : Text} (h : skipped.length = skip) (rest : Text) :
    readPlain indent skip (skipped ++ rest) = readPlain indent 0 rest := by
  subst h
  induction skipped with
  | nil => rfl
  | cons c skipped ih => exact ih

/-- Characters that are due to be skipped are no part of a single-quoted scalar. -/
theorem readSingle_skip {skipped : Text} (h : skipped.length = skip) (broken : Bool) (rest : Text) :
    readSingle indent skip broken (skipped ++ rest) = readSingle indent 0 broken rest := by
  subst h
  induction skipped with
  | nil => rfl
  | cons c skipped ih => exact ih

/-- Characters that are due to be skipped are no part of a double-quoted scalar. -/
theorem readDouble_skip {skipped : Text} (h : skipped.length = skip) (rest : Text) :
    readDouble indent skip (skipped ++ rest) = readDouble indent 0 rest := by
  subst h
  induction skipped with
  | nil => rfl
  | cons c skipped ih => exact ih

theorem length_spaces (margin : Margin) : margin.spaces.length = margin.indent :=
  List.length_replicate

/-- Whether a colon of a text stands before a gap or at the end. -/
def endsAtColon : Text → Bool
  | [] => false
  | c :: rest => (c == ':' && isSetOff rest) || endsAtColon rest

/-- A plain scalar is written with its first character first unless that is a blank. -/
theorem head?_writePlain (margin : Margin) (previous? : Option Char) {c : Char} (hc : c ≠ ' ') (rest : Text) :
    (writePlain margin previous? (c :: rest)).head? = some c := by
  rw [writePlain, if_neg fun hfold => hc hfold.1]
  rfl

/-- A colon that is not set off does not come to stand at the end of a line. -/
theorem head?_writePlain_of_not_isSetOff {rest : Text} (h : isSetOff rest = false) (margin : Margin)
    (previous? : Option Char) (tail : Text) : (writePlain margin previous? rest ++ tail).head? ≠ some '\n' := by
  cases rest with
  | nil => cases h
  | cons c rest =>
    have hgap : isGap c = false := h
    have hspace : c ≠ ' ' := by
      rintro rfl
      cases hgap
    rw [List.head?_append, head?_writePlain margin previous? hspace]
    rintro ⟨⟩
    cases hgap

/-- A plain scalar is read back as it was, wherever its lines were folded. -/
theorem readPlain_writePlain (margin : Margin) (previous? : Option Char) (hbreak : '\n' ∉ text)
    (hcolon : endsAtColon text = false) (htail : readPlain margin.indent 0 tail = ([], tail)) :
    readPlain margin.indent 0 (writePlain margin previous? text ++ tail) = (text, tail) := by
  induction text generalizing margin previous? with
  | nil => exact htail
  | cons c rest ih =>
    rw [List.mem_cons, not_or] at hbreak
    rw [endsAtColon, Bool.or_eq_false_iff] at hcolon
    rw [writePlain]
    split
    · rename_i hfold
      obtain ⟨rfl, -⟩ := hfold
      have hread := ih (margin.newLine margin.indent) (some ' ') hbreak.2 hcolon.2 htail
      have hindented : (List.replicate margin.indent ' ').isPrefixOf
          (margin.spaces ++ (writePlain (margin.newLine margin.indent) (some ' ') rest ++ tail)) :=
        List.isPrefixOf_iff_prefix.2 (List.prefix_append _ _)
      rw [List.cons_append, List.cons_append, List.append_assoc, readPlain, if_neg fun h => absurd h.1 (by decide),
        if_neg fun h => h rfl, if_pos hindented, readPlain_skip (length_spaces margin)]
      exact congrArg (add ' ') hread
    · have hread := ih (margin.advance 1) (some c) hbreak.2 hcolon.2 htail
      have hinside : ¬ (c = ':' ∧ (writePlain (margin.advance 1) (some c) rest ++ tail).head? = some '\n') := by
        rintro ⟨rfl, hhead⟩
        exact head?_writePlain_of_not_isSetOff hcolon.1 _ _ _ hhead
      rw [List.cons_append, readPlain, if_neg hinside, if_pos (Ne.symm hbreak.1)]
      exact congrArg (add c) hread

/-- Between line breaks no indent is written. -/
theorem head?_writeSingle (margin : Margin) {previous c : Char} (hprevious : isBreak previous = true)
    (hc : isBreak c = true) (rest : Text) : (writeSingle margin (some previous) (c :: rest)).head? = some c := by
  have hspace : c ≠ ' ' := by
    rintro rfl
    cases hc
  rw [writeSingle, if_neg fun hfold => hspace hfold.1, if_pos hc]
  have hextra : ¬ (c = '\n' ∧ !(some previous).any isBreak) := by simp [hprevious]
  rw [if_neg hextra]
  split <;> rfl

section

variable {c : Char} {rest : Text} {broken : Bool}

/-- A character that neither breaks a line nor closes the scalar stands for itself. -/
theorem readSingle_of_not_isBreak (hbreak : isBreak c = false) (hquote : c ≠ '\x27') :
    readSingle indent 0 broken (c :: rest) = (readSingle indent 0 false rest).map (add c) := by
  simp [readSingle, hbreak, hquote]

/-- A quote that is not doubled closes the scalar. -/
theorem readSingle_end (h : tail.head? ≠ some '\x27') :
    readSingle indent 0 broken ('\x27' :: tail) = some ([], tail) := by
  cases tail with
  | nil => rfl
  | cons c tail =>
    have hc : c ≠ '\x27' := fun heq => h (heq ▸ rfl)
    simp [readSingle, hc]

/-- A line feed before a line that is not empty stands for a space. -/
theorem readSingle_fold (h : rest.head?.any isBreak = false) :
    readSingle indent 0 false ('\n' :: rest) = (readSingle indent indent false rest).map (add ' ') := by
  simp [readSingle, h, isBreak]

/-- A line break stands for itself where it is not one that folds a line, and the indent of the next
line is skipped. -/
theorem readSingle_break (hc : isBreak c = true) (h : ¬ (c = '\n' ∧ broken = false)) :
    readSingle indent 0 broken (c :: rest) =
      (readSingle indent (if rest.head?.any isBreak then 0 else indent) true rest).map (add c) := by
  have hquote : c ≠ '\x27' := by
    rintro rfl
    cases hc
  simp [readSingle, hc, hquote, h]

/-- A line break, perhaps with one more line feed before it, stands for itself. -/
theorem readSingle_line (hc : isBreak c = true) :
    readSingle indent 0 broken ((if c = '\n' ∧ !broken then ['\n'] else []) ++ c :: rest) =
      (readSingle indent (if rest.head?.any isBreak then 0 else indent) true rest).map (add c) := by
  split
  · rename_i hextra
    obtain ⟨rfl, hunbroken⟩ := hextra
    have hbroken : broken = false := Bool.not_inj hunbroken
    have hskipped : readSingle indent 0 false ('\n' :: '\n' :: rest) = readSingle indent 0 true ('\n' :: rest) := by
      simp [readSingle, isBreak]
    rw [hbroken, List.singleton_append, hskipped]
    exact readSingle_break hc fun h => Bool.noConfusion h.2
  · rename_i hkept
    exact readSingle_break hc fun h => hkept ⟨h.1, by rw [h.2]; rfl⟩

end

/-- Whether a space stands behind a line break. -/
def holdsIndent (text : Text) : Bool :=
  holdsPair (fun a b => isBreak a && b == ' ') text

/-- Where no line is indented, no blank follows a line break. -/
theorem holdsIndent_cons_cons {a b : Char} {rest : Text} (h : holdsIndent (a :: b :: rest) = false) :
    (isBreak a = true → b ≠ ' ') ∧ holdsIndent (b :: rest) = false := by
  obtain ⟨hpair, hrest⟩ := Bool.or_eq_false_iff.1 h
  refine ⟨?_, hrest⟩
  rintro ha rfl
  rw [Bool.and_eq_false_iff] at hpair
  rcases hpair with hpair | hpair
  · exact Bool.noConfusion (ha.symm.trans hpair)
  · cases hpair

theorem head?_spaces {margin : Margin} (hindent : 0 < margin.indent) (rest : Text) :
    (margin.spaces ++ rest).head? = some ' ' := by
  rw [Margin.spaces, List.head?_append, List.head?_replicate, if_neg (by omega)]
  rfl

/-- A single-quoted scalar is read back as it was, wherever its lines were folded. Only a blank
behind a line break would be lost among the indent. -/
theorem readSingle_writeSingle (margin : Margin) (previous? : Option Char) (hindent : 0 < margin.indent)
    (hpairs : holdsIndent (previous?.toList ++ text) = false) (htail : tail.head? ≠ some '\x27') :
    readSingle margin.indent 0 (previous?.any isBreak) (writeSingle margin previous? text ++ '\x27' :: tail) =
      some (text, tail) := by
  induction text generalizing margin previous? with
  | nil => exact readSingle_end htail
  | cons c rest ih =>
    have hrest : holdsIndent ((some c).toList ++ rest) = false := by
      cases previous? with
      | none => exact hpairs
      | some previous => exact (holdsIndent_cons_cons hpairs).2
    rw [writeSingle]
    split
    · rename_i hfold
      obtain ⟨rfl, -⟩ := hfold
      have hread := ih (margin.newLine margin.indent) (some ' ') hindent hrest
      have hbroken : previous?.any isBreak = false := by
        cases previous? with
        | none => rfl
        | some previous => exact Bool.eq_false_iff.2 fun h => (holdsIndent_cons_cons hpairs).1 h rfl
      rw [hbroken, List.cons_append, List.cons_append, List.append_assoc,
        readSingle_fold (by rw [head?_spaces hindent]; rfl), readSingle_skip (length_spaces margin)]
      exact congrArg (Option.map (add ' ')) hread
    split
    · rename_i hbreak
      dsimp only
      by_cases hnext : rest.head?.any isBreak = true
      · have hread := ih (margin.newLine 0) (some c) hindent hrest
        have hhead : (writeSingle (margin.newLine 0) (some c) rest ++ '\x27' :: tail).head?.any isBreak = true := by
          cases rest with
          | nil => cases hnext
          | cons next rest =>
            rw [List.head?_append, head?_writeSingle _ hbreak hnext]
            exact hnext
        rw [if_pos hnext, List.append_assoc, List.cons_append, readSingle_line hbreak, if_pos hhead]
        rw [Option.any_some, hbreak] at hread
        exact congrArg (Option.map (add c)) hread
      · have hread := ih (margin.newLine margin.indent) (some c) hindent hrest
        rw [if_neg hnext, List.append_assoc, List.append_assoc, List.cons_append, readSingle_line hbreak,
          head?_spaces hindent, if_neg (by decide), readSingle_skip (length_spaces margin)]
        rw [Option.any_some, hbreak] at hread
        exact congrArg (Option.map (add c)) hread
    · rename_i hbreak
      split
      · rename_i hquote
        subst hquote
        have hread := ih (margin.advance 2) (some '\x27') hindent hrest
        exact congrArg (Option.map (add '\x27')) hread
      · rename_i hquote
        have hread := ih (margin.advance 1) (some c) hindent hrest
        rw [List.cons_append, readSingle_of_not_isBreak (Bool.eq_false_iff.2 hbreak) hquote]
        rw [Option.any_some, Bool.eq_false_iff.2 hbreak] at hread
        exact congrArg (Option.map (add c)) hread

/-- The two ways to escape a character: by a letter of its own, or by its code in a number of digits. -/
theorem escape?_cases {c : Char} {escaped : Text} (h : escape? c = some escaped) :
    (∃ letter, escaped = ['\\', letter] ∧ codeWidths.lookup letter = none ∧ escapes.lookup letter = some c) ∨
      ∃ kind width, escaped = '\\' :: kind :: Text.hexUpper width c.toNat ∧ codeWidths.lookup kind = some width ∧
        0 < width ∧ c.toNat < 16 ^ width := by
  by_cases hletter : ∃ entry ∈ escapes, entry.2 = c ∧ c ≠ ' '
  · obtain ⟨⟨letter, c⟩, hmem, rfl, hspace⟩ := hletter
    have hall : ∀ entry ∈ escapes, entry.2 ≠ ' ' → escape? entry.2 = some ['\\', entry.1] ∧
        codeWidths.lookup entry.1 = none ∧ escapes.lookup entry.1 = some entry.2 := by decide
    obtain ⟨hescape, hrest⟩ := hall _ hmem hspace
    exact .inl ⟨letter, Option.some.inj (h.symm.trans hescape), hrest⟩
  · have hne : ∀ entry ∈ escapes, entry.2 ≠ ' ' → c ≠ entry.2 := by
      rintro entry hmem hspace rfl
      exact hletter ⟨entry, hmem, rfl, hspace⟩
    have hquotes : ¬ (c = '"' ∨ c = '\\') := by
      rintro (rfl | rfl)
      · exact hne ('"', '"') (by decide) (by decide) rfl
      · exact hne ('\\', '\\') (by decide) (by decide) rfl
    have hcode : ∀ code ∈ escapes.map fun entry => entry.2.toNat, code ≠ 0x20 → c.toNat ≠ code := by
      intro code hmem hspace heq
      obtain ⟨entry, hentry, rfl⟩ := List.mem_map.1 hmem
      exact hne entry hentry (fun h => hspace (h ▸ rfl)) (Char.toNat_inj.1 heq)
    rw [escape?, if_neg hquotes, if_neg (hcode 0x85 (by decide) (by decide)),
      if_neg (hcode 0x2028 (by decide) (by decide)), if_neg (hcode 0x2029 (by decide) (by decide))] at h
    by_cases hplain : c.toNat ≠ 0xFEFF ∧
        (0x20 ≤ c.toNat ∧ c.toNat ≤ 0x7E ∨ 0xA0 ≤ c.toNat ∧ c.toNat ≤ 0xD7FF ∨ 0xE000 ≤ c.toNat ∧ c.toNat ≤ 0xFFFD)
    · rw [if_pos hplain] at h
      cases h
    rw [if_neg hplain, if_neg (hcode 0 (by decide) (by decide)), if_neg (hcode 7 (by decide) (by decide)),
      if_neg (hcode 8 (by decide) (by decide)), if_neg (hcode 9 (by decide) (by decide)),
      if_neg (hcode 10 (by decide) (by decide)), if_neg (hcode 11 (by decide) (by decide)),
      if_neg (hcode 12 (by decide) (by decide)), if_neg (hcode 13 (by decide) (by decide)),
      if_neg (hcode 0x1B (by decide) (by decide))] at h
    by_cases hbyte : c.toNat ≤ 0xFF
    · rw [if_pos hbyte] at h
      exact .inr ⟨'x', 2, (Option.some.inj h).symm, rfl, by decide, by omega⟩
    rw [if_neg hbyte] at h
    by_cases hunit : c.toNat ≤ 0xFFFF
    · rw [if_pos hunit] at h
      exact .inr ⟨'u', 4, (Option.some.inj h).symm, rfl, by decide, by omega⟩
    · rw [if_neg hunit] at h
      have hlt : c.toNat < 0x110000 := by
        rcases c.valid with h | h
        · exact Nat.lt_trans h (by decide)
        · exact h.2
      exact .inr ⟨'U', 8, (Option.some.inj h).symm, rfl, by decide, by omega⟩

/-- An escaped character is read back as the character. -/
theorem readDouble_escaped {c : Char} {escaped : Text} (h : escape? c = some escaped) (rest : Text) :
    readDouble indent 0 (escaped ++ rest) = (readDouble indent 0 rest).map (add c) := by
  rcases escape?_cases h with ⟨letter, rfl, hkind, hletter⟩ | ⟨kind, width, rfl, hkind, hwidth, hlt⟩
  · have hbreak : letter ≠ '\n' := by
      rintro rfl
      cases hletter
    rw [List.cons_append, List.cons_append, readDouble, hkind, hletter]
    · rfl
    · exact hbreak
  · have hbreak : kind ≠ '\n' := by
      rintro rfl
      cases hkind
    have hlength := Text.length_hexUpper hwidth hlt
    have htake : (Text.hexUpper width c.toNat ++ rest).take width = Text.hexUpper width c.toNat :=
      List.take_left' hlength
    rw [List.cons_append, List.cons_append, readDouble, hkind]
    · simp only [htake, Text.ofHex?_hexUpper, readDouble_skip hlength, Option.bind_eq_bind, Option.bind_some,
        Char.ofNat_toNat]
    · exact hbreak

/-- A character that needs no escape stands for itself. -/
theorem readDouble_unescaped {c : Char} (h : escape? c = none) (rest : Text) :
    readDouble indent 0 (c :: rest) = (readDouble indent 0 rest).map (add c) := by
  have hquote : c ≠ '"' := by
    rintro rfl
    cases h
  have hbackslash : c ≠ '\\' := by
    rintro rfl
    cases h
  rw [readDouble]
  · exact hquote
  · exact fun _ heq _ => hbackslash heq
  · exact fun _ _ heq _ => hbackslash heq

/-- Characters that need no escape are read one by one. -/
theorem readDouble_held {held rest : Text} (hheld : ∀ c ∈ held, escape? c = none)
    (hrest : readDouble indent 0 rest = some (text, tail)) :
    readDouble indent 0 (held ++ rest) = some (held ++ text, tail) := by
  induction held with
  | nil => exact hrest
  | cons c held ih =>
    obtain ⟨hc, hheld⟩ := List.forall_mem_cons.1 hheld
    rw [List.cons_append, readDouble_unescaped hc, ih hheld]
    rfl

/-- The end of a line stands for nothing, with the backslash that keeps a space at the beginning of the next line. -/
theorem readDouble_fold (margin : Margin) {next? : Option Char} {rest : Text}
    (h : next? = some ' ' → rest.head? = some ' ') :
    readDouble margin.indent 0 ((foldDouble margin next?).1 ++ rest) = readDouble margin.indent 0 rest := by
  rw [foldDouble]
  split
  · rename_i hspace
    obtain ⟨others, rfl⟩ := List.head?_eq_some_iff.1 (h hspace)
    rw [List.cons_append, List.cons_append, List.cons_append, List.cons_append, List.append_assoc, readDouble,
      readDouble_skip (length_spaces margin), readDouble_unescaped (by decide)]
    rfl
  · rw [List.cons_append, List.cons_append, readDouble, readDouble_skip (length_spaces margin)]

/-- Folding a line leaves the indent. -/
theorem indent_foldDouble (margin : Margin) (next? : Option Char) :
    (foldDouble margin next?).2.indent = margin.indent := by
  rw [foldDouble]
  split <;> rfl

/-- A folded line begins at the indent. -/
theorem column_foldDouble_le (margin : Margin) (next? : Option Char) :
    (foldDouble margin next?).2.column ≤ margin.indent + 1 := by
  rw [foldDouble]
  split
  · exact Nat.le_refl _
  · exact Nat.le_succ _

/-- What is held is written first. -/
theorem exists_writeDouble (margin : Margin) (isFirst : Bool) (held text : Text) :
    ∃ written, writeDouble margin isFirst held text = held ++ written := by
  induction text generalizing margin isFirst held with
  | nil => exact ⟨[], (List.append_nil held).symm⟩
  | cons c rest ih =>
    rw [writeDouble]
    dsimp only
    split
    · split
      · exact ⟨_, by rw [List.append_assoc, List.append_assoc]⟩
      · exact ⟨_, List.append_assoc ..⟩
    · split
      · exact ⟨_, List.append_assoc ..⟩
      · obtain ⟨written, hwritten⟩ := ih margin false (held ++ [c])
        exact ⟨_, hwritten.trans (List.append_assoc ..)⟩

/-- A space at the beginning of a line does not end the line. -/
theorem head?_writeDouble_space {margin : Margin} (hcolumn : margin.column ≤ Margin.width) (rest : Text) :
    (writeDouble margin false [] (' ' :: rest)).head? = some ' ' := by
  have hescape : escape? ' ' = none := by decide
  have hwithin : ¬ margin.column + ([] : Text).length > Margin.width := Nat.not_lt.2 hcolumn
  obtain ⟨written, hwritten⟩ := exists_writeDouble margin false [' '] rest
  rw [writeDouble]
  simp only [hescape]
  rw [if_neg fun h => hwithin h.2.2, List.nil_append, hwritten]
  rfl

/-- A double-quoted scalar is read back as it was. The writer holds a run of characters back to
break the line in front of it, so that the statement is about what it holds as well. -/
theorem readDouble_writeDouble (margin : Margin) (isFirst : Bool) (held : Text) (hindent : margin.indent < Margin.width)
    (hheld : ∀ c ∈ held, escape? c = none) :
    readDouble margin.indent 0 (writeDouble margin isFirst held text ++ '"' :: tail) = some (held ++ text, tail) := by
  induction text generalizing margin isFirst held with
  | nil => exact readDouble_held hheld rfl
  | cons c rest ih =>
    rw [writeDouble]
    dsimp only
    cases hescape : escape? c with
    | some escaped =>
      dsimp only
      generalize hwritten : margin.advance (held ++ escaped).length = written
      have hwidth : written.indent < Margin.width := hwritten ▸ hindent
      have hsame : margin.indent = written.indent := hwritten ▸ rfl
      rw [hsame]
      split
      · have hread := ih (foldDouble written rest.head?).2 false []
          ((indent_foldDouble written rest.head?).symm ▸ hwidth) (List.forall_mem_nil _)
        rw [indent_foldDouble] at hread
        have hhead (hspace : rest.head? = some ' ') :
            (writeDouble (foldDouble written rest.head?).2 false [] rest ++ '"' :: tail).head? = some ' ' := by
          obtain ⟨others, rfl⟩ := List.head?_eq_some_iff.1 hspace
          have hcolumn := Nat.le_trans (column_foldDouble_le written (some ' ')) hwidth
          rw [List.head?_append, List.head?_cons, head?_writeDouble_space hcolumn]
          rfl
        rw [List.append_assoc, List.append_assoc, List.append_assoc]
        refine readDouble_held hheld ?_
        rw [readDouble_escaped hescape, readDouble_fold written hhead, hread]
        rfl
      · have hread := ih written false [] hwidth (List.forall_mem_nil _)
        rw [List.append_assoc, List.append_assoc]
        refine readDouble_held hheld ?_
        rw [readDouble_escaped hescape, hread]
        rfl
    | none =>
      dsimp only
      have hc : ∀ other ∈ [c], escape? other = none := List.forall_mem_singleton.2 hescape
      split
      · have hread := ih (foldDouble margin (some c)).2 false [c]
          ((indent_foldDouble margin (some c)).symm ▸ hindent) hc
        rw [indent_foldDouble] at hread
        have hhead (hspace : some c = some ' ') :
            (writeDouble (foldDouble margin (some c)).2 false [c] rest ++ '"' :: tail).head? = some ' ' := by
          obtain ⟨written, hwritten⟩ := exists_writeDouble (foldDouble margin (some c)).2 false [c] rest
          rw [hwritten]
          exact hspace
        rw [List.append_assoc, List.append_assoc]
        refine readDouble_held hheld ?_
        rw [readDouble_fold margin hhead, hread]
        rfl
      · have hread := ih margin false (held ++ [c]) hindent (List.forall_mem_append.2 ⟨hheld, hc⟩)
        rwa [List.append_assoc, List.singleton_append] at hread

/-- Whether a scalar whose further lines have an indentation ends before a text: at a colon that ends a line, or at the
end of a line before one without the indentation. -/
def EndsScalar (indent : Nat) (tail : Text) : Prop :=
  (∃ rest, tail = ':' :: '\n' :: rest) ∨
    ∃ rest, tail = '\n' :: rest ∧ (List.replicate indent ' ').isPrefixOf rest = false

/-- Where a scalar ends, nothing is read of a plain one. -/
theorem readPlain_of_endsScalar (h : EndsScalar indent tail) : readPlain indent 0 tail = ([], tail) := by
  rcases h with ⟨rest, rfl⟩ | ⟨rest, rfl, hrest⟩
  · rfl
  · rw [readPlain, if_neg fun h => absurd h.1 (by decide), if_neg fun h => h rfl, if_neg (Bool.eq_false_iff.1 hrest)]

/-- A text without an indicator does not end with a colon. -/
theorem endsAtColon_of_holdsIndicator {previous? : Option Char} (h : holdsIndicator previous? text = false) :
    endsAtColon text = false := by
  induction text generalizing previous? with
  | nil => rfl
  | cons c rest ih =>
    rw [holdsIndicator, Bool.or_eq_false_iff, Bool.or_eq_false_iff] at h
    rw [endsAtColon, h.1.1, ih h.2]
    rfl

/-- How a text begins that can be written without quotes. -/
theorem exists_first_of_isPlain (h : isPlain text = true) :
    ∃ c rest, text = c :: rest ∧ c ≠ ' ' ∧ c ∉ indicators ∧ (c = '?' → isSetOff rest = false) := by
  unfold isPlain at h
  simp only [Bool.and_eq_true, Bool.not_eq_true'] at h
  obtain ⟨⟨⟨⟨⟨⟨hstart, -⟩, -⟩, -⟩, hfirst⟩, -⟩, hreserved⟩ := h
  cases text with
  | nil => cases hreserved
  | cons c rest =>
    rw [startsWithIndicator] at hstart
    simp only [Bool.or_eq_false_iff, Bool.and_eq_false_iff] at hstart
    obtain ⟨⟨-, hindicator⟩, hsetOff⟩ := hstart
    refine ⟨c, rest, rfl, ?_, ?_, ?_⟩
    · rintro rfl
      cases hfirst
    · exact fun hmem => Bool.eq_false_iff.1 hindicator (List.contains_iff_mem.2 hmem)
    · rintro rfl
      exact hsetOff.resolve_left fun h => absurd h.1 (by decide)

/-- What a text holds that can be written without quotes. -/
theorem holds_of_isPlain (h : isPlain text = true) : '\n' ∉ text ∧ endsAtColon text = false := by
  unfold isPlain at h
  simp only [Bool.and_eq_true, Bool.not_eq_true'] at h
  obtain ⟨⟨⟨⟨⟨⟨-, hcolon⟩, -⟩, hbreak⟩, -⟩, -⟩, -⟩ := h
  refine ⟨fun hmem => ?_, endsAtColon_of_holdsIndicator hcolon⟩
  exact Bool.eq_false_iff.1 hbreak (List.any_eq_true.2 ⟨'\n', hmem, rfl⟩)

/-- A text that needs no escape has no blank behind a line break. -/
theorem holdsIndent_of_not_needsEscapes (h : ¬ needsEscapes text = true) : holdsIndent text = false := by
  rw [needsEscapes, Bool.not_eq_true, Bool.or_eq_false_iff, Bool.or_eq_false_iff] at h
  exact h.1.2

/-- A scalar is read back, up to its end. -/
theorem readScalar_writeScalar (margin : Margin) (text : Text) (hindent : 0 < margin.indent)
    (hwidth : margin.indent < Margin.width) (htail : EndsScalar margin.indent tail) :
    readScalar margin.indent (writeScalar margin text ++ tail) = some (text, tail) := by
  rw [writeScalar]
  split
  · rename_i hplain
    obtain ⟨hbreak, hcolon⟩ := holds_of_isPlain hplain
    have hread := readPlain_writePlain margin none hbreak hcolon (readPlain_of_endsScalar htail)
    obtain ⟨c, rest, rfl, hspace, hindicator, -⟩ := exists_first_of_isPlain hplain
    obtain ⟨others, hothers⟩ := List.head?_eq_some_iff.1 (head?_writePlain margin none hspace rest)
    have hdouble : c ≠ '"' := fun heq => hindicator (heq ▸ by decide)
    have hsingle : c ≠ '\x27' := fun heq => hindicator (heq ▸ by decide)
    rw [hothers, List.cons_append] at hread ⊢
    rw [readScalar, hread]
    · exact fun _ heq => hdouble (List.cons.inj heq).1
    · exact fun _ heq => hsingle (List.cons.inj heq).1
  split
  · rw [List.cons_append, List.cons_append, List.append_assoc]
    exact readDouble_writeDouble (margin.advance 1) true [] hwidth (List.forall_mem_nil _)
  · rename_i hescapes
    have hquote : tail.head? ≠ some '\x27' := by
      rcases htail with ⟨rest, rfl⟩ | ⟨rest, rfl, -⟩ <;> rintro ⟨⟩
    rw [List.cons_append, List.cons_append, List.append_assoc]
    exact readSingle_writeSingle (margin.advance 1) none hindent (holdsIndent_of_not_needsEscapes hescapes) hquote

/-- How a scalar begins: neither with a space nor with a question mark before one. -/
theorem exists_first_of_writeScalar (margin : Margin) (text : Text) (tail : Text) :
    ∃ c rest, writeScalar margin text ++ tail = c :: rest ∧ c ≠ ' ' ∧ (c = '?' → rest.head? ≠ some ' ') := by
  rw [writeScalar]
  split
  · rename_i hplain
    obtain ⟨c, rest, rfl, hspace, -, hmark⟩ := exists_first_of_isPlain hplain
    rw [writePlain, if_neg fun hfold => hspace hfold.1]
    refine ⟨c, writePlain (margin.advance 1) (some c) rest ++ tail, rfl, hspace, ?_⟩
    rintro rfl
    cases rest with
    | nil => cases hmark rfl
    | cons next rest =>
      have hgap : isGap next = false := hmark rfl
      have hnext : next ≠ ' ' := by
        rintro rfl
        cases hgap
      rw [List.head?_append, head?_writePlain _ _ hnext]
      exact fun heq => hnext (Option.some.inj heq)
  split
  · exact ⟨'"', _, rfl, by decide, fun h => absurd h (by decide)⟩
  · exact ⟨'\x27', _, rfl, by decide, fun h => absurd h (by decide)⟩

end DirectiveIndex.Yaml
