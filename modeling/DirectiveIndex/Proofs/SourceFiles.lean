import Mathlib
import DirectiveIndex.Proofs.Indexes
import DirectiveIndex.Proofs.LineEndings

namespace DirectiveIndex

namespace Utf8

variable {n position : Nat} {rest : List UInt8}

/-- The number of a byte. -/
theorem toNat_byte (h : n < 256) : (UInt8.ofNat n).toNat = n := by
  rw [UInt8.toNat_ofNat']
  exact Nat.mod_eq_of_lt h

theorem byte_le_iff (h : n < 256) (b : UInt8) : UInt8.ofNat n ≤ b ↔ n ≤ b.toNat := by
  rw [UInt8.le_iff_toNat_le, toNat_byte h]

theorem le_byte_iff (h : n < 256) (b : UInt8) : b ≤ UInt8.ofNat n ↔ b.toNat ≤ n := by
  rw [UInt8.le_iff_toNat_le, toNat_byte h]

theorem byte_eq_iff (h : n < 256) (b : UInt8) : UInt8.ofNat n = b ↔ n = b.toNat := by
  rw [← UInt8.toNat_inj, toNat_byte h]

/-- What a byte begins, told from its number. -/
theorem begin?_byte (h : n < 256) :
    Partial.begin? (UInt8.ofNat n) position =
      if 0xC2 ≤ n ∧ n ≤ 0xDF then some ⟨UInt8.ofNat n, position, n - 0xC0, 0, 0x80, 0xBF⟩
      else if n = 0xE0 then some ⟨UInt8.ofNat n, position, 0, 1, 0xA0, 0xBF⟩
      else if n = 0xED then some ⟨UInt8.ofNat n, position, 0xD, 1, 0x80, 0x9F⟩
      else if 0xE1 ≤ n ∧ n ≤ 0xEF then some ⟨UInt8.ofNat n, position, n - 0xE0, 1, 0x80, 0xBF⟩
      else if n = 0xF0 then some ⟨UInt8.ofNat n, position, 0, 2, 0x90, 0xBF⟩
      else if n = 0xF4 then some ⟨UInt8.ofNat n, position, 4, 2, 0x80, 0x8F⟩
      else if 0xF1 ≤ n ∧ n ≤ 0xF3 then some ⟨UInt8.ofNat n, position, n - 0xF0, 2, 0x80, 0xBF⟩
      else none := by
  simp only [Partial.begin?, le_byte_iff h, byte_le_iff h, byte_eq_iff h, toNat_byte h, UInt8.reduceToNat, beq_iff_eq,
    Bool.and_eq_true, decide_eq_true_iff]

/-- The first of two bytes. -/
theorem begin?_two (hlow : 0xC2 ≤ n) (hhigh : n ≤ 0xDF) :
    Partial.begin? (UInt8.ofNat n) position = some ⟨UInt8.ofNat n, position, n - 0xC0, 0, 0x80, 0xBF⟩ := by
  rw [begin?_byte (by omega), if_pos ⟨hlow, hhigh⟩]

/-- The first of three bytes. -/
theorem exists_begin?_three (hlow : 0xE0 ≤ n) (hhigh : n ≤ 0xEF) :
    ∃ low high, Partial.begin? (UInt8.ofNat n) position = some ⟨UInt8.ofNat n, position, n - 0xE0, 1, low, high⟩ ∧
      low.toNat = (if n = 0xE0 then 0xA0 else 0x80) ∧ high.toNat = (if n = 0xED then 0x9F else 0xBF) := by
  rw [begin?_byte (by omega), if_neg (by omega)]
  by_cases hfirst : n = 0xE0
  · subst hfirst
    exact ⟨_, _, rfl, rfl, rfl⟩
  by_cases hsurrogate : n = 0xED
  · subst hsurrogate
    exact ⟨_, _, rfl, rfl, rfl⟩
  rw [if_neg hfirst, if_neg hsurrogate, if_pos (by omega), if_neg hfirst, if_neg hsurrogate]
  exact ⟨_, _, rfl, rfl, rfl⟩

/-- The first of four bytes. -/
theorem exists_begin?_four (hlow : 0xF0 ≤ n) (hhigh : n ≤ 0xF4) :
    ∃ low high, Partial.begin? (UInt8.ofNat n) position = some ⟨UInt8.ofNat n, position, n - 0xF0, 2, low, high⟩ ∧
      low.toNat = (if n = 0xF0 then 0x90 else 0x80) ∧ high.toNat = (if n = 0xF4 then 0x8F else 0xBF) := by
  rw [begin?_byte (by omega), if_neg (by omega), if_neg (by omega), if_neg (by omega), if_neg (by omega)]
  by_cases hfirst : n = 0xF0
  · subst hfirst
    exact ⟨_, _, rfl, rfl, rfl⟩
  by_cases hlast : n = 0xF4
  · subst hlast
    exact ⟨_, _, rfl, rfl, rfl⟩
  rw [if_neg hfirst, if_neg hlast, if_pos (by omega), if_neg hfirst, if_neg hlast]
  exact ⟨_, _, rfl, rfl, rfl⟩

/-- A byte that ends a character. -/
theorem decodeFrom_last {p : Partial} (h : n < 256) (hmore : p.more = 0) (hlow : p.low.toNat ≤ n)
    (hhigh : n ≤ p.high.toNat) :
    decodeFrom position (some p) (UInt8.ofNat n :: rest) =
      (decodeFrom (position + 1) none rest).map (Char.ofNat (p.value * 64 + (n - 0x80)) :: ·) := by
  obtain ⟨byte, start, value, more, low, high⟩ := p
  obtain rfl : more = 0 := hmore
  rw [decodeFrom, if_pos]
  · rw [toNat_byte h]
  · simp only [Bool.and_eq_true, decide_eq_true_iff, le_byte_iff h, byte_le_iff h]
    exact ⟨hlow, hhigh⟩

/-- A byte with which a character goes on. -/
theorem decodeFrom_more {p : Partial} {more : Nat} (h : n < 256) (hmore : p.more = more + 1) (hlow : p.low.toNat ≤ n)
    (hhigh : n ≤ p.high.toNat) :
    decodeFrom position (some p) (UInt8.ofNat n :: rest) =
      decodeFrom (position + 1) (some ⟨p.byte, p.start, p.value * 64 + (n - 0x80), more, 0x80, 0xBF⟩) rest := by
  obtain ⟨byte, start, value, _, low, high⟩ := p
  subst hmore
  rw [decodeFrom, if_pos]
  · rw [toNat_byte h]
  · simp only [Bool.and_eq_true, decide_eq_true_iff, le_byte_iff h, byte_le_iff h]
    exact ⟨hlow, hhigh⟩

/-- A byte above 7F begins a character. -/
theorem decodeFrom_begin {p : Partial} (h : n < 256) (hascii : 0x80 ≤ n)
    (hbegin : Partial.begin? (UInt8.ofNat n) position = some p) :
    decodeFrom position none (UInt8.ofNat n :: rest) = decodeFrom (position + 1) (some p) rest := by
  rw [decodeFrom, if_neg, hbegin]
  rw [UInt8.lt_iff_toNat_lt, toNat_byte h]
  exact Nat.not_lt.2 hascii

/-- The bytes of a character are read back as the character, and what stands behind them is read on from there. -/
theorem decodeFrom_encodeChar (c : Char) (position : Nat) (rest : List UInt8) :
    decodeFrom position none (String.utf8EncodeChar c ++ rest) =
      (decodeFrom (position + (String.utf8EncodeChar c).length) none rest).map (c :: ·) := by
  have hvalid : c.toNat < 0xD800 ∨ 0xDFFF < c.toNat ∧ c.toNat < 0x110000 := c.valid
  have hchar {value : Nat} (h : value = c.toNat) : Char.ofNat value = c := by
    rw [h, Char.ofNat_toNat]
  have hval : c.val.toNat = c.toNat := rfl
  unfold String.utf8EncodeChar
  rw [hval]
  dsimp only
  split
  · have hbyte : (UInt8.ofNat c.toNat).toNat = c.toNat := toNat_byte (by omega)
    have hascii : UInt8.ofNat c.toNat < 0x80 := by
      rw [UInt8.lt_iff_toNat_lt, hbyte]
      exact Nat.lt_succ_of_le ‹_›
    rw [List.singleton_append, decodeFrom, if_pos hascii, hbyte, hchar rfl, List.length_singleton]
  · split
    · rw [List.cons_append, decodeFrom_begin (by omega) (by omega) (begin?_two (by omega) (by omega)), List.cons_append,
        decodeFrom_last (by omega) rfl (by simp) (by simp; omega), hchar (by dsimp only; omega)]
      rfl
    · split
      · obtain ⟨low, high, hbegin, hlow, hhigh⟩ :=
          @exists_begin?_three (c.toNat / 4096 % 16 + 224) position (by omega) (by omega)
        rw [List.cons_append, decodeFrom_begin (by omega) (by omega) hbegin, List.cons_append,
          decodeFrom_more (by omega) rfl (by dsimp only; split at hlow <;> omega) (by dsimp only; split at hhigh <;> omega),
          List.cons_append, decodeFrom_last (by omega) rfl (by simp) (by simp; omega), hchar (by dsimp only; omega)]
        rfl
      · obtain ⟨low, high, hbegin, hlow, hhigh⟩ :=
          @exists_begin?_four (c.toNat / 262144 % 8 + 240) position (by omega) (by omega)
        rw [List.cons_append, decodeFrom_begin (by omega) (by omega) hbegin, List.cons_append,
          decodeFrom_more (by omega) rfl (by dsimp only; split at hlow <;> omega) (by dsimp only; split at hhigh <;> omega),
          List.cons_append, decodeFrom_more (by omega) rfl (by simp) (by simp; omega), List.cons_append,
          decodeFrom_last (by omega) rfl (by simp) (by simp; omega), hchar (by dsimp only; omega)]
        rfl

/-- A text is encoded character by character. -/
theorem encode_cons (c : Char) (text : Text) : encode (c :: text) = String.utf8EncodeChar c ++ encode text :=
  rfl

/-- The bytes of a text are read back as the text, and what stands behind them is read on from there. -/
theorem decodeFrom_encode_append (text : Text) (position : Nat) (rest : List UInt8) :
    decodeFrom position none (encode text ++ rest) =
      (decodeFrom (position + (encode text).length) none rest).map (text ++ ·) := by
  induction text generalizing position with
  | nil =>
    rw [encode, List.flatMap_nil, List.nil_append]
    cases decodeFrom (position + ([] : List UInt8).length) none rest <;> rfl
  | cons c text ih =>
    rw [encode_cons, List.append_assoc, decodeFrom_encodeChar, ih, List.length_append, Nat.add_assoc]
    cases decodeFrom (position + ((String.utf8EncodeChar c).length + (encode text).length)) none rest <;> rfl

/-- The bytes of a text are read back as the text. -/
theorem decodeFrom_encode (text : Text) (position : Nat) : decodeFrom position none (encode text) = .ok text := by
  have hread := decodeFrom_encode_append text position []
  rw [List.append_nil] at hread
  rw [hread, decodeFrom, Except.map, List.append_nil]

private theorem eq_of_cons_comparable {a b : UInt8} {l l' : List UInt8}
    (h : a :: l <+: b :: l' ∨ b :: l' <+: a :: l) : a = b ∧ (l <+: l' ∨ l' <+: l) := by
  rcases h with h | h
  · obtain ⟨heq, htail⟩ := List.cons_prefix_cons.1 h
    exact ⟨heq, .inl htail⟩
  · obtain ⟨heq, htail⟩ := List.cons_prefix_cons.1 h
    exact ⟨heq.symm, .inr htail⟩

/-- Only the byte order mark begins like one. -/
theorem encodeChar_of_byteOrderMark {c : Char} {rest : List UInt8}
    (h : byteOrderMark <+: String.utf8EncodeChar c ++ rest ∨ String.utf8EncodeChar c ++ rest <+: byteOrderMark) :
    c = '\uFEFF' := by
  have hval : c.val.toNat = c.toNat := rfl
  have hvalid : c.toNat < 0xD800 ∨ 0xDFFF < c.toNat ∧ c.toNat < 0x110000 := c.valid
  rw [byteOrderMark] at h
  unfold String.utf8EncodeChar at h
  rw [hval] at h
  dsimp only at h
  split at h
  · have hfirst := (byte_eq_iff (by omega) 0xEF).1 (eq_of_cons_comparable h).1.symm
    simp only [UInt8.reduceToNat] at hfirst
    omega
  · split at h
    · have hfirst := (byte_eq_iff (by omega) 0xEF).1 (eq_of_cons_comparable h).1.symm
      simp only [UInt8.reduceToNat] at hfirst
      omega
    · split at h
      · obtain ⟨hfirst, hrest⟩ := eq_of_cons_comparable h
        obtain ⟨hsecond, hrest⟩ := eq_of_cons_comparable hrest
        obtain ⟨hthird, -⟩ := eq_of_cons_comparable hrest
        have h₁ := (byte_eq_iff (by omega) 0xEF).1 hfirst.symm
        have h₂ := (byte_eq_iff (by omega) 0xBB).1 hsecond.symm
        have h₃ := (byte_eq_iff (by omega) 0xBF).1 hthird.symm
        simp only [UInt8.reduceToNat] at h₁ h₂ h₃
        have hmark : c.toNat = 0xFEFF := by omega
        rw [← Char.ofNat_toNat c, hmark]
      · have hfirst := (byte_eq_iff (by omega) 0xEF).1 (eq_of_cons_comparable h).1.symm
        simp only [UInt8.reduceToNat] at hfirst
        omega

/-- A text that does not begin with a mark is read back from its bytes. -/
theorem decodeFile_encode {text : Text} (h : text.head? ≠ some '\uFEFF') : decodeFile (encode text) = .ok text := by
  cases text with
  | nil => rfl
  | cons c text =>
    have hmark : ¬ byteOrderMark.isPrefixOf (encode (c :: text)) = true ∧
        ¬ (encode (c :: text)).isPrefixOf byteOrderMark = true := by
      rw [List.isPrefixOf_iff_prefix, List.isPrefixOf_iff_prefix, ← not_or, encode, List.flatMap_cons]
      exact fun hprefix => h (congrArg some (encodeChar_of_byteOrderMark hprefix))
    rw [decodeFile, if_neg hmark.1, if_neg hmark.2]
    exact decodeFrom_encode (c :: text) 0

/-- The mark in front of a file is no part of its text. -/
theorem decodeFile_byteOrderMark (text : Text) : decodeFile (byteOrderMark ++ encode text) = .ok text := by
  have hahead : byteOrderMark.isPrefixOf (byteOrderMark ++ encode text) = true :=
    List.isPrefixOf_iff_prefix.2 (List.prefix_append _ _)
  rw [decodeFile, if_pos hahead, List.drop_left]
  exact decodeFrom_encode text 0

end Utf8

/-- The ways to end a line in a file. -/
inductive LineEnding where
  | feed
  | returnFeed
  | carriageReturn
deriving DecidableEq, Repr

namespace LineEnding

/-- A line ending as it is written. -/
def text : LineEnding → Text
  | feed => ['\n']
  | returnFeed => ['\r', '\n']
  | carriageReturn => ['\r']

/-- A text with its lines ended in this way. -/
def write (ending : LineEnding) (text : Text) : Text :=
  text.flatMap fun c => if c = '\n' then ending.text else [c]

/-- A text is written with its line feeds replaced by the line ending. -/
theorem write_cons (ending : LineEnding) (c : Char) (rest : Text) :
    ending.write (c :: rest) = (if c = '\n' then ending.text else [c]) ++ ending.write rest :=
  rfl

/-- A text without carriage returns does not begin with a line feed when its lines end in carriage returns. -/
theorem head?_write_carriageReturn (text : Text) : (carriageReturn.write text).head? ≠ some '\n' := by
  cases text with
  | nil => exact nofun
  | cons c rest =>
    rw [write_cons]
    split
    · exact fun h => absurd (Option.some.inj h) (by decide)
    · rename_i hc
      exact fun h => hc (Option.some.inj h)

/-- Any character but a carriage return is kept. -/
theorem unifyLineEndings_cons {c : Char} (hc : c ≠ '\r') (rest : Text) :
    Utf8.unifyLineEndings (c :: rest) = c :: Utf8.unifyLineEndings rest := by
  rw [Utf8.unifyLineEndings, if_neg hc]
  exact fun rest hreturn => absurd hreturn hc

/-- A carriage return before anything but a line feed is a line ending of its own. -/
theorem unifyLineEndings_return {rest : Text} (h : rest.head? ≠ some '\n') :
    Utf8.unifyLineEndings ('\r' :: rest) = '\n' :: Utf8.unifyLineEndings rest := by
  rw [Utf8.unifyLineEndings, if_pos rfl]
  rintro tail - rfl
  exact h rfl

/-- In whichever way its lines are ended, a text is read with line feeds. -/
theorem unifyLineEndings_write (ending : LineEnding) {text : Text} (h : '\r' ∉ text) :
    Utf8.unifyLineEndings (ending.write text) = text := by
  induction text with
  | nil => rfl
  | cons c rest ih =>
    rw [List.mem_cons, not_or] at h
    have htail := ih h.2
    rw [write_cons]
    by_cases hc : c = '\n'
    · subst hc
      rw [if_pos rfl]
      cases ending with
      | feed => exact (unifyLineEndings_cons (by decide) _).trans (congrArg _ htail)
      | returnFeed => exact congrArg _ htail
      | carriageReturn =>
        exact (unifyLineEndings_return (head?_write_carriageReturn rest)).trans (congrArg _ htail)
    · rw [if_neg hc, List.singleton_append, unifyLineEndings_cons (Ne.symm h.1), htail]

/-- A text with its lines ended in any way begins with a character of its own or of a line ending. -/
theorem head?_write {c : Char} (hreturn : c ≠ '\r') (hfeed : c ≠ '\n') (ending : LineEnding) (text : Text) :
    (ending.write text).head? = some c ↔ text.head? = some c := by
  cases text with
  | nil => rfl
  | cons d rest =>
    rw [write_cons]
    by_cases hd : d = '\n'
    · subst hd
      cases ending <;> simp [LineEnding.text, hreturn.symm, hfeed.symm]
    · rw [if_neg hd]
      rfl

end LineEnding

/-- A file that holds a text in whichever form is read as the text. -/
theorem FileSystem.readSource_of_readBytes {fs : FileSystem} {path : Path} {text : Text} {ending : LineEnding}
    {marked : Bool} (hreturn : '\r' ∉ text) (hmark : text.head? ≠ some '\uFEFF')
    (h : fs.readBytes path =
      .ok ((if marked then Utf8.byteOrderMark else []) ++ Utf8.encode (ending.write text))) :
    fs.readSource path = .ok text := by
  have hdecode : Utf8.decodeFile ((if marked then Utf8.byteOrderMark else []) ++ Utf8.encode (ending.write text)) =
      .ok (ending.write text) := by
    cases marked with
    | true => exact Utf8.decodeFile_byteOrderMark _
    | false =>
      refine Utf8.decodeFile_encode fun hhead => hmark ?_
      exact (LineEnding.head?_write (by decide) (by decide) ending text).1 hhead
  simp only [readSource, h, hdecode, LineEnding.unifyLineEndings_write ending hreturn]

/-- Line endings make no difference to what is found: a source in which every carriage return stands before a line feed
has, with these line endings written as line feeds, what it has itself, with the line endings in that written as
line feeds. And a file that holds a text without carriage returns in UTF-8 has what the text has, in whichever way
its lines are ended, and with a byte order mark or without. -/
theorem extract_lineEndings :
    (∀ source, Text.ReturnsPaired source → extract (Text.foldBreaks source) = (extract source).foldBreaks) ∧
    ∀ text, '\r' ∉ text → text.head? ≠ some '\uFEFF' → ∀ (ending : LineEnding) (marked : Bool) (fs : FileSystem)
      (path : Path),
      fs.readBytes path = .ok ((if marked then Utf8.byteOrderMark else []) ++ Utf8.encode (ending.write text)) →
        fs.metadataOf? path = some (extract text) := by
  refine ⟨fun source h => extract_foldBreaks h, fun text hreturn hmark ending marked fs path h => ?_⟩
  rw [FileSystem.metadataOf?, FileSystem.readSource_of_readBytes hreturn hmark h]
  rfl

/-- A line ending in a path and one behind a comment in a value, the second in a file with a byte order mark. -/
theorem extract_lineEndings_returnFeed :
    Text.ReturnsPaired "import 'a\r\n';".toList ∧
      extract (Text.foldBreaks "import 'a\r\n';".toList) = (extract "import 'a\r\n';".toList).foldBreaks ∧
      FileSystem.metadataOf?
          ⟨[(["a".toList], ⟨.file (Utf8.byteOrderMark ++
            Utf8.encode (LineEnding.returnFeed.write "pragma solidity 1//\n;".toList)), false⟩)], []⟩
          (.ofText "/a".toList) = some (extract "pragma solidity 1//\n;".toList) := by
  have hpaired : Text.ReturnsPaired "import 'a\r\n';".toList := by decide
  have hread : FileSystem.readBytes
      ⟨[(["a".toList], ⟨.file (Utf8.byteOrderMark ++
        Utf8.encode (LineEnding.returnFeed.write "pragma solidity 1//\n;".toList)), false⟩)], []⟩
      (.ofText "/a".toList) =
      .ok ((if true then Utf8.byteOrderMark else []) ++
        Utf8.encode (LineEnding.returnFeed.write "pragma solidity 1//\n;".toList)) := by cbv
  exact ⟨hpaired, extract_lineEndings.1 _ hpaired,
    extract_lineEndings.2 _ (by decide) (by decide) .returnFeed true _ _ hread⟩

end DirectiveIndex
