import Mathlib
import DirectiveIndex.Proofs.CharacterForms
import DirectiveIndex.Proofs.Outcomes

namespace DirectiveIndex

namespace Utf8

variable {bytes rest : List UInt8} {position n : Nat} {text decoded : Text} {failure : DecodeError}

/-- Reading either comes to the end of the bytes, which encode the text read, or fails behind a text that they begin
with. -/
theorem decodeFrom_cases (position : Nat) (bytes : List UInt8) :
    (∃ text, encode text = bytes ∧ decodeFrom position none bytes = .ok text) ∨
      ∃ text rest failure, encode text ++ rest = bytes ∧ decodeFrom position none bytes = .error failure ∧
        failure.first = position + (encode text).length := by
  induction hlength : bytes.length using Nat.strongRecOn generalizing bytes position with
  | ind length ih =>
  by_cases hne : bytes = []
  · exact .inl ⟨[], hne.symm, hne ▸ rfl⟩
  rcases decodeFrom_none_cases position hne with ⟨c, rest, rfl⟩ | ⟨failure, hfailure, hfirst⟩
  · have hshorter : rest.length < length := by
      have hpositive := Char.utf8Size_pos c
      rw [← hlength, List.length_append, String.length_utf8EncodeChar]
      omega
    rcases ih _ hshorter (position + (String.utf8EncodeChar c).length) rest rfl with
      ⟨text, hrest, hread⟩ | ⟨text, behind, failure, hrest, hread, hfirst⟩
    · refine .inl ⟨c :: text, by rw [encode_cons, hrest], ?_⟩
      rw [decodeFrom_encodeChar, hread]
      rfl
    · refine .inr ⟨c :: text, behind, failure, by rw [encode_cons, List.append_assoc, hrest], ?_, ?_⟩
      · rw [decodeFrom_encodeChar, hread]
        rfl
      · rw [hfirst, encode_cons, List.length_append, Nat.add_assoc]
  · exact .inr ⟨[], bytes, failure, rfl, hfailure, hfirst⟩

/-- Bytes are read as a text if and only if they encode it. -/
theorem decode_eq_ok_iff : decode bytes = .ok text ↔ encode text = bytes := by
  constructor
  · intro h
    rcases decodeFrom_cases 0 bytes with ⟨other, hbytes, hread⟩ | ⟨_, _, failure, -, hread, -⟩
    · rw [← Except.ok.inj (hread.symm.trans h)]
      exact hbytes
    · cases hread.symm.trans h
  · rintro rfl
    exact decodeFrom_encode text 0

/-- Different texts have different bytes. -/
theorem encode_injective {other : Text} (h : encode text = encode other) : text = other :=
  Except.ok.inj ((decode_eq_ok_iff.2 h).symm.trans (decode_eq_ok_iff.2 rfl))

/-- Whether so many bytes are the longest beginning of some bytes that is well-formed. -/
def IsLongestWellFormed (bytes : List UInt8) (n : Nat) : Prop :=
  n ≤ bytes.length ∧ WellFormed (bytes.take n) ∧ ∀ m ≤ bytes.length, WellFormed (bytes.take m) → m ≤ n

/-- There is one longest well-formed beginning. -/
theorem IsLongestWellFormed.unique {other : Nat} (h : IsLongestWellFormed bytes n)
    (hother : IsLongestWellFormed bytes other) : n = other :=
  Nat.le_antisymm (hother.2.2 n h.1 h.2.1) (h.2.2 other hother.1 hother.2.1)

/-- A failure comes behind the longest well-formed beginning. -/
theorem isLongestWellFormed_of_decode (h : decode bytes = .error failure) :
    IsLongestWellFormed bytes failure.first := by
  rcases decodeFrom_cases 0 bytes with ⟨text, -, hread⟩ | ⟨text, rest, other, hbytes, hread, hfirst⟩
  · cases hread.symm.trans h
  obtain rfl : other = failure := Except.error.inj (hread.symm.trans h)
  rw [Nat.zero_add] at hfirst
  refine ⟨?_, ?_, fun m hm hwell => ?_⟩
  · rw [hfirst, ← hbytes, List.length_append]
    exact Nat.le_add_right _ _
  · rw [hfirst, ← hbytes, List.take_left]
    exact wellFormed_iff.2 ⟨text, rfl⟩
  · -- reading passes over the well-formed beginning, so it fails behind it
    obtain ⟨passed, hpassed⟩ := wellFormed_iff.1 hwell
    have hpassedLength : (encode passed).length = m := by rw [hpassed, List.length_take, Nat.min_eq_left hm]
    have hbehind : decode bytes = (decodeFrom m none (bytes.drop m)).map (passed ++ ·) := by
      have happend := decodeFrom_encode_append passed 0 (bytes.drop m)
      rwa [hpassed, List.take_append_drop, ← hpassed, hpassedLength, Nat.zero_add] at happend
    rcases decodeFrom_cases m (bytes.drop m) with ⟨_, -, hok⟩ | ⟨more, _, last, -, herror, hlast⟩
    · rw [hok, h] at hbehind
      cases hbehind
    · rw [herror, h] at hbehind
      rw [Except.error.inj hbehind, hlast]
      exact Nat.le_add_right _ _

/-- The bytes behind a byte order mark, if they begin with one. -/
def behindMark (bytes : List UInt8) : List UInt8 :=
  if byteOrderMark <+: bytes then bytes.drop byteOrderMark.length else bytes

/-- A text without one byte order mark at its start. -/
def dropMark (text : Text) : Text :=
  if text.head? = some '\uFEFF' then text.tail else text

/-- The bytes of a text begin with a mark if the text does. -/
theorem prefix_encode_iff : byteOrderMark <+: encode text ↔ text.head? = some '\uFEFF' := by
  cases text with
  | nil => simp [encode, byteOrderMark]
  | cons c text =>
    rw [encode_cons, List.head?_cons, Option.some.injEq]
    constructor
    · exact fun h => encodeChar_of_byteOrderMark (.inl h)
    · rintro rfl
      exact List.prefix_append byteOrderMark (encode text)

/-- Well-formed bytes begin with a byte order mark if their text does, and then it is all that is dropped. -/
theorem encode_dropMark (text : Text) : encode (dropMark text) = behindMark (encode text) := by
  rw [behindMark, dropMark]
  by_cases hmark : text.head? = some '\uFEFF'
  · obtain ⟨tail, rfl⟩ := List.head?_eq_some_iff.1 hmark
    rw [if_pos hmark, if_pos (prefix_encode_iff.2 hmark)]
    rfl
  · rw [if_neg hmark, if_neg fun h => hmark (prefix_encode_iff.1 h)]

/-- Whether bytes are the beginning of a byte order mark, but neither empty nor all of it. -/
def IsPartOfMark (bytes : List UInt8) : Prop :=
  bytes = [0xEF] ∨ bytes = [0xEF, 0xBB]

/-- A part of a mark is read as nothing. -/
theorem decodeFile_of_isPartOfMark (h : IsPartOfMark bytes) : decodeFile bytes = .ok [] := by
  rcases h with rfl | rfl <;> rfl

/-- What is no part of a byte order mark is read from behind the mark. -/
theorem decodeFile_of_not_isPartOfMark (h : ¬ IsPartOfMark bytes) : decodeFile bytes = decode (behindMark bytes) := by
  rw [decodeFile, behindMark]
  by_cases hmark : byteOrderMark <+: bytes
  · rw [if_pos (List.isPrefixOf_iff_prefix.2 hmark), if_pos hmark]
  · rw [if_neg (mt List.isPrefixOf_iff_prefix.1 hmark), if_neg hmark]
    by_cases hpart : bytes <+: byteOrderMark
    · obtain ⟨count, hcount, rfl⟩ : ∃ count ≤ 3, bytes = byteOrderMark.take count :=
        ⟨bytes.length, hpart.length_le, List.prefix_iff_eq_take.1 hpart⟩
      interval_cases count
      · rfl
      · exact absurd (.inl rfl) h
      · exact absurd (.inr rfl) h
      · exact absurd (List.prefix_refl _) hmark
    · rw [if_neg (mt List.isPrefixOf_iff_prefix.1 hpart)]

/-- A part of a mark is no text. -/
theorem not_wellFormed_of_isPartOfMark (h : IsPartOfMark bytes) : ¬ WellFormed bytes := by
  rintro hwell
  obtain ⟨text, htext⟩ := wellFormed_iff.1 hwell
  have hread := decode_eq_ok_iff.2 htext
  rcases h with rfl | rfl <;> cases hread

/-- A file is read as the text that its bytes encode, without a byte order mark; and as no text where they are a part of
the mark. -/
theorem decodeFile_eq_ok_iff :
    decodeFile bytes = .ok text ↔
      IsPartOfMark bytes ∧ text = [] ∨ ∃ decoded, encode decoded = bytes ∧ text = dropMark decoded := by
  by_cases hpart : IsPartOfMark bytes
  · rw [decodeFile_of_isPartOfMark hpart]
    constructor
    · exact fun h => .inl ⟨hpart, (Except.ok.inj h).symm⟩
    · rintro (⟨-, rfl⟩ | ⟨decoded, hdecoded, -⟩)
      · rfl
      · exact absurd (wellFormed_iff.2 ⟨decoded, hdecoded⟩) (not_wellFormed_of_isPartOfMark hpart)
  · rw [decodeFile_of_not_isPartOfMark hpart, decode_eq_ok_iff]
    constructor
    · intro htext
      rw [behindMark] at htext
      split at htext
      · rename_i hmark
        obtain ⟨rest, rfl⟩ := hmark
        rw [List.drop_left] at htext
        exact .inr ⟨'\uFEFF' :: text, by rw [encode_cons, htext]; rfl, rfl⟩
      · rename_i hmark
        refine .inr ⟨text, htext, (if_neg fun hhead => hmark ?_).symm⟩
        exact htext ▸ prefix_encode_iff.2 hhead
    · rintro (⟨h, -⟩ | ⟨decoded, rfl, rfl⟩)
      · exact absurd h hpart
      · exact encode_dropMark decoded

/-- Line endings are unified by writing each carriage return with a line feed behind it as a line feed, and then each
that is left. -/
theorem unifyLineEndings_eq (text : Text) :
    unifyLineEndings text = Text.replaceChar '\r' '\n' (Text.foldBreaks text) := by
  fun_induction unifyLineEndings text with
  | case1 => rfl
  | case2 rest ih =>
    rw [ih]
    rfl
  | case3 c rest hnot ih =>
    have hfold : Text.foldBreaks (c :: rest) = c :: Text.foldBreaks rest := by
      rw [Text.foldBreaks]
      exact hnot
    rw [ih, hfold]
    rfl

end Utf8

/-- Whether a notice is a warning that a file is skipped because its bytes cannot be read from a position on. -/
def Notice.NamesPosition (notice : Notice) (path : Path) (position : Nat) : Prop :=
  notice.level = .warning ∧ ∃ subject after : Text,
    notice.message = "Skipping unreadable file ".toList ++ path.text ++ [':', ' '] ++
      "'utf-8' codec can't decode ".toList ++ subject ++ " in position ".toList ++ Text.ofNat position ++ after ∧
    (subject = "bytes".toList ∨ ∃ byte : UInt8, subject = "byte 0x".toList ++ Text.hex 2 byte.toNat) ∧
    (after.head? = some ':' ∨ after.head? = some '-')

/-- The warning about a file that cannot be decoded names the position of the failure. -/
theorem Notice.namesPosition_skipped (path : Path) (failure : Utf8.DecodeError) :
    (Notice.skipped path (.encoding failure)).NamesPosition path failure.first := by
  have hmessage : (skipped path (.encoding failure)).message =
      "Skipping unreadable file ".toList ++ path.text ++ [':', ' '] ++ failure.message := rfl
  have hsplit : "bytes in position ".toList = "bytes".toList ++ " in position ".toList := by decide
  refine ⟨rfl, ?_⟩
  rw [hmessage]
  unfold Utf8.DecodeError.message
  by_cases hone : failure.first = failure.last
  · refine ⟨"byte 0x".toList ++ Text.hex 2 failure.byte.toNat, ':' :: ' ' :: failure.fault.message, ?_,
      .inr ⟨failure.byte, rfl⟩, .inl List.head?_cons⟩
    rw [if_pos hone]
    simp only [List.append_assoc, List.cons_append, List.nil_append]
  · refine ⟨"bytes".toList, '-' :: (Text.ofNat failure.last ++ ':' :: ' ' :: failure.fault.message), ?_, .inl rfl,
      .inr List.head?_cons⟩
    rw [if_neg hone, hsplit]
    simp only [List.append_assoc, List.cons_append, List.nil_append]

variable {fs : FileSystem} {path : Path} {bytes : List UInt8} {text : Text}

/-- A source is read by decoding its bytes and unifying its line endings. -/
theorem FileSystem.readSource_eq (h : fs.readBytes path = .ok bytes) :
    fs.readSource path = ((Utf8.decodeFile bytes).mapError .encoding).map Utf8.unifyLineEndings := by
  rw [readSource, h]
  dsimp only
  cases Utf8.decodeFile bytes <;> rfl

/-- The texts that sources are read as. -/
theorem FileSystem.readSource_eq_ok_iff (h : fs.readBytes path = .ok bytes) :
    fs.readSource path = .ok text ↔ Utf8.IsPartOfMark bytes ∧ text = [] ∨
      ∃ decoded, Utf8.encode decoded = bytes ∧
        text = Text.replaceChar '\r' '\n' (Text.foldBreaks (Utf8.dropMark decoded)) := by
  have hok : fs.readSource path = .ok text ↔
      ∃ read, Utf8.decodeFile bytes = .ok read ∧ Utf8.unifyLineEndings read = text := by
    rw [readSource_eq h, map_eq_ok_iff]
    exact exists_congr fun read => and_congr_left' mapError_eq_ok_iff
  rw [hok]
  constructor
  · rintro ⟨read, hread, rfl⟩
    rcases Utf8.decodeFile_eq_ok_iff.1 hread with ⟨hpart, rfl⟩ | ⟨decoded, hdecoded, rfl⟩
    · exact .inl ⟨hpart, rfl⟩
    · exact .inr ⟨decoded, hdecoded, Utf8.unifyLineEndings_eq _⟩
  · rintro (⟨hpart, rfl⟩ | ⟨decoded, hdecoded, rfl⟩)
    · exact ⟨[], Utf8.decodeFile_of_isPartOfMark hpart, rfl⟩
    · exact ⟨_, Utf8.decodeFile_eq_ok_iff.2 (.inr ⟨decoded, hdecoded, rfl⟩), Utf8.unifyLineEndings_eq _⟩

/-- A file whose bytes cannot be read leads to one notice, which names the place where they cannot. -/
theorem Indexing.notices_addFile_of_not_wellFormed (h : fs.readBytes path = .ok bytes)
    (hill : ¬ Utf8.WellFormed bytes) (hpart : ¬ Utf8.IsPartOfMark bytes) :
    ∃ position, Utf8.IsLongestWellFormed (Utf8.behindMark bytes) position ∧ ∀ indexing : Indexing, ∃ notice,
      (indexing.addFile fs path).notices = indexing.notices ++ [notice] ∧ notice.NamesPosition path position := by
  have hread := Utf8.decodeFile_of_not_isPartOfMark hpart
  cases hdecode : Utf8.decode (Utf8.behindMark bytes) with
  | ok text =>
    obtain ⟨decoded, hdecoded, -⟩ :=
      (Utf8.decodeFile_eq_ok_iff.1 (hread.trans hdecode)).resolve_left fun hempty => hpart hempty.1
    exact absurd (Utf8.wellFormed_iff.2 ⟨decoded, hdecoded⟩) hill
  | error failure =>
    refine ⟨failure.first, Utf8.isLongestWellFormed_of_decode hdecode, fun indexing => ?_⟩
    refine ⟨.skipped path (.encoding failure), ?_, Notice.namesPosition_skipped path failure⟩
    rw [addFile, FileSystem.readSource_eq h, hread, hdecode]
    rfl

/-- A source is read from a file if and only if the bytes of the file are well-formed or are a part of a byte order
mark. In the one case it is the only text that they encode, less one U+FEFF at its start and with its line endings
unified, in the other it is empty. Where the bytes cannot be read, there is one notice, a warning that names the length
of their longest well-formed beginning, counted from behind a byte order mark. -/
theorem readSource_decodes (h : fs.readBytes path = .ok bytes) :
    ((∀ text, fs.readSource path ≠ .ok text) ↔ ¬ Utf8.WellFormed bytes ∧ ¬ Utf8.IsPartOfMark bytes) ∧
      (∀ text, fs.readSource path = .ok text ↔ Utf8.IsPartOfMark bytes ∧ text = [] ∨
        ∃ decoded, (∀ other, Utf8.encode other = bytes ↔ other = decoded) ∧
          text = Text.replaceChar '\r' '\n' (Text.foldBreaks (Utf8.dropMark decoded))) ∧
      (¬ Utf8.WellFormed bytes → ¬ Utf8.IsPartOfMark bytes → ∃ position,
        Utf8.IsLongestWellFormed (Utf8.behindMark bytes) position ∧ ∀ indexing : Indexing, ∃ notice,
          (indexing.addFile fs path).notices = indexing.notices ++ [notice] ∧ notice.NamesPosition path position) := by
  refine ⟨?_, fun text => ?_, Indexing.notices_addFile_of_not_wellFormed h⟩
  · rw [← not_or, ← not_exists, not_iff_not, Utf8.wellFormed_iff]
    constructor
    · rintro ⟨text, htext⟩
      rcases (FileSystem.readSource_eq_ok_iff h).1 htext with ⟨hpart, -⟩ | ⟨decoded, hdecoded, -⟩
      · exact .inr hpart
      · exact .inl ⟨decoded, hdecoded⟩
    · rintro (⟨decoded, hdecoded⟩ | hpart)
      · exact ⟨_, (FileSystem.readSource_eq_ok_iff h).2 (.inr ⟨decoded, hdecoded, rfl⟩)⟩
      · exact ⟨[], (FileSystem.readSource_eq_ok_iff h).2 (.inl ⟨hpart, rfl⟩)⟩
  · rw [FileSystem.readSource_eq_ok_iff h]
    have hunique (decoded : Text) :
        Utf8.encode decoded = bytes ↔ ∀ other, Utf8.encode other = bytes ↔ other = decoded := by
      constructor
      · rintro rfl other
        exact ⟨Utf8.encode_injective, congrArg _⟩
      · exact fun hdecoded => (hdecoded decoded).2 rfl
    exact or_congr_right (exists_congr fun decoded => and_congr_left' (hunique decoded))

/-- A file with a byte order mark and two kinds of line endings, and one in which a character behind the mark is cut
short. -/
def markedFiles : FileSystem :=
  ⟨[([['x']], ⟨.file [0xEF, 0xBB, 0xBF, 0x61, 0x0D, 0x0A, 0x0D], false⟩),
    ([['y']], ⟨.file [0xEF, 0xBB, 0xBF, 0x61, 0xE2, 0x82, 0x41], false⟩)], []⟩

theorem readSource_decodes_markedFiles :
    markedFiles.readBytes ⟨.absolute, [['x']]⟩ = .ok [0xEF, 0xBB, 0xBF, 0x61, 0x0D, 0x0A, 0x0D] ∧
      markedFiles.readSource ⟨.absolute, [['x']]⟩ = .ok ['a', '\n', '\n'] ∧
      markedFiles.readBytes ⟨.absolute, [['y']]⟩ = .ok [0xEF, 0xBB, 0xBF, 0x61, 0xE2, 0x82, 0x41] ∧
      (∀ text, markedFiles.readSource ⟨.absolute, [['y']]⟩ ≠ .ok text) ∧
      ∀ indexing : Indexing, ∃ notice,
        (indexing.addFile markedFiles ⟨.absolute, [['y']]⟩).notices = indexing.notices ++ [notice] ∧
          notice.NamesPosition ⟨.absolute, [['y']]⟩ 1 := by
  have hread : markedFiles.readBytes ⟨.absolute, [['x']]⟩ = .ok [0xEF, 0xBB, 0xBF, 0x61, 0x0D, 0x0A, 0x0D] := by cbv
  have hread' : markedFiles.readBytes ⟨.absolute, [['y']]⟩ = .ok [0xEF, 0xBB, 0xBF, 0x61, 0xE2, 0x82, 0x41] := by cbv
  have hpart : ¬ Utf8.IsPartOfMark [0xEF, 0xBB, 0xBF, 0x61, 0xE2, 0x82, 0x41] := by
    unfold Utf8.IsPartOfMark
    decide
  have hdecode : Utf8.decode (Utf8.behindMark [0xEF, 0xBB, 0xBF, 0x61, 0xE2, 0x82, 0x41]) =
      .error ⟨0xE2, 1, 2, .badContinuation⟩ := by decide
  have hill : ¬ Utf8.WellFormed [0xEF, 0xBB, 0xBF, 0x61, 0xE2, 0x82, 0x41] := by
    intro hwell
    obtain ⟨text, htext⟩ := Utf8.wellFormed_iff.1 hwell
    cases (Utf8.decode_eq_ok_iff.2 htext)
  obtain ⟨-, hok, -⟩ := readSource_decodes hread
  obtain ⟨hnone, -, hnotice⟩ := readSource_decodes hread'
  obtain ⟨position, hlongest, hnotices⟩ := hnotice hill hpart
  obtain rfl := hlongest.unique (Utf8.isLongestWellFormed_of_decode hdecode)
  refine ⟨hread, (hok _).2 (.inr ⟨'\uFEFF' :: "a\r\n\r".toList, fun other => ?_, by decide⟩), hread',
    hnone.2 ⟨hill, hpart⟩, hnotices⟩
  exact ⟨fun hother => Utf8.encode_injective (hother.trans (by decide)), fun hother => hother ▸ by decide⟩

end DirectiveIndex
