import DirectiveIndex.Json
import DirectiveIndex.Proofs.DisplayTexts
import DirectiveIndex.Proofs.JsonReading
import DirectiveIndex.Proofs.Orders

namespace DirectiveIndex

namespace Json

/-- The code points of a text. -/
def codes (text : Text) : List Nat :=
  text.map Char.toNat

mutual

/-- A value as it is read. -/
def toValue : Json → Value
  | string text => .string (codes text)
  | array items => .array (toValues items)
  | object members => .object (toMembers members)

/-- The items of an array as they are read. -/
def toValues : List Json → List Value
  | [] => []
  | item :: items => toValue item :: toValues items

/-- The members of an object as they are read. -/
def toMembers : List (Text × Json) → List (List Nat × Value)
  | [] => []
  | (key, value) :: members => (codes key, toValue value) :: toMembers members

end

/-- The sixteen bit units of a character: itself, or a surrogate pair beyond U+FFFF. -/
def unitsOf (c : Char) : List Nat :=
  if c.toNat ≤ 0xFFFF then [c.toNat]
  else [0xD800 + (c.toNat - 0x10000) / 0x400, 0xDC00 + (c.toNat - 0x10000) % 0x400]

/-- The characters end at U+10FFFF. -/
theorem toNat_lt (c : Char) : c.toNat < 0x110000 := by
  rcases c.valid with h | h
  · exact Nat.lt_trans h (by decide)
  · exact h.2

/-- A character is written in units of sixteen bits. -/
theorem le_of_mem_unitsOf {c : Char} {unit : Nat} (h : unit ∈ unitsOf c) : unit ≤ 0xFFFF := by
  have hlt := toNat_lt c
  unfold unitsOf at h
  split at h
  · simp only [List.mem_singleton] at h
    omega
  · simp only [List.mem_cons, List.not_mem_nil, or_false] at h
    omega

/-- A unit that begins no pair is joined with nothing. -/
theorem joinPairs_cons {unit : Nat} (h : isHighSurrogate unit = false) (units : List Nat) :
    joinPairs (unit :: units) = unit :: joinPairs units := by
  cases units with
  | nil => rfl
  | cons low units => rw [joinPairs, h, Bool.false_and, if_neg Bool.false_ne_true]

/-- No character is the first half of a pair. -/
theorem isHighSurrogate_toNat (c : Char) : isHighSurrogate c.toNat = false := by
  rw [isHighSurrogate, Bool.and_eq_false_iff, decide_eq_false_iff_not, decide_eq_false_iff_not]
  rcases c.valid with h | h
  · exact .inl (Nat.not_le.2 h)
  · refine .inr fun hle => ?_
    have : 0xDFFF < c.toNat := h.1
    omega

/-- The units of a text are joined to its code points: no code point is taken for half of a pair, and the two halves of
a pair are never parted. -/
theorem joinPairs_flatMap_unitsOf (text : Text) : joinPairs (text.flatMap unitsOf) = codes text := by
  induction text with
  | nil => rfl
  | cons c text ih =>
    rw [List.flatMap_cons, unitsOf]
    split
    · rw [List.singleton_append, joinPairs_cons (isHighSurrogate_toNat c), ih]
      rfl
    · have hlt := toNat_lt c
      have hpair : (isHighSurrogate (0xD800 + (c.toNat - 0x10000) / 0x400) &&
          isLowSurrogate (0xDC00 + (c.toNat - 0x10000) % 0x400)) = true := by
        simp only [isHighSurrogate, isLowSurrogate, Bool.and_eq_true, decide_eq_true_eq]
        omega
      rw [List.cons_append, List.singleton_append, joinPairs, if_pos hpair, ih]
      refine congrArg (· :: codes text) ?_
      omega

/-- The three ways to write a character: as a letter behind a backslash, as itself, or by the numbers of its units. -/
theorem escapeChar_cases (c : Char) :
    (∃ letter, escapes.lookup letter = some c ∧ escapeChar c = ['\\', letter] ∧ unitsOf c = [c.toNat]) ∨
      (0x20 ≤ c.toNat ∧ c.toNat ≤ 0x7E ∧ c ≠ '"' ∧ c ≠ '\\' ∧ escapeChar c = [c]) ∨
      escapeChar c = (unitsOf c).flatMap unitEscape := by
  by_cases hletter : ∃ entry ∈ escapes, entry.2 = c ∧ c ≠ '/'
  · obtain ⟨⟨letter, c⟩, hmem, rfl, hslash⟩ := hletter
    have hall : ∀ entry ∈ escapes, entry.2 ≠ '/' → escapes.lookup entry.1 = some entry.2 ∧
        escapeChar entry.2 = ['\\', entry.1] ∧ unitsOf entry.2 = [entry.2.toNat] := by decide
    exact .inl ⟨letter, hall _ hmem hslash⟩
  · have hne : ∀ entry ∈ escapes, entry.2 ≠ '/' → c ≠ entry.2 := by
      rintro entry hmem hslash rfl
      exact hletter ⟨entry, hmem, rfl, hslash⟩
    have hquote : c ≠ '"' := hne ('"', '"') (by decide) (by decide)
    have hbackslash : c ≠ '\\' := hne ('\\', '\\') (by decide) (by decide)
    rw [escapeChar, if_neg hquote, if_neg hbackslash, if_neg (hne ('n', '\n') (by decide) (by decide)),
      if_neg (hne ('r', '\r') (by decide) (by decide)), if_neg (hne ('t', '\t') (by decide) (by decide)),
      if_neg (hne ('b', '\x08') (by decide) (by decide)), if_neg (hne ('f', '\x0c') (by decide) (by decide))]
    by_cases hprintable : 0x20 ≤ c.toNat ∧ c.toNat ≤ 0x7E
    · rw [if_pos hprintable]
      exact .inr (.inl ⟨hprintable.1, hprintable.2, hquote, hbackslash, rfl⟩)
    · rw [if_neg hprintable, unitsOf]
      refine .inr (.inr ?_)
      split <;> simp

variable {body text : Text} {units : List Nat}

/-- Escaped units in front of the inside of a string stand for themselves. -/
theorem denotesUnits_flatMap_unitEscape {codes : List Nat} (hcodes : ∀ unit ∈ codes, unit ≤ 0xFFFF)
    (h : DenotesUnits body units) : DenotesUnits (codes.flatMap unitEscape ++ body) (codes ++ units) := by
  induction codes with
  | nil => exact h
  | cons unit codes ih =>
    obtain ⟨hunit, hrest⟩ := List.forall_mem_cons.1 hcodes
    rw [List.flatMap_cons, List.append_assoc]
    exact .code (Text.length_hex (by decide) (Nat.lt_succ_of_le hunit)) (Text.ofHex?_hex 4 unit) (ih hrest)

/-- What a character is written as denotes the units of the character. -/
theorem denotesUnits_escapeChar (c : Char) (h : DenotesUnits body units) :
    DenotesUnits (escapeChar c ++ body) (unitsOf c ++ units) := by
  rcases escapeChar_cases c with ⟨letter, hletter, hescape, hunits⟩ | ⟨hge, hle, hquote, hbackslash, hescape⟩ | hescape
  · rw [hescape, hunits]
    exact .letter hletter h
  · rw [hescape, unitsOf, if_pos (by omega)]
    exact .plain hge hquote hbackslash h
  · rw [hescape]
    exact denotesUnits_flatMap_unitEscape (fun _ => le_of_mem_unitsOf) h

/-- What a text is written as denotes the units of the text. -/
theorem denotesUnits_flatMap_escapeChar (text : Text) :
    DenotesUnits (text.flatMap escapeChar) (text.flatMap unitsOf) := by
  induction text with
  | nil => exact .nil
  | cons c text ih => exact denotesUnits_escapeChar c ih

/-- A string in quotes denotes its code points. -/
theorem denotes_quote (text : Text) : Denotes (quote text) (.string (codes text)) :=
  joinPairs_flatMap_unitsOf text ▸ .string (denotesUnits_flatMap_escapeChar text)

/-- Whether a layout puts nothing but blanks around items. -/
def Layout.IsBlank : Layout → Prop
  | .compact => True
  | .indented unit => IsGap unit

variable {layout : Layout}

theorem isGap_nil : IsGap [] :=
  List.forall_mem_nil _

/-- The space in front of an item is blank, at any level. -/
theorem isGap_lead (h : layout.IsBlank) (level : Nat) : IsGap (layout.lead level) := by
  cases layout with
  | compact => exact nofun
  | indented unit =>
    refine List.forall_mem_cons.2 ⟨rfl, fun c hc => ?_⟩
    obtain ⟨part, hpart, hc⟩ := List.mem_flatten.1 hc
    exact h c (List.eq_of_mem_replicate hpart ▸ hc)

/-- Items are parted by a comma and blanks. -/
theorem exists_separator (h : layout.IsBlank) (level : Nat) :
    ∃ gap, layout.separator level = ',' :: gap ∧ IsGap gap := by
  cases layout with
  | compact => exact ⟨[' '], rfl, List.forall_mem_singleton.2 rfl⟩
  | indented unit => exact ⟨_, rfl, isGap_lead h level⟩

/-- A member that is written before a value denotes its key with the value. -/
theorem denotesMember_quote {before form after : Text} {value : Value} (hbefore : IsGap before) (key : Text)
    (h : Denotes form value) (hafter : IsGap after) :
    DenotesMember (before ++ (quote key ++ [':', ' '] ++ form) ++ after) (codes key, value) := by
  have hvalue : DenotesSpaced ([' '] ++ (form ++ after)) value := .spaced (List.forall_mem_singleton.2 rfl) h hafter
  have hmember := DenotesMember.member hbefore (denotesUnits_flatMap_escapeChar key) isGap_nil hvalue
  rw [joinPairs_flatMap_unitsOf] at hmember
  simpa [quote] using hmember

mutual

/-- What is written for a value denotes the value, in every layout. -/
theorem denotes_write (hlayout : layout.IsBlank) (level : Nat) :
    ∀ value : Json, Denotes (write layout level value) value.toValue
  | .string text => denotes_quote text
  | .array items => by
    rw [write, toValue, enclose]
    split
    · rename_i hnil
      cases items with
      | nil => exact .emptyArray isGap_nil
      | cons item items => simp [writeItems] at hnil
    · rename_i hne
      exact .array (denotesItems_write hlayout (level + 1) (isGap_lead hlayout (level + 1)) (isGap_lead hlayout level)
        items fun hnil => hne (hnil ▸ rfl))
  | .object members => by
    rw [write, toValue, enclose]
    split
    · rename_i hnil
      cases members with
      | nil => exact .emptyObject isGap_nil
      | cons member members => simp [writeMembers] at hnil
    · rename_i hne
      exact .object (denotesMembers_write hlayout (level + 1) (isGap_lead hlayout (level + 1))
        (isGap_lead hlayout level) members fun hnil => hne (hnil ▸ rfl))

/-- The items of an array, with blanks before the first and after the last. -/
theorem denotesItems_write (hlayout : layout.IsBlank) (level : Nat) {before after : Text} (hbefore : IsGap before)
    (hafter : IsGap after) : ∀ items : List Json, items ≠ [] →
      DenotesItems (before ++ Text.join (layout.separator level) (writeItems layout level items) ++ after)
        (toValues items)
  | [], hne => absurd rfl hne
  | [item], _ => by
    have hitem := DenotesSpaced.spaced hbefore (denotes_write hlayout level item) hafter
    rw [← List.append_assoc] at hitem
    exact .last hitem
  | item :: next :: items, _ => by
    obtain ⟨gap, hseparator, hgap⟩ := exists_separator hlayout level
    have hitem := DenotesSpaced.spaced hbefore (denotes_write hlayout level item) isGap_nil
    have hrest := denotesItems_write hlayout level hgap hafter (next :: items) (List.cons_ne_nil _ _)
    have hmore := DenotesItems.more hitem hrest
    rw [writeItems, writeItems, Text.join_cons_cons, hseparator]
    rw [hseparator] at hmore
    simpa [toValues, writeItems] using hmore

/-- The members of an object, with blanks before the first and after the last. -/
theorem denotesMembers_write (hlayout : layout.IsBlank) (level : Nat) {before after : Text} (hbefore : IsGap before)
    (hafter : IsGap after) : ∀ members : List (Text × Json), members ≠ [] →
      DenotesMembers (before ++ Text.join (layout.separator level) (writeMembers layout level members) ++ after)
        (toMembers members)
  | [], hne => absurd rfl hne
  | [(key, value)], _ => .last (denotesMember_quote hbefore key (denotes_write hlayout level value) hafter)
  | (key, value) :: (next, other) :: members, _ => by
    obtain ⟨gap, hseparator, hgap⟩ := exists_separator hlayout level
    have hmember := denotesMember_quote hbefore key (denotes_write hlayout level value) isGap_nil
    have hrest := denotesMembers_write hlayout level hgap hafter ((next, other) :: members) (List.cons_ne_nil _ _)
    have hmore := DenotesMembers.more hmember hrest
    rw [writeMembers, writeMembers, Text.join_cons_cons, hseparator]
    rw [hseparator] at hmore
    simpa [toMembers, writeMembers] using hmore

end

/-- Whether a text has ASCII characters only. -/
def IsAscii (text : Text) : Prop :=
  ∀ c ∈ text, c.toNat < 0x80

theorem isAscii_append {left right : Text} (hleft : IsAscii left) (hright : IsAscii right) : IsAscii (left ++ right) :=
  List.forall_mem_append.2 ⟨hleft, hright⟩

/-- Blanks are ASCII. -/
theorem isAscii_of_isGap {gap : Text} (h : IsGap gap) : IsAscii gap := by
  intro c hc
  have hblank := h c hc
  simp only [isBlank, Bool.or_eq_true, beq_iff_eq] at hblank
  rcases hblank with ((rfl | rfl) | rfl) | rfl <;> decide

/-- Every character is written in ASCII. -/
theorem isAscii_escapeChar (c : Char) : IsAscii (escapeChar c) := by
  rcases escapeChar_cases c with ⟨letter, hletter, hescape, -⟩ | ⟨-, hle, -, -, hescape⟩ | hescape
  · have hall : ∀ entry ∈ escapes, entry.1.toNat < 0x80 := by decide
    obtain ⟨before, after, hescapes, -⟩ := List.lookup_eq_some_iff.1 hletter
    have hmem : (letter, c) ∈ escapes := hescapes ▸ List.mem_append_right _ List.mem_cons_self
    rw [hescape]
    exact List.forall_mem_cons.2 ⟨by decide, List.forall_mem_singleton.2 (hall _ hmem)⟩
  · rw [hescape]
    exact List.forall_mem_singleton.2 (by omega)
  · rw [hescape]
    refine List.forall_mem_flatMap.2 fun unit _ => ?_
    have hdigits : IsAscii (Text.hex 4 unit) := Text.lt_of_ofHex? (Text.ofHex?_hex 4 unit)
    exact List.forall_mem_cons.2 ⟨by decide, List.forall_mem_cons.2 ⟨by decide, hdigits⟩⟩

/-- Every text is quoted in ASCII. -/
theorem isAscii_quote (text : Text) : IsAscii (quote text) := by
  refine isAscii_append (List.forall_mem_cons.2 ⟨by decide, ?_⟩) (List.forall_mem_singleton.2 (by decide))
  exact List.forall_mem_flatMap.2 fun c _ => isAscii_escapeChar c

theorem isAscii_join {separator : Text} {items : List Text} (hseparator : IsAscii separator)
    (h : ∀ item ∈ items, IsAscii item) : IsAscii (Text.join separator items) := by
  induction items with
  | nil => exact List.forall_mem_nil _
  | cons item items ih =>
    obtain ⟨hitem, hitems⟩ := List.forall_mem_cons.1 h
    cases items with
    | nil => exact hitem
    | cons next items => exact isAscii_append (isAscii_append hitem hseparator) (ih hitems)

/-- Brackets in ASCII around items in ASCII, in a blank layout. -/
theorem isAscii_enclose (hlayout : layout.IsBlank) (level : Nat) {opening closing : Char} {items : List Text}
    (hopening : opening.toNat < 0x80) (hclosing : closing.toNat < 0x80) (h : ∀ item ∈ items, IsAscii item) :
    IsAscii (enclose layout level opening closing items) := by
  have hclosed : IsAscii [closing] := List.forall_mem_singleton.2 hclosing
  have hlead (level : Nat) : IsAscii (layout.lead level) := isAscii_of_isGap (isGap_lead hlayout level)
  have hseparator : IsAscii (layout.separator (level + 1)) := by
    obtain ⟨gap, hseparator, hgap⟩ := exists_separator hlayout (level + 1)
    rw [hseparator]
    exact List.forall_mem_cons.2 ⟨by decide, isAscii_of_isGap hgap⟩
  unfold enclose
  split
  · exact List.forall_mem_cons.2 ⟨hopening, hclosed⟩
  · have hopened : IsAscii (opening :: layout.lead (level + 1)) := List.forall_mem_cons.2 ⟨hopening, hlead (level + 1)⟩
    exact isAscii_append (isAscii_append (isAscii_append hopened (isAscii_join hseparator h)) (hlead level)) hclosed

mutual

/-- What is written is ASCII, whatever characters the strings have. -/
theorem isAscii_write (hlayout : layout.IsBlank) (level : Nat) : ∀ value : Json, IsAscii (write layout level value)
  | .string text => isAscii_quote text
  | .array items => isAscii_enclose hlayout level (by decide) (by decide) (isAscii_writeItems hlayout (level + 1) items)
  | .object members =>
    isAscii_enclose hlayout level (by decide) (by decide) (isAscii_writeMembers hlayout (level + 1) members)

theorem isAscii_writeItems (hlayout : layout.IsBlank) (level : Nat) :
    ∀ (items : List Json), ∀ item ∈ writeItems layout level items, IsAscii item
  | [] => List.forall_mem_nil _
  | item :: items =>
    List.forall_mem_cons.2 ⟨isAscii_write hlayout level item, isAscii_writeItems hlayout level items⟩

theorem isAscii_writeMembers (hlayout : layout.IsBlank) (level : Nat) :
    ∀ (members : List (Text × Json)), ∀ member ∈ writeMembers layout level members, IsAscii member
  | [] => List.forall_mem_nil _
  | (key, value) :: members => by
    have hcolon : IsAscii [':', ' '] := List.forall_mem_cons.2 ⟨by decide, List.forall_mem_singleton.2 (by decide)⟩
    exact List.forall_mem_cons.2
      ⟨isAscii_append (isAscii_append (isAscii_quote key) hcolon) (isAscii_write hlayout level value),
        isAscii_writeMembers hlayout level members⟩

end

/-- Every value is written in ASCII, in a blank layout. -/
theorem isAscii_text (hlayout : layout.IsBlank) (value : Json) : IsAscii (value.text layout) :=
  isAscii_write hlayout 0 value

/-- What is written as JSON is read back, in every layout. -/
theorem read_text (hlayout : layout.IsBlank) (value : Json) : read (value.text layout) = some value.toValue := by
  have hspaced := DenotesSpaced.spaced isGap_nil (denotes_write hlayout 0 value) isGap_nil
  rw [List.append_nil] at hspaced
  exact read_eq_some_iff.2 hspaced

/-- The layout for an indentation: on one line if there is none, and else that many spaces for each level. -/
def Layout.ofIndent : Option Int → Layout
  | none => .compact
  | some width => .spaces width

/-- Every indent gives a blank layout. -/
theorem isBlank_ofIndent (indent : Option Int) : (Layout.ofIndent indent).IsBlank := by
  cases indent with
  | none => trivial
  | some width => exact fun c hc => List.eq_of_mem_replicate hc ▸ rfl

/-- An array of strings as it is read. -/
def stringValues (texts : List Text) : Value :=
  .array (texts.map fun text => .string (codes text))

/-- The value of a list of texts. -/
theorem toValue_ofTexts (texts : List Text) : (ofTexts texts).toValue = stringValues texts := by
  have hitems : toValues (texts.map string) = texts.map fun text => .string (codes text) := by
    induction texts with
    | nil => rfl
    | cons text texts ih => rw [List.map_cons, toValues, ih, toValue, List.map_cons]
  rw [ofTexts, toValue, hitems, stringValues]

end Json

/-- A file's metadata as it is read. -/
def Metadata.toValue (metadata : Metadata) : Json.Value :=
  .object
    [(Json.codes "imports".toList, Json.stringValues metadata.imports),
      (Json.codes "solidity".toList, Json.stringValues metadata.solidity)]

/-- A report as it is read. -/
def Report.toValue (report : Report) : Json.Value :=
  .object
    [(Json.codes "files".toList, .object (report.files.map fun entry => (Json.codes entry.1, entry.2.toValue))),
      (Json.codes "failures".toList, Json.stringValues report.failures)]

/-- The value that metadata is exported as. -/
theorem Metadata.toValue_toJson (metadata : Metadata) : metadata.toJson.toValue = metadata.toValue := by
  simp only [toJson, toValue, Json.toValue, Json.toMembers, Json.toValue_ofTexts]

/-- The value that a report is exported as. -/
theorem Report.toValue_toJson (report : Report) : report.toJson.toValue = report.toValue := by
  have hfiles : Json.toMembers (report.files.map fun entry => (entry.1, entry.2.toJson)) =
      report.files.map fun entry => (Json.codes entry.1, entry.2.toValue) := by
    generalize report.files = files
    induction files with
    | nil => rfl
    | cons entry files ih => rw [List.map_cons, Json.toMembers, ih, Metadata.toValue_toJson, List.map_cons]
  simp only [toJson, toValue, Json.toValue, Json.toMembers, hfiles, Json.toValue_ofTexts]

/-- A report as JSON. If no path that is shown leads into a loop of links, the report is made, and its text, in each
layout, is ASCII and read back as the report: the files by their display texts, each once and in order, with their
lists as they are, and the display texts of the failures, sorted by code points. The reader that does so takes JSON
and nothing else. -/
theorem Report.read_toJson {fs : FileSystem} {frame : Frame} {index : Index} {includeEmpty : Bool}
    (hresolve : ∀ path ∈ (index.listed includeEmpty).map (·.1) ++ index.failures,
      ∀ place ∈ [path, frame.base, frame.root], ∀ failure, fs.resolve place = .error failure → failure = .nulCharacter)
    (indent : Option Int) :
    (∀ text value, Json.read text = some value ↔ Json.DenotesSpaced text value) ∧
      ∃ name : Path → Text,
        (∀ path ∈ (index.listed includeEmpty).map (·.1) ++ index.failures, fs.display frame path = .ok (name path)) ∧
        ∃ report, Report.ofIndex fs frame includeEmpty index = .ok report ∧
          report.files = .ofList ((index.listed includeEmpty).map fun entry => (name entry.1, entry.2)) ∧
          (report.files.map (·.1)).Nodup ∧
          report.failures.Perm (index.failures.map name) ∧
          report.failures.Pairwise (fun a b => Text.le a b = true) ∧
          Json.IsAscii (report.toJson.text (.ofIndent indent)) ∧
          Json.read (report.toJson.text (.ofIndent indent)) =
            some (.object
              [(Json.codes "files".toList, .object (report.files.map fun entry =>
                  (Json.codes entry.1, .object
                    [(Json.codes "imports".toList, Json.stringValues entry.2.imports),
                      (Json.codes "solidity".toList, Json.stringValues entry.2.solidity)]))),
                (Json.codes "failures".toList, Json.stringValues report.failures)]) := by
  have hname : ∀ path ∈ (index.listed includeEmpty).map (·.1) ++ index.failures,
      fs.display frame path = .ok ((fs.display frame path).toOption.getD []) := by
    intro path hpath
    obtain ⟨text, htext⟩ := Frame.exists_display_eq_ok (hresolve path hpath)
    rw [htext]
    rfl
  have hblank := Json.isBlank_ofIndent indent
  refine ⟨fun _ _ => Json.read_eq_some_iff, _, hname, _, ofIndex_eq_of_listed hname, rfl,
    OrderedMap.nodup_keys_ofList _, List.mergeSort_perm _ _, Text.pairwise_sort _, Json.isAscii_text hblank _, ?_⟩
  rw [Json.read_text hblank, toValue_toJson]
  rfl

/-- A file whose import holds a quote, a control character and one beyond U+FFFF. -/
def escapedIndex : Index :=
  ⟨[(⟨.absolute, [['r'], ['a'], ['x']]⟩, ⟨[['"', '\x7f', '𝄞']], []⟩)], [⟨.absolute, [['r'], ['x']]⟩]⟩

theorem Report.read_toJson_escaped :
    ∃ report, Report.ofIndex twinFiles twinFrame true escapedIndex = .ok report ∧
      Json.read (report.toJson.text (.ofIndent none)) =
        some (.object
          [(Json.codes "files".toList, .object
              [(Json.codes ['x'], .object
                [(Json.codes "imports".toList, .array [.string [0x22, 0x7F, 0x1D11E]]),
                  (Json.codes "solidity".toList, .array [])])]),
            (Json.codes "failures".toList, .array [.string [0x78]])]) := by
  have hresolve : ∀ path ∈ (escapedIndex.listed true).map (·.1) ++ escapedIndex.failures,
      ∀ place ∈ [path, twinFrame.base, twinFrame.root], ∀ failure, twinFiles.resolve place = .error failure →
        failure = .nulCharacter := by
    intro path hpath place hplace failure hfailure
    have hresolved : ∀ path ∈ escapedIndex.paths ++ escapedIndex.failures ++ [twinFrame.base, twinFrame.root],
        path.IsProper ∧ twinFiles.resolve path = .ok path :=
      resolve_twinFiles (by decide)
    have hmem : place ∈ escapedIndex.paths ++ escapedIndex.failures ++ [twinFrame.base, twinFrame.root] := by
      rcases List.mem_cons.1 hplace with rfl | hplace
      · exact List.mem_append_left _ hpath
      · exact List.mem_append_right _ hplace
    cases (hresolved place hmem).2.symm.trans hfailure
  obtain ⟨-, _, -, report, hreport, -, -, -, -, -, hread⟩ := Report.read_toJson hresolve none
  have heq := Except.ok.inj ((ofIndex_twinFiles (by decide) true).symm.trans hreport)
  have hfailures : report.failures = [['x']] := heq ▸ List.mergeSort_singleton _
  have hfiles : report.files = [(['x'], ⟨[['"', '\x7f', '𝄞']], []⟩)] := heq ▸ rfl
  rw [hfiles, hfailures] at hread
  exact ⟨report, hreport, hread⟩

end DirectiveIndex
