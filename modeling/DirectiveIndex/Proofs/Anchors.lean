import DirectiveIndex.Proofs.Lexer

namespace DirectiveIndex

namespace Sign

/-- What the scanner looks for where the sign begins. -/
def pattern : Sign → Pattern
  | .keyword word => .keyword word.text
  | .comment kind => .literal kind.opening
  | .quote mark => .literal [mark.char]
  | .semicolon => semicolonPattern
  | .identifier => .identifier

/-- How many characters the sign covers at a place where it begins. -/
def width (place : Cursor) : Sign → Nat
  | .keyword word => word.text.length
  | .comment _ => 2
  | .quote _ | .semicolon => 1
  | .identifier => place.word.length

/-- The signs that a label is given to, as anchors. -/
def anchors {κ : Type} (label? : Sign → Option κ) : List (Anchor κ) :=
  all.filterMap fun sign => (label? sign).map fun label => ⟨label, sign.pattern⟩

/-- The opener that a sign is in a statement that awaits a string. -/
def opener? : Sign → Option Opener
  | .keyword word => some (.keyword word)
  | .comment kind => some (.comment kind)
  | .quote mark => some (.quote mark)
  | .semicolon | .identifier => none

/-- The mark that a sign is in the value of a pragma. -/
def statementMark? : Sign → Option StatementMark
  | .semicolon => some .semicolon
  | sign => sign.opener?.map .opener

/-- The mark that a sign is where a pragma awaits its name, which a quote is not. -/
def nameMark? : Sign → Option NameMark
  | .keyword word => some (.keyword word)
  | .comment kind => some (.comment kind)
  | .quote _ => none
  | .semicolon => some .semicolon
  | .identifier => some .name

end Sign

/-- The openers are searched for in the order of the signs. -/
theorem openers_eq : openers = Sign.anchors Sign.opener? := rfl

/-- The marks of a value are searched for in the order of the signs. -/
theorem statementMarks_eq : statementMarks = Sign.anchors Sign.statementMark? := rfl

/-- The marks of a name are searched for in the order of the signs. -/
theorem nameMarks_eq : nameMarks = Sign.anchors Sign.nameMark? := rfl

theorem Keyword.length_text (word : Keyword) : word.text.length = 6 := by
  cases word <;> rfl

theorem Keyword.all_text (word : Keyword) : word.text.all Text.isIdentifier = true := by
  cases word <;> decide

/-- Without an identifier character at its beginning, a text begins with no word. -/
theorem Pattern.takeWhile_of_startsIdentifier {text : Text} (h : startsIdentifier text = false) :
    text.takeWhile Text.isIdentifier = [] := by
  cases text with
  | nil => rfl
  | cons c text => exact List.takeWhile_cons_of_neg (Bool.eq_false_iff.1 h)

private theorem isPrefixOf_and_eq_takeWhile {word rest : Text} (hall : word.all Text.isIdentifier = true) :
    (word.isPrefixOf rest && !Pattern.startsIdentifier (rest.drop word.length)) =
      decide (rest.takeWhile Text.isIdentifier = word) := by
  induction word generalizing rest with
  | nil =>
    cases rest with
    | nil => rfl
    | cons b rest => cases hb : Text.isIdentifier b <;> simp [Pattern.startsIdentifier, hb]
  | cons a word ih =>
    rw [List.all_cons, Bool.and_eq_true] at hall
    cases rest with
    | nil => rfl
    | cons b rest =>
      rw [List.isPrefixOf_cons_cons, List.length_cons, List.drop_succ_cons, Bool.and_assoc, ih hall.2]
      by_cases hab : a = b
      · subst hab
        simp [hall.1]
      · cases hb : Text.isIdentifier b <;> simp [hab, hb, Ne.symm hab]

/-- A keyword begins at a place if the word ahead is the keyword and none has been begun before. -/
theorem Sign.beginsAt_keyword (word : Keyword) (place : Cursor) :
    (Sign.keyword word).beginsAt place = (decide (place.word = word.text) && !place.last?.any Text.isIdentifier) := by
  rw [Cursor.word, ← isPrefixOf_and_eq_takeWhile word.all_text]
  simp only [Sign.beginsAt, Bool.and_assoc, Bool.and_comm (!place.last?.any Text.isIdentifier)]

namespace Cursor

private theorem findSome?_filterMap {α β γ : Type} (f : α → Option β) (g : β → Option γ) (l : List α) :
    (l.filterMap f).findSome? g = l.findSome? fun a => (f a).bind g := by
  induction l with
  | nil => rfl
  | cons a l ih =>
    rw [List.filterMap_cons, List.findSome?_cons]
    cases h : f a with
    | none => simpa using ih
    | some b => simp [List.findSome?_cons, ih]

/-- Taking the first hit among the elements that pass a test is to look at the first one that passes,
    provided that one without a hit rules out all later ones. -/
private theorem findSome?_eq_bind {α β : Type} {test : α → Bool} {f : α → Option β} {l : List α}
    (hlater : l.Pairwise fun a b => test a = true → f a = none → test b = false) :
    (l.findSome? fun a => if test a then f a else none) = (l.find? test).bind f := by
  induction l with
  | nil => rfl
  | cons a l ih =>
    obtain ⟨hhead, htail⟩ := List.pairwise_cons.1 hlater
    rw [List.findSome?_cons, List.find?_cons]
    cases ha : test a with
    | false => simpa using ih htail
    | true =>
      cases hf : f a with
      | some b => simp [hf]
      | none =>
        have hnone : ∀ b ∈ l, (if test b then f b else none) = none := by
          intro b hb
          simp [hhead b hb ha hf]
        simpa [hf] using hnone

private theorem beginsAt_of_singleton {place : Cursor} {c : Char} (h : [c].isPrefixOf place.rest = true)
    {sign : Sign} (hsign : ∀ tail, sign.beginsAt ⟨place.last?, place.offset, c :: tail⟩ = false) :
    sign.beginsAt place = false := by
  obtain ⟨last?, offset, _ | ⟨d, tail⟩⟩ := place
  · simp at h
  · simp only [List.isPrefixOf_cons_cons, List.isPrefixOf_nil_left, Bool.and_true, beq_iff_eq] at h
    exact h ▸ hsign tail

/-- The pattern of a sign matches exactly where the sign begins. -/
theorem width?_pattern (place : Cursor) (sign : Sign) :
    sign.pattern.width? place.last? place.rest =
      if sign.beginsAt place then some (sign.width place) else none := by
  cases sign with
  | comment kind => cases kind <;> rfl
  | _ => rfl

/-- At any place the scanner finds the sign that begins there, if it is one of those looked for.
    Keywords and comments must be looked for, since no other sign hides a later one. -/
theorem foundHere?_anchors {κ : Type} (label? : Sign → Option κ) (place : Cursor)
    (hkeyword : ∀ word, (label? (.keyword word)).isSome) (hcomment : ∀ kind, (label? (.comment kind)).isSome) :
    place.foundHere? (Sign.anchors label?) = place.sign?.bind fun sign =>
      (label? sign).map fun label =>
        (⟨label, place.offset, place.offset + sign.width place⟩, place.skip (sign.width place)) := by
  have hunfold : place.foundHere? (Sign.anchors label?) = Sign.all.findSome? fun sign =>
      if sign.beginsAt place then
        (label? sign).map fun label =>
          (⟨label, place.offset, place.offset + sign.width place⟩, place.skip (sign.width place))
      else
        none := by
    simp only [foundHere?, Sign.anchors, findSome?_filterMap]
    congr
    funext sign
    cases label? sign <;> simp [width?_pattern]
  rw [hunfold, sign?]
  apply findSome?_eq_bind
  have hword (word : Keyword) : label? (.keyword word) ≠ none := Option.isSome_iff_ne_none.1 (hkeyword word)
  have hkind (kind : CommentKind) : label? (.comment kind) ≠ none := Option.isSome_iff_ne_none.1 (hcomment kind)
  simp only [Sign.all, List.pairwise_cons, Option.map_eq_none_iff]
  simp only [List.mem_cons, List.not_mem_nil, or_false, hword, false_implies, implies_true, hkind,
    forall_eq_or_imp, forall_eq, List.Pairwise.nil, and_self, and_true, true_and]
  refine ⟨⟨?_, ?_, ?_⟩, ⟨?_, ?_⟩, ?_⟩ <;>
    exact fun h _ => beginsAt_of_singleton h fun _ => rfl

/-- Nothing begins at the end of the source. -/
theorem sign?_nil (last? : Option Char) (offset : Nat) : sign? ⟨last?, offset, []⟩ = none :=
  rfl

/-- A quote begins a string whatever stands around it. -/
theorem sign?_quote (mark : Quote) (last? : Option Char) (offset : Nat) (rest : Text) :
    sign? ⟨last?, offset, mark.char :: rest⟩ = some (.quote mark) := by
  cases mark <;> rfl

/-- A keyword is told before everything else that may begin at its place. -/
theorem sign?_keyword {word : Keyword} {place : Cursor} (h : (Sign.keyword word).beginsAt place = true) :
    place.sign? = some (.keyword word) := by
  have hother (other : Keyword) (hne : other ≠ word) : (Sign.keyword other).beginsAt place = false := by
    rw [Sign.beginsAt_keyword, Bool.and_eq_true, decide_eq_true_iff] at h
    rw [Sign.beginsAt_keyword, h.1]
    cases other <;> cases word <;> first | rfl | exact absurd rfl hne
  cases word with
  | importWord => simp only [sign?, Sign.all, List.find?_cons, h]
  | pragmaWord => simp only [sign?, Sign.all, List.find?_cons, h, hother .importWord Keyword.noConfusion]

/-- Where a string begins, its mark stands. -/
theorem rest_of_sign?_quote {place : Cursor} {mark : Quote} (hsign : place.sign? = some (.quote mark)) :
    ∃ tail, place.rest = mark.char :: tail := by
  have hbegins : (Sign.quote mark).beginsAt place = true := List.find?_some hsign
  obtain ⟨tail, htail⟩ := List.isPrefixOf_iff_prefix.1 hbegins
  exact ⟨tail, htail.symm⟩

theorem skip_nil (n : Nat) (last? : Option Char) (offset : Nat) :
    skip n ⟨last?, offset, []⟩ = ⟨last?, offset, []⟩ := by
  cases n <;> rfl

theorem skip_cons (n : Nat) (last? : Option Char) (offset : Nat) (c : Char) (rest : Text) :
    skip (n + 1) ⟨last?, offset, c :: rest⟩ = skip n ⟨some c, offset + 1, rest⟩ :=
  rfl

theorem skip_skip (m n : Nat) (place : Cursor) : (place.skip m).skip n = place.skip (m + n) := by
  induction m generalizing place with
  | zero => rw [Nat.zero_add]; rfl
  | succ m ih =>
    obtain ⟨last?, offset, _ | ⟨c, rest⟩⟩ := place
    · simp [skip_nil]
    · rw [skip_cons, ih, Nat.succ_add, skip_cons]

/-- Characters that are there move the offset. -/
theorem offset_skip {n : Nat} {place : Cursor} (h : n ≤ place.rest.length) :
    (place.skip n).offset = place.offset + n := by
  induction n generalizing place with
  | zero => rfl
  | succ n ih =>
    obtain ⟨last?, offset, _ | ⟨c, rest⟩⟩ := place
    · simp at h
    · rw [skip_cons, ih (by simpa using h)]
      dsimp only
      omega

/-- A text is skipped up to what stands behind it. -/
theorem skip_append (last? : Option Char) (offset : Nat) (text rest : Text) :
    ∃ last'?, skip text.length ⟨last?, offset, text ++ rest⟩ = ⟨last'?, offset + text.length, rest⟩ := by
  induction text generalizing last? offset with
  | nil => exact ⟨last?, rfl⟩
  | cons c text ih =>
    obtain ⟨last'?, h⟩ := ih (some c) (offset + 1)
    rw [Nat.add_right_comm] at h
    exact ⟨last'?, h⟩

/-- The text up to an offset is the text up to a place before it and the text from there on. -/
theorem textTo_append {cursor place : Cursor} {stop : Nat} (hle : cursor.offset ≤ place.offset)
    (hrest : place.rest = cursor.rest.drop (place.offset - cursor.offset)) (hstop : place.offset ≤ stop) :
    cursor.textTo stop = cursor.textTo place.offset ++ place.textTo stop := by
  rw [textTo, textTo, textTo, hrest, ← List.take_add]
  congr 1
  omega

/-- Looking for an anchor is to look at the place itself first and then from the next one on. -/
theorem advance?_cons {κ : Type} {anchors : List (Anchor κ)}
    (hend : ∀ last? offset, foundHere? anchors ⟨last?, offset, []⟩ = none)
    (last? : Option Char) (offset : Nat) (c : Char) (rest : Text) :
    advance? anchors ⟨last?, offset, c :: rest⟩ =
      (foundHere? anchors ⟨last?, offset, c :: rest⟩).or (advance? anchors ⟨some c, offset + 1, rest⟩) := by
  cases rest with
  | nil => simp [advance?, atEnd, search, hend]
  | cons d rest => rfl

/-- Where no anchor is found ahead, none occurs at any place ahead. -/
theorem advance?_eq_none {κ : Type} {anchors : List (Anchor κ)}
    (hend : ∀ last? offset, foundHere? anchors ⟨last?, offset, []⟩ = none) {cursor : Cursor}
    (h : cursor.advance? anchors = none) {k : Nat} (hk : k < cursor.rest.length) :
    (cursor.skip k).foundHere? anchors = none := by
  obtain ⟨last?, offset, rest⟩ := cursor
  induction rest generalizing last? offset k with
  | nil => simp at hk
  | cons c rest ih =>
    rw [advance?_cons hend, Option.or_eq_none_iff] at h
    cases k with
    | zero => exact h.1
    | succ k => exact ih _ _ h.2 (by simpa using hk)

/-- The anchor found ahead occurs at a place that no other one comes before. -/
theorem advance?_eq_some {κ : Type} {anchors : List (Anchor κ)}
    (hend : ∀ last? offset, foundHere? anchors ⟨last?, offset, []⟩ = none) {cursor next : Cursor}
    {found : Found κ} (h : cursor.advance? anchors = some (found, next)) :
    ∃ k < cursor.rest.length, (cursor.skip k).foundHere? anchors = some (found, next) ∧
      ∀ j < k, (cursor.skip j).foundHere? anchors = none := by
  obtain ⟨last?, offset, rest⟩ := cursor
  induction rest generalizing last? offset with
  | nil => simp [advance?, atEnd] at h
  | cons c rest ih =>
    rw [advance?_cons hend, Option.or_eq_some_iff] at h
    rcases h with hhere | ⟨hnone, hlater⟩
    · exact ⟨0, by simp, hhere, by simp⟩
    · obtain ⟨k, hk, hfound, hearlier⟩ := ih _ _ hlater
      refine ⟨k + 1, by simpa using hk, hfound, ?_⟩
      intro j hj
      cases j with
      | zero => exact hnone
      | succ j => exact hearlier j (by omega)

/-- A comment ends at the place itself, or where it ends from the next place on. -/
theorem skipComment_cons (kind : CommentKind) (last? : Option Char) (offset : Nat) (c : Char) (rest : Text) :
    skipComment kind ⟨last?, offset, c :: rest⟩ =
      match kind.closing.width? last? (c :: rest) with
      | some n => skip n ⟨last?, offset, c :: rest⟩
      | none => skipComment kind ⟨some c, offset + 1, rest⟩ := by
  have hend : ∀ last? offset, foundHere? [⟨(), kind.closing⟩] ⟨last?, offset, []⟩ = none := by
    cases kind <;> simp [foundHere?, CommentKind.closing, Pattern.width?]
  rw [skipComment, advance, advance?_cons hend]
  simp only [foundHere?, List.findSome?_cons, List.findSome?_nil]
  cases kind.closing.width? last? (c :: rest) with
  | some n => rfl
  | none =>
    simp only [Option.map_none, Option.none_or, skipComment, advance]
    split <;> rfl

/-- A string literal ends at the place itself, or where it ends from the next place on. -/
theorem readString_cons (mark : Quote) (last? : Option Char) (offset : Nat) (c : Char) (rest : Text) :
    readString mark ⟨last?, offset, c :: rest⟩ =
      if c = mark.char then ([], ⟨some c, offset + 1, rest⟩)
      else (c :: (readString mark ⟨some c, offset + 1, rest⟩).1, (readString mark ⟨some c, offset + 1, rest⟩).2) := by
  have hend : ∀ last? offset, foundHere? [mark.anchor] ⟨last?, offset, []⟩ = none := by
    simp [foundHere?, Quote.anchor, Pattern.width?]
  rw [readString, advance?_cons hend]
  by_cases hc : c = mark.char
  · have hhere : foundHere? [mark.anchor] ⟨last?, offset, c :: rest⟩ =
        some (⟨mark, offset, offset + 1⟩, ⟨some c, offset + 1, rest⟩) := by
      simp [foundHere?, Quote.anchor, Pattern.width?, hc, skip]
    rw [hhere, if_pos hc]
    simp [textTo]
  · have hhere : foundHere? [mark.anchor] ⟨last?, offset, c :: rest⟩ = none := by
      simp [foundHere?, Quote.anchor, Pattern.width?, Ne.symm hc]
    rw [hhere, Option.none_or, if_neg hc, readString]
    cases hfound : advance? [mark.anchor] ⟨some c, offset + 1, rest⟩ with
    | none => rfl
    | some pair =>
      obtain ⟨found, after⟩ := pair
      obtain ⟨k, hk, hplace, _⟩ := advance?_eq_some hend hfound
      obtain ⟨anchor, _, n, _, rfl, _⟩ := foundHere?_rest hplace
      have hlength : (offset + 1 + k) - offset = (offset + 1 + k) - (offset + 1) + 1 := by omega
      simp only [textTo, offset_skip (Nat.le_of_lt hk), Prod.mk.injEq, and_true]
      rw [hlength, List.take_succ_cons]

/-- A string is read up to the first mark that closes it. -/
theorem readString_append (mark : Quote) {content : Text} (h : mark.char ∉ content) (last? : Option Char)
    (offset : Nat) (rest : Text) :
    readString mark ⟨last?, offset, content ++ mark.char :: rest⟩ =
      (content, ⟨some mark.char, offset + content.length + 1, rest⟩) := by
  induction content generalizing last? offset with
  | nil =>
    rw [List.nil_append, readString_cons, if_pos rfl]
    rfl
  | cons c content ih =>
    rw [List.mem_cons, not_or] at h
    rw [List.cons_append, readString_cons, if_neg (Ne.symm h.1), ih h.2, List.length_cons, Nat.add_right_comm offset,
      Nat.add_assoc offset]

/-- A string that is never closed is read to the end. -/
theorem readString_of_not_mem {mark : Quote} {cursor : Cursor} (h : mark.char ∉ cursor.rest) :
    cursor.readString mark = (cursor.rest, cursor.toEnd) := by
  obtain ⟨last?, offset, rest⟩ := cursor
  induction rest generalizing last? offset with
  | nil => rfl
  | cons c rest ih =>
    rw [List.mem_cons, not_or] at h
    rw [readString_cons, if_neg (Ne.symm h.1), ih _ _ h.2]
    rfl

/-- The content of a string is what stands before the first mark. -/
theorem readString_fst (mark : Quote) (cursor : Cursor) :
    (cursor.readString mark).1 = cursor.rest.takeWhile (· != mark.char) := by
  obtain ⟨last?, offset, rest⟩ := cursor
  induction rest generalizing last? offset with
  | nil => rfl
  | cons c rest ih =>
    rw [readString_cons, List.takeWhile_cons]
    by_cases hc : c = mark.char
    · simp [hc]
    · simp [hc, ih]

/-- A string literal is read forwards. -/
theorem offset_le_readString (mark : Quote) (cursor : Cursor) :
    cursor.offset ≤ (cursor.readString mark).2.offset := by
  obtain ⟨last?, offset, rest⟩ := cursor
  induction rest generalizing last? offset with
  | nil => exact Nat.le.refl
  | cons c rest ih =>
    rw [readString_cons]
    split
    · exact Nat.le_succ offset
    · exact Nat.le_of_succ_le (ih (some c) (offset + 1))

end Cursor

end DirectiveIndex
