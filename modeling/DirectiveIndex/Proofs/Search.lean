import DirectiveIndex.Proofs.Anchors
import DirectiveIndex.Proofs.Pass

namespace DirectiveIndex

namespace Mode

/-- The mode behind several characters none of which is part of a comment. -/
def captureAll (mode : Mode) (text : Text) : Mode :=
  text.foldl capture mode

/-- Whether a sign means something in the mode. -/
def heeds : Mode → Sign → Bool
  | .top, sign | .importing _, sign => sign.opener?.isSome
  | .naming _, sign => sign.nameMark?.isSome
  | .valuing _ _ _, sign => sign.statementMark?.isSome

@[simp]
theorem heeds_capture (mode : Mode) (c : Char) : (mode.capture c).heeds = mode.heeds := by
  cases mode <;> rfl

@[simp]
theorem isNaming_capture (mode : Mode) (c : Char) : (mode.capture c).isNaming = mode.isNaming := by
  cases mode <;> rfl

@[simp]
theorem isImporting_capture (mode : Mode) (c : Char) : (mode.capture c).isImporting = mode.isImporting := by
  cases mode <;> rfl

@[simp]
theorem isNaming_captureAll (mode : Mode) (text : Text) : (mode.captureAll text).isNaming = mode.isNaming := by
  induction text generalizing mode with
  | nil => rfl
  | cons c text ih => exact (ih (mode.capture c)).trans (isNaming_capture mode c)

@[simp]
theorem isImporting_captureAll (mode : Mode) (text : Text) :
    (mode.captureAll text).isImporting = mode.isImporting := by
  induction text generalizing mode with
  | nil => rfl
  | cons c text ih => exact (ih (mode.capture c)).trans (isImporting_capture mode c)

/-- Texts are captured one behind the other. -/
theorem captureAll_append (mode : Mode) (text more : Text) :
    mode.captureAll (text ++ more) = (mode.captureAll text).captureAll more :=
  List.foldl_append

@[simp]
theorem captureAll_top (text : Text) : captureAll .top text = .top := by
  induction text with
  | nil => rfl
  | cons c text ih => exact ih

@[simp]
theorem captureAll_importing (start : Nat) (text : Text) : captureAll (.importing start) text = .importing start := by
  induction text with
  | nil => rfl
  | cons c text ih => exact ih

@[simp]
theorem captureAll_naming (start : Nat) (text : Text) : captureAll (.naming start) text = .naming start := by
  induction text with
  | nil => rfl
  | cons c text ih => exact ih

@[simp]
theorem captureAll_valuing (start : Nat) (name captured text : Text) :
    captureAll (.valuing start name captured) text = .valuing start name (captured ++ text) := by
  induction text generalizing captured with
  | nil => simp [captureAll]
  | cons c text ih => exact (ih (captured ++ [c])).trans (by simp)

/-- The anchors are those of the signs that mean something in the mode, and these can be told by their labels. -/
structure Seeks {κ : Type} (mode : Mode) (anchors : List (Anchor κ)) (label? : Sign → Option κ) : Prop where
  anchors_eq : anchors = Sign.anchors label?
  keyword : ∀ word, (label? (.keyword word)).isSome
  comment : ∀ kind, (label? (.comment kind)).isSome
  heeds : ∀ sign, mode.heeds sign = (label? sign).isSome
  inj : ∀ {sign other label}, label? sign = some label → label? other = some label → sign = other

/-- An open import awaits the openers. -/
theorem seeks_importing (start : Nat) : Seeks (.importing start) openers Sign.opener? where
  anchors_eq := openers_eq
  keyword _ := rfl
  comment _ := rfl
  heeds _ := rfl
  inj := by intro sign other label; cases sign <;> cases other <;> grind [Sign.opener?]

/-- Outside directives the openers are awaited. -/
theorem seeks_top : Seeks .top openers Sign.opener? :=
  { seeks_importing 0 with heeds := fun _ => rfl }

/-- A pragma without a name awaits the marks of names. -/
theorem seeks_naming (start : Nat) : Seeks (.naming start) nameMarks Sign.nameMark? where
  anchors_eq := nameMarks_eq
  keyword _ := rfl
  comment _ := rfl
  heeds _ := rfl
  inj := by intro sign other label; cases sign <;> cases other <;> grind [Sign.nameMark?]

/-- A pragma with a name awaits the marks that end a statement. -/
theorem seeks_valuing (start : Nat) (name captured : Text) :
    Seeks (.valuing start name captured) statementMarks Sign.statementMark? where
  anchors_eq := statementMarks_eq
  keyword _ := rfl
  comment _ := rfl
  heeds _ := rfl
  inj := by
    intro sign other label
    cases sign <;> cases other <;> grind [Sign.statementMark?, Sign.opener?]

end Mode

namespace Pass

/-- The characters of a word that has been read are passed over. -/
theorem runFrom_due (mode : Mode) (lexer : Lexer) (due : Nat) (place : Cursor) :
    runFrom ⟨mode, lexer, due⟩ place = runFrom ⟨mode, lexer, 0⟩ (place.skip due) := by
  induction due generalizing place with
  | zero => rfl
  | succ due ih =>
    obtain ⟨last?, offset, _ | ⟨c, rest⟩⟩ := place
    · rfl
    · exact ih ⟨some c, offset + 1, rest⟩

/-- What a mode does not heed is passed over like any other character. -/
theorem meet_of_not_heeded {mode : Mode} {place : Cursor} {sign? : Option Sign} (c : Char)
    (h : ∀ sign, sign? = some sign → mode.heeds sign = false) :
    meet mode place c sign? = (none, ⟨mode.capture c, .code, 0⟩) := by
  cases sign? with
  | none => rfl
  | some sign =>
    have hsign := h sign rfl
    cases mode <;> cases sign <;> first | rfl | cases hsign

/-- Between two signs that mean something the pass only collects characters. -/
theorem runFrom_skip {mode : Mode} {place : Cursor} {k : Nat} (hk : k ≤ place.rest.length)
    (hidle : ∀ j < k, ∀ sign, (place.skip j).sign? = some sign → mode.heeds sign = false) :
    runFrom ⟨mode, .code, 0⟩ place = runFrom ⟨mode.captureAll (place.rest.take k), .code, 0⟩ (place.skip k) := by
  induction k generalizing mode place with
  | zero => rfl
  | succ k ih =>
    obtain ⟨last?, offset, _ | ⟨c, rest⟩⟩ := place
    · simp at hk
    · have hhere : ∀ sign, Cursor.sign? ⟨last?, offset, c :: rest⟩ = some sign → mode.heeds sign = false :=
        hidle 0 (by omega)
      rw [runFrom_cons, step_code, meet_of_not_heeded c hhere]
      rw [ih (by simpa using hk) fun j hj sign hsign => by
        simpa using hidle (j + 1) (by omega) sign hsign]
      rfl

/-- At a sign the pass does what the sign asks for and goes on behind its first character. -/
private theorem runFrom_sign (mode : Mode) {place : Cursor} {sign : Sign} (hsign : place.sign? = some sign) :
    ∃ c rest, place.rest = c :: rest ∧ sign.beginsAt place = true ∧
      runFrom ⟨mode, .code, 0⟩ place =
        (meet mode place c (some sign)).1.toList ++ (meet mode place c (some sign)).2.runFrom (place.skip 1) := by
  obtain ⟨last?, offset, _ | ⟨c, rest⟩⟩ := place
  · simp [Cursor.sign?_nil] at hsign
  · refine ⟨c, rest, rfl, List.find?_some hsign, ?_⟩
    rw [runFrom_cons, step_code, hsign]
    rfl

/-- A keyword closes what is open and begins its directive. -/
theorem runFrom_keyword {mode : Mode} {place : Cursor} {word : Keyword}
    (hsign : place.sign? = some (.keyword word)) :
    runFrom ⟨mode, .code, 0⟩ place = (mode.close place.offset).toList ++
      runFrom ⟨.ofKeyword word place.offset, .code, 0⟩ (place.skip word.text.length) := by
  obtain ⟨c, rest, _, _, hrun⟩ := runFrom_sign mode hsign
  rw [hrun, meet, runFrom_due, Cursor.skip_skip]
  cases word <;> rfl

/-- A comment is entered in any mode. -/
theorem runFrom_comment {mode : Mode} {place : Cursor} {kind : CommentKind}
    (hsign : place.sign? = some (.comment kind)) :
    runFrom ⟨mode, .code, 0⟩ place = runFrom ⟨mode, .comment kind, 0⟩ (place.skip 2) := by
  obtain ⟨c, rest, hrest, hbegins, hrun⟩ := runFrom_sign mode hsign
  obtain ⟨last?, offset, _⟩ := place
  subst hrest
  obtain ⟨d, tail, rfl⟩ : ∃ d tail, rest = d :: tail := by
    cases rest with
    | nil => cases kind <;> simp [Sign.beginsAt, CommentKind.opening] at hbegins
    | cons d tail => exact ⟨d, tail, rfl⟩
  rw [hrun]
  rfl

/-- A string is entered in any mode but the one that awaits a name. -/
theorem runFrom_quote {mode : Mode} {place : Cursor} {mark : Quote} (hnaming : mode.isNaming = false)
    (hsign : place.sign? = some (.quote mark)) :
    runFrom ⟨mode, .code, 0⟩ place = runFrom ⟨mode.capture mark.char, .string mark [], 0⟩ (place.skip 1) := by
  obtain ⟨c, rest, hrest, _, hrun⟩ := runFrom_sign mode hsign
  obtain ⟨tail, htail⟩ := Cursor.rest_of_sign?_quote hsign
  obtain ⟨rfl, rfl⟩ := List.cons.inj (hrest.symm.trans htail)
  rw [hrun, meet, hnaming]
  rfl

/-- A semicolon ends what is open and belongs to it. -/
theorem runFrom_semicolon {mode : Mode} {place : Cursor} (hsign : place.sign? = some .semicolon) :
    runFrom ⟨mode, .code, 0⟩ place =
      (mode.close (place.offset + 1)).toList ++ runFrom ⟨mode.terminate, .code, 0⟩ (place.skip 1) := by
  obtain ⟨c, rest, _, _, hrun⟩ := runFrom_sign mode hsign
  exact hrun

/-- An identifier is the name that a pragma awaits. -/
theorem runFrom_name {start : Nat} {place : Cursor} (hsign : place.sign? = some .identifier) :
    runFrom ⟨.naming start, .code, 0⟩ place =
      runFrom ⟨.valuing start place.word [], .code, 0⟩ (place.skip place.word.length) := by
  obtain ⟨c, rest, hrest, hbegins, hrun⟩ := runFrom_sign (.naming start) hsign
  have hpos : 0 < place.word.length := by
    simp only [Sign.beginsAt, Pattern.startsIdentifier, hrest, List.head?_cons, Option.any_some] at hbegins
    simp [Cursor.word, hrest, hbegins]
  rw [hrun, meet, runFrom_due, Cursor.skip_skip, Nat.add_sub_cancel' hpos]
  rfl

/-- A comment leaves no trace in the pass. -/
theorem runFrom_skipComment (mode : Mode) (kind : CommentKind) (cursor : Cursor) :
    runFrom ⟨mode, .comment kind, 0⟩ cursor = runFrom ⟨mode, .code, 0⟩ (cursor.skipComment kind) := by
  obtain ⟨last?, offset, rest⟩ := cursor
  induction rest generalizing last? offset with
  | nil => rfl
  | cons c rest ih =>
    rw [Cursor.skipComment_cons]
    cases kind with
    | block =>
      simp only [CommentKind.closing, Pattern.width?]
      by_cases hclosing : "*/".toList.isPrefixOf (c :: rest)
      · obtain ⟨tail, htail⟩ := List.isPrefixOf_iff_prefix.1 hclosing
        obtain ⟨rfl, rfl⟩ := List.cons.inj htail
        rfl
      · rw [if_neg hclosing, ← ih, runFrom_cons]
        have hstep : step ⟨mode, .comment .block, 0⟩ ⟨last?, offset, c :: rest⟩ =
            (none, ⟨mode, .comment .block, 0⟩) := by
          simp only [step, Lexer.settle, Lexer.step]
          rw [if_neg hclosing]
        rw [hstep]
        rfl
    | line =>
      have hwidth : CommentKind.line.closing.width? last? (c :: rest) =
          if Cursor.atLineEnd ⟨last?, offset, c :: rest⟩ then some 0 else none := rfl
      rw [hwidth]
      by_cases hend : Cursor.atLineEnd ⟨last?, offset, c :: rest⟩
      · have hstep : step ⟨mode, .comment .line, 0⟩ ⟨last?, offset, c :: rest⟩ =
            step ⟨mode, .code, 0⟩ ⟨last?, offset, c :: rest⟩ := by
          simp only [step, Lexer.settle, if_pos hend]
        rw [if_pos hend, runFrom_cons, hstep]
        rfl
      · have hstep : step ⟨mode, .comment .line, 0⟩ ⟨last?, offset, c :: rest⟩ =
            (none, ⟨mode, .comment .line, 0⟩) := by
          simp only [step, Lexer.step, Lexer.settle, if_neg hend]
        rw [if_neg hend, ← ih, runFrom_cons, hstep]
        rfl

/-- A string literal met by an open import is its path. -/
theorem runFrom_readString_importing (start : Nat) (mark : Quote) (content : Text) (cursor : Cursor) :
    runFrom ⟨.importing start, .string mark content, 0⟩ cursor =
      .imported (content ++ (cursor.readString mark).1) ⟨start, (cursor.readString mark).2.offset⟩ ::
        runFrom ⟨.top, .code, 0⟩ (cursor.readString mark).2 := by
  obtain ⟨last?, offset, rest⟩ := cursor
  induction rest generalizing last? offset content with
  | nil => simp [Cursor.readString, Cursor.advance?, Cursor.atEnd]; rfl
  | cons c rest ih =>
    rw [Cursor.readString_cons, runFrom_cons, step_string]
    by_cases hc : c = mark.char
    · rw [if_pos hc, if_pos hc, List.append_nil]
      rfl
    · rw [if_neg hc, if_neg hc]
      have htail := ih (content ++ [c]) (some c) (offset + 1)
      rw [List.append_assoc, List.singleton_append] at htail
      exact htail

/-- A text up to an offset is captured from its first character on. -/
theorem captureAll_textTo_cons (mode : Mode) (last? : Option Char) {offset stop : Nat} (c : Char) (rest : Text)
    (h : offset + 1 ≤ stop) :
    mode.captureAll (Cursor.textTo ⟨last?, offset, c :: rest⟩ stop) =
      (mode.capture c).captureAll (Cursor.textTo ⟨some c, offset + 1, rest⟩ stop) := by
  have hlength : stop - offset = stop - (offset + 1) + 1 := by omega
  rw [Cursor.textTo, hlength, List.take_succ_cons]
  rfl

/-- A string literal met anywhere else counts like any other text. -/
theorem runFrom_readString {mode : Mode} (himporting : mode.isImporting = false) (mark : Quote)
    (content : Text) (cursor : Cursor) :
    runFrom ⟨mode, .string mark content, 0⟩ cursor =
      runFrom ⟨mode.captureAll (cursor.textTo (cursor.readString mark).2.offset), .code, 0⟩
        (cursor.readString mark).2 := by
  have hcomplete {mode : Mode} (himporting : mode.isImporting = false) (content : Text) (stop : Nat) :
      mode.complete content stop = none := by
    cases mode <;> first | rfl | cases himporting
  obtain ⟨last?, offset, rest⟩ := cursor
  induction rest generalizing mode last? offset content with
  | nil =>
    have hcapture : mode.captureAll (Cursor.textTo ⟨last?, offset, []⟩ offset) = mode := by
      simp [Cursor.textTo, Mode.captureAll]
    simp [runFrom, run, finish, hcomplete himporting, Cursor.readString, Cursor.advance?, Cursor.atEnd,
      Cursor.toEnd, Cursor.skip, hcapture]
  | cons c rest ih =>
    have hle := Cursor.offset_le_readString mark ⟨some c, offset + 1, rest⟩
    rw [Cursor.readString_cons, runFrom_cons, step_string]
    by_cases hc : c = mark.char
    · have hend : mode.endString c = mode.capture c := by
        cases mode <;> first | rfl | cases himporting
      rw [if_pos hc, if_pos hc, captureAll_textTo_cons mode last? c rest Nat.le.refl, hcomplete himporting, hend]
      simp [Cursor.textTo, Mode.captureAll]
    · rw [if_neg hc, if_neg hc, captureAll_textTo_cons mode last? c rest hle]
      exact ih ((Mode.isImporting_capture mode c).trans himporting) (content ++ [c]) (some c) (offset + 1)

section Search

variable {κ : Type} {anchors : List (Anchor κ)} {label? : Sign → Option κ} {mode : Mode} {cursor next : Cursor}
  {label : κ} {start stop : Nat}

private theorem foundHere?_anchors_nil (hseeks : mode.Seeks anchors label?) (last? : Option Char) (offset : Nat) :
    Cursor.foundHere? anchors ⟨last?, offset, []⟩ = none := by
  rw [hseeks.anchors_eq, Cursor.foundHere?_anchors label? _ hseeks.keyword hseeks.comment, Cursor.sign?_nil]
  rfl

private theorem not_heeded_of_foundHere?_eq_none (hseeks : mode.Seeks anchors label?) {place : Cursor}
    (h : place.foundHere? anchors = none) (sign : Sign) (hsign : place.sign? = some sign) :
    mode.heeds sign = false := by
  rw [hseeks.anchors_eq, Cursor.foundHere?_anchors label? _ hseeks.keyword hseeks.comment, hsign] at h
  rw [hseeks.heeds]
  simpa using h

/-- Where the scanner finds nothing ahead, the pass only collects the rest of the source. -/
theorem runFrom_of_found_none (hseeks : mode.Seeks anchors label?)
    (h : cursor.advance? anchors = none) :
    runFrom ⟨mode, .code, 0⟩ cursor = ((mode.captureAll cursor.rest).close cursor.length).toList := by
  have hnone {k : Nat} (hk : k < cursor.rest.length) :=
    Cursor.advance?_eq_none (foundHere?_anchors_nil hseeks) h hk
  rw [runFrom_skip Nat.le.refl fun k hk => not_heeded_of_foundHere?_eq_none hseeks (hnone hk)]
  rw [runFrom_of_rest_nil _ (by simp), Cursor.offset_skip Nat.le.refl, List.take_length]
  rfl

/-- The pass collects everything up to the sign that the scanner finds, and is at that sign then. -/
private theorem runFrom_of_found (hseeks : mode.Seeks anchors label?)
    (h : cursor.advance? anchors = some (⟨label, start, stop⟩, next)) :
    ∃ place sign, place.sign? = some sign ∧ label? sign = some label ∧
      start = place.offset ∧ stop = place.offset + sign.width place ∧ next = place.skip (sign.width place) ∧
      cursor.offset ≤ start ∧ place.rest = cursor.rest.drop (start - cursor.offset) ∧
      runFrom ⟨mode, .code, 0⟩ cursor =
        runFrom ⟨mode.captureAll (cursor.textTo start), .code, 0⟩ place := by
  obtain ⟨k, hk, hfound, hearlier⟩ := Cursor.advance?_eq_some (foundHere?_anchors_nil hseeks) h
  have hoffset := Cursor.offset_skip (Nat.le_of_lt hk)
  rw [hseeks.anchors_eq, Cursor.foundHere?_anchors label? _ hseeks.keyword hseeks.comment] at hfound
  obtain ⟨sign, hsign, hmap⟩ := Option.bind_eq_some_iff.1 hfound
  obtain ⟨_, hlabel, heq⟩ := Option.map_eq_some_iff.1 hmap
  obtain ⟨hmatch, rfl⟩ := Prod.mk.inj heq
  obtain ⟨rfl, rfl, rfl⟩ := Found.mk.inj hmatch
  refine ⟨cursor.skip k, sign, hsign, hlabel, rfl, rfl, rfl, by omega, ?_, ?_⟩
  · rw [hoffset, Nat.add_sub_cancel_left, Cursor.rest_skip]
  · rw [Cursor.textTo, hoffset, Nat.add_sub_cancel_left]
    exact runFrom_skip (Nat.le_of_lt hk) fun j hj =>
      not_heeded_of_foundHere?_eq_none hseeks (hearlier j hj)

/-- A keyword found ahead closes what is open. -/
theorem runFrom_of_found_keyword {word : Keyword} (hseeks : mode.Seeks anchors label?)
    (h : cursor.advance? anchors = some (⟨label, start, stop⟩, next))
    (hlabel : label? (.keyword word) = some label) :
    runFrom ⟨mode, .code, 0⟩ cursor = ((mode.captureAll (cursor.textTo start)).close start).toList ++
      runFrom ⟨.ofKeyword word start, .code, 0⟩ next := by
  obtain ⟨place, sign, hsign, hsome, rfl, rfl, rfl, -, -, hrun⟩ := runFrom_of_found hseeks h
  obtain rfl := hseeks.inj hsome hlabel
  rw [hrun, runFrom_keyword hsign]
  rfl

/-- A comment found ahead is passed over. -/
theorem runFrom_of_found_comment {kind : CommentKind} (hseeks : mode.Seeks anchors label?)
    (h : cursor.advance? anchors = some (⟨label, start, stop⟩, next))
    (hlabel : label? (.comment kind) = some label) :
    runFrom ⟨mode, .code, 0⟩ cursor =
      runFrom ⟨mode.captureAll (cursor.textTo start), .code, 0⟩ (next.skipComment kind) := by
  obtain ⟨place, sign, hsign, hsome, rfl, rfl, rfl, -, -, hrun⟩ := runFrom_of_found hseeks h
  obtain rfl := hseeks.inj hsome hlabel
  rw [hrun, runFrom_comment hsign, runFrom_skipComment]
  rfl

/-- A string literal found ahead by an open import is its path. -/
theorem runFrom_of_found_path {importStart : Nat} {mark : Quote}
    (h : cursor.advance? openers = some (⟨.quote mark, start, stop⟩, next)) :
    runFrom ⟨.importing importStart, .code, 0⟩ cursor =
      .imported (next.readString mark).1 ⟨importStart, (next.readString mark).2.offset⟩ ::
        runFrom ⟨.top, .code, 0⟩ (next.readString mark).2 := by
  obtain ⟨place, sign, hsign, hsome, rfl, rfl, rfl, -, -, hrun⟩ :=
    runFrom_of_found (Mode.seeks_importing importStart) h
  obtain rfl : sign = .quote mark := (Mode.seeks_importing importStart).inj hsome rfl
  rw [hrun, Mode.captureAll_importing, runFrom_quote rfl hsign]
  exact runFrom_readString_importing importStart mark [] _

/-- A string literal found ahead elsewhere counts like any other text. -/
theorem runFrom_of_found_string {mark : Quote} (hseeks : mode.Seeks anchors label?)
    (h : cursor.advance? anchors = some (⟨label, start, stop⟩, next))
    (hlabel : label? (.quote mark) = some label)
    (hnaming : mode.isNaming = false) (himporting : mode.isImporting = false) :
    runFrom ⟨mode, .code, 0⟩ cursor =
      runFrom ⟨mode.captureAll (cursor.textTo (next.readString mark).2.offset), .code, 0⟩
        (next.readString mark).2 := by
  obtain ⟨place, sign, hsign, hsome, rfl, rfl, rfl, hle, hrest, hrun⟩ := runFrom_of_found hseeks h
  obtain rfl := hseeks.inj hsome hlabel
  obtain ⟨tail, hplace⟩ := Cursor.rest_of_sign?_quote hsign
  obtain ⟨last?, offset, _⟩ := place
  subst hplace
  have hstop := Cursor.offset_le_readString mark ⟨some mark.char, offset + 1, tail⟩
  have htext := Cursor.textTo_append hle hrest (Nat.le_of_succ_le hstop)
  rw [hrun, runFrom_quote (by simpa using hnaming) hsign, runFrom_readString (by simpa using himporting)]
  simp only [Sign.width, Cursor.skip]
  rw [htext, Mode.captureAll_append, captureAll_textTo_cons _ last? mark.char tail hstop]

/-- A semicolon found ahead ends what it can end. -/
theorem runFrom_of_found_semicolon (hseeks : mode.Seeks anchors label?)
    (h : cursor.advance? anchors = some (⟨label, start, stop⟩, next))
    (hlabel : label? (.semicolon) = some label) :
    runFrom ⟨mode, .code, 0⟩ cursor = ((mode.captureAll (cursor.textTo start)).close stop).toList ++
      runFrom ⟨(mode.captureAll (cursor.textTo start)).terminate, .code, 0⟩ next := by
  obtain ⟨place, sign, hsign, hsome, rfl, rfl, rfl, -, -, hrun⟩ := runFrom_of_found hseeks h
  obtain rfl := hseeks.inj hsome hlabel
  rw [hrun, runFrom_semicolon hsign]
  rfl

/-- An identifier found where a name is looked for is the name. -/
theorem runFrom_of_found_name {pragmaStart : Nat}
    (h : cursor.advance? nameMarks = some (⟨.name, start, stop⟩, next)) :
    runFrom ⟨.naming pragmaStart, .code, 0⟩ cursor =
      runFrom ⟨.valuing pragmaStart (cursor.textBetween start stop) [], .code, 0⟩ next := by
  obtain ⟨place, sign, hsign, hsome, hstart, rfl, rfl, -, hrest, hrun⟩ :=
    runFrom_of_found (Mode.seeks_naming pragmaStart) h
  obtain rfl : sign = .identifier := (Mode.seeks_naming pragmaStart).inj hsome rfl
  have hname : cursor.textBetween start (place.offset + Sign.identifier.width place) = place.word := by
    rw [Cursor.textBetween, ← hrest, hstart, Nat.add_sub_cancel_left]
    exact (List.prefix_iff_eq_take.1 (List.takeWhile_prefix _)).symm
  rw [hrun, Mode.captureAll_naming, runFrom_name hsign, hname]
  rfl

end Search

end Pass

end DirectiveIndex
