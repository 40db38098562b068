import DirectiveIndex.Proofs.PlainReading

namespace DirectiveIndex

/-- The second character of a comment's beginning. -/
def CommentKind.second : CommentKind → Char
  | block => '*'
  | line => '/'

namespace Lexer

/-- What a character opens outside comments and string literals, given the one behind it. -/
def opened (c : Char) (next? : Option Char) : Lexer :=
  if c = Quote.double.char then .string .double []
  else if c = Quote.single.char then .string .single []
  else if c = '/' ∧ next? = some '*' then .opening .block
  else if c = '/' ∧ next? = some '/' then .opening .line
  else .code

/-- The state that counts at a character, given the one behind it. -/
def settleAt (lexer : Lexer) (c : Char) (next? : Option Char) : Lexer :=
  match lexer with
  | .comment .line => if c = '\n' ∨ c = '\r' ∧ next? = some '\n' then .code else .comment .line
  | lexer => lexer

/-- The state behind a character, given the one that comes then. -/
def stepOver (lexer : Lexer) (c : Char) (next? : Option Char) : Lexer :=
  match lexer.settleAt c next? with
  | .code => opened c next?
  | .opening kind => .comment kind
  | .comment .block => if c = '*' ∧ next? = some '/' then .closing else .comment .block
  | .comment .line => .comment .line
  | .closing => .code
  | .string mark content => if c = mark.char then .code else .string mark (content ++ [c])

/-- What a character outside what has been opened before belongs to, given the state behind it. -/
def entered : Lexer → Region
  | .string _ _ => .string
  | .opening _ => .comment
  | _ => .code

/-- What a character belongs to, given the one behind it. -/
def regionOf (lexer : Lexer) (c : Char) (next? : Option Char) : Region :=
  match lexer.settleAt c next? with
  | .string _ _ => .string
  | .code => (lexer.stepOver c next?).entered
  | _ => .comment

/-- The characters of a text, each with what it belongs to, if the lexer is in the given state before the first. -/
def classify (lexer : Lexer) : Text → List (Char × Region)
  | [] => []
  | c :: rest => (c, lexer.regionOf c rest.head?) :: (lexer.stepOver c rest.head?).classify rest

/-- The state behind a text. -/
def after (lexer : Lexer) : Text → Lexer
  | [] => lexer
  | c :: rest => (lexer.stepOver c rest.head?).after rest

/-- The characters of a text that belong to no comment. -/
def keep (lexer : Lexer) (text : Text) : Text :=
  ((lexer.classify text).filter (·.2 != .comment)).map (·.1)

/-- The state in which what is left without comments is read. -/
def outsideComments : Lexer → Lexer
  | .string mark content => .string mark content
  | _ => .code

end Lexer

/-- What is left of a text without the comments that the plain lexer finds in it. -/
def withoutComments (text : Text) : Text :=
  text.zipIdx.filterMap fun (c, p) => if regionIn text (lexerAt text) p = .comment then none else some c

/-- A mark of two characters is ahead if the next one is its first and the one behind it its second. -/
theorem pair_isPrefixOf_cons (a b c : Char) (rest : Text) :
    [a, b].isPrefixOf (c :: rest) = (decide (c = a ∧ rest.head? = some b)) := by
  rw [List.isPrefixOf_cons_cons, Bool.eq_iff_iff, Bool.and_eq_true, beq_iff_eq, decide_eq_true_iff, eq_comm]
  cases rest with
  | nil => simp
  | cons d rest => simp [@eq_comm _ b d]

namespace Lexer

variable {lexer : Lexer} {last? : Option Char} {offset : Nat} {c : Char} {next? : Option Char} {rest : Text}

/-- What is entered outside comments and strings is a string, the opening of a comment, or nothing. -/
theorem opened_cases (c : Char) (next? : Option Char) :
    (∃ mark : Quote, c = mark.char ∧ opened c next? = .string mark []) ∨
      (∃ kind, c = '/' ∧ opened c next? = .opening kind) ∨ opened c next? = .code := by
  unfold opened
  split
  · exact .inl ⟨.double, ‹_›, rfl⟩
  · split
    · exact .inl ⟨.single, ‹_›, rfl⟩
    · split
      · rename_i h
        exact .inr (.inl ⟨.block, h.1, rfl⟩)
      · split
        · rename_i h
          exact .inr (.inl ⟨.line, h.1, rfl⟩)
        · exact .inr (.inr rfl)

/-- A quote enters its string. -/
theorem opened_quote (mark : Quote) (next? : Option Char) : opened mark.char next? = .string mark [] := by
  cases mark <;> rfl

/-- A comment is entered at a slash before the second character of its opening. -/
theorem opened_eq_opening_iff {kind : CommentKind} :
    opened c next? = .opening kind ↔ c = '/' ∧ next? = some kind.second := by
  unfold opened
  cases kind <;> grind [CommentKind.second, Quote.char]

/-- What begins at a place opens what its first two characters open. -/
theorem enter_sign? : enter (Cursor.sign? ⟨last?, offset, c :: rest⟩) = opened c rest.head? := by
  rcases opened_cases c rest.head? with ⟨mark, rfl, hopened⟩ | ⟨kind, rfl, hopened⟩ | hopened
  · rw [hopened, Cursor.sign?_quote]
    rfl
  · obtain ⟨d, tail, rfl⟩ : ∃ d tail, rest = d :: tail := by
      cases rest with
      | nil => cases hopened
      | cons d tail => exact ⟨d, tail, rfl⟩
    rw [hopened]
    cases kind with
    | block =>
      obtain rfl := Option.some.inj (opened_eq_opening_iff.1 hopened).2
      rfl
    | line =>
      obtain rfl := Option.some.inj (opened_eq_opening_iff.1 hopened).2
      rfl
  · rw [hopened]
    cases hsign : Cursor.sign? ⟨last?, offset, c :: rest⟩ with
    | none => rfl
    | some sign =>
      have hbegins : sign.beginsAt ⟨last?, offset, c :: rest⟩ = true := List.find?_some hsign
      cases sign with
      | comment kind =>
        have hopening : opened c rest.head? = .opening kind := opened_eq_opening_iff.2 (by
          cases kind <;> exact decide_eq_true_iff.1 ((pair_isPrefixOf_cons _ _ c rest).symm.trans hbegins))
        cases hopened.symm.trans hopening
      | quote mark =>
        obtain rfl : mark.char = c := Cursor.head_of_isPrefixOf hbegins
        cases hopened.symm.trans (opened_quote mark rest.head?)
      | _ => rfl

/-- Of what is left to read, settling needs the next two characters. -/
theorem settle_eq_settleAt : lexer.settle ⟨last?, offset, c :: rest⟩ = lexer.settleAt c rest.head? := by
  cases lexer with
  | comment kind =>
    cases kind with
    | block => rfl
    | line =>
      have hfeed : ['\n'].isPrefixOf (c :: rest) = decide (c = '\n') := by
        rw [List.isPrefixOf_cons_cons, List.isPrefixOf_nil_left, Bool.and_true, Bool.beq_comm, Bool.beq_eq_decide_eq]
      simp only [settle, settleAt, Cursor.atLineEnd, pair_isPrefixOf_cons, hfeed, Bool.or_eq_true, decide_eq_true_iff]
  | _ => rfl

/-- Where no line ends, what counts as code is code. -/
theorem eq_code_of_settle (h : lexer.settle ⟨last?, offset, c :: rest⟩ = .code) (hreturn : c ≠ '\r')
    (hfeed : c ≠ '\n') : lexer = .code := by
  rcases settle_eq_or lexer ⟨last?, offset, c :: rest⟩ with hself | ⟨rfl, -⟩
  · exact hself.symm.trans h
  · rw [settle_eq_settleAt, settleAt, if_neg (by simp [hreturn, hfeed])] at h
    cases h

/-- An identifier character leaves no line comment, so that one in code stood in code before. -/
theorem eq_code_of_isIdentifier (h : lexer.settle ⟨last?, offset, c :: rest⟩ = .code)
    (hc : Text.isIdentifier c = true) : lexer = .code := by
  refine eq_code_of_settle h ?_ ?_
  · exact fun hreturn => absurd (hreturn ▸ hc) (by decide)
  · exact fun hfeed => absurd (hfeed ▸ hc) (by decide)

/-- Of what is left to read, a step needs the next two characters. -/
theorem step_eq_stepOver : lexer.step ⟨last?, offset, c :: rest⟩ = lexer.stepOver c rest.head? := by
  have hclosing : "*/".toList.isPrefixOf (c :: rest) = decide (c = '*' ∧ rest.head? = some '/') :=
    pair_isPrefixOf_cons '*' '/' c rest
  unfold step stepOver
  dsimp only
  rw [settle_eq_settleAt]
  cases lexer.settleAt c rest.head? with
  | code => exact enter_sign?
  | comment kind =>
    cases kind with
    | block => simp only [hclosing, decide_eq_true_iff]
    | line => rfl
  | _ => rfl

/-- The region of a character depends on the state before it and the next two characters. -/
theorem region_eq_regionOf :
    (match lexer.settle ⟨last?, offset, c :: rest⟩ with
      | .string _ _ => Region.string
      | .code =>
        match lexer.step ⟨last?, offset, c :: rest⟩ with
        | .string _ _ => .string
        | .opening _ => .comment
        | _ => .code
      | _ => .comment) = lexer.regionOf c rest.head? := by
  rw [settle_eq_settleAt, step_eq_stepOver]
  rfl

private theorem filter_classify_cons (lexer : Lexer) (c : Char) (rest : Text) :
    (lexer.classify (c :: rest)).filter (·.2 != .comment) =
      if lexer.regionOf c rest.head? = .comment then
        ((lexer.stepOver c rest.head?).classify rest).filter (·.2 != .comment)
      else
        (c, lexer.regionOf c rest.head?) ::
          ((lexer.stepOver c rest.head?).classify rest).filter (·.2 != .comment) := by
  rw [classify, List.filter_cons]
  by_cases h : lexer.regionOf c rest.head? = .comment <;> simp [h]

/-- A character is kept unless it is in a comment. -/
theorem keep_cons (lexer : Lexer) (c : Char) (rest : Text) :
    lexer.keep (c :: rest) =
      if lexer.regionOf c rest.head? = .comment then (lexer.stepOver c rest.head?).keep rest
      else c :: (lexer.stepOver c rest.head?).keep rest := by
  rw [keep, filter_classify_cons]
  split <;> rfl

/-- A string goes on until its mark. -/
theorem stepOver_string (mark : Quote) (content : Text) (c : Char) (next? : Option Char) :
    (string mark content).stepOver c next? = if c = mark.char then .code else .string mark (content ++ [c]) :=
  rfl

/-- All of an open string is in the string, its closing mark as well. -/
theorem regionOf_string (mark : Quote) (content : Text) (c : Char) (next? : Option Char) :
    (string mark content).regionOf c next? = .string :=
  rfl

/-- Outside comments and strings, the region of a character is what it enters. -/
theorem regionOf_of_settleAt (h : lexer.settleAt c next? = .code) :
    lexer.regionOf c next? = (lexer.stepOver c next?).entered := by
  rw [regionOf, h]

theorem regionOf_code (c : Char) (next? : Option Char) : code.regionOf c next? = (opened c next?).entered :=
  rfl

/-- The first character outside comments is kept, unless it opens one. -/
theorem head?_keep_code {d : Char} (hd : d ≠ '/') (rest : Text) : (code.keep (d :: rest)).head? = some d := by
  have hregion : code.regionOf d rest.head? ≠ .comment := by
    rw [regionOf_code]
    rcases opened_cases d rest.head? with ⟨mark, -, hopened⟩ | ⟨kind, hslash, -⟩ | hopened
    · rw [hopened]
      exact Region.noConfusion
    · exact absurd hslash hd
    · rw [hopened]
      exact Region.noConfusion
  rw [keep_cons, if_neg hregion, List.head?_cons]

/-- A character that opens no comment opens none in front of what is kept of the text behind it. -/
theorem opened_keep {rest : Text} (h : opened c rest.head? = .code) : opened c (code.keep rest).head? = .code := by
  rcases opened_cases c (code.keep rest).head? with ⟨mark, rfl, -⟩ | ⟨kind, rfl, hopened⟩ | hopened
  · cases h.symm.trans (opened_quote mark rest.head?)
  · have hsecond := (opened_eq_opening_iff.1 hopened).2
    cases rest with
    | nil => cases hsecond
    | cons d rest =>
      by_cases hd : d = '/'
      · subst hd
        cases h.symm.trans (opened_eq_opening_iff.2 ⟨rfl, rfl⟩ : opened '/' (some '/') = .opening .line)
      · rw [head?_keep_code hd] at hsecond
        cases h.symm.trans (opened_eq_opening_iff.2 ⟨rfl, hsecond⟩)
  · exact hopened

/-- All that the lexer can do with a character: it belongs to a comment; it opens a string literal; it is a
character of code; or it belongs to a string literal that is open. -/
theorem regionOf_cases (lexer : Lexer) (c : Char) (next? : Option Char) :
    (lexer.regionOf c next? = .comment ∧ lexer.outsideComments = .code ∧
      (lexer.stepOver c next?).outsideComments = .code) ∨
    (∃ mark, c = Quote.char mark ∧ lexer.regionOf c next? = .string ∧ lexer.outsideComments = .code ∧
      lexer.stepOver c next? = .string mark []) ∨
    (lexer.regionOf c next? = .code ∧ lexer.outsideComments = .code ∧ opened c next? = .code ∧
      lexer.stepOver c next? = .code) ∨
    (∃ mark content, lexer = .string mark content ∧ lexer.regionOf c next? = .string ∧
      lexer.stepOver c next? = if c = mark.char then .code else .string mark (content ++ [c])) := by
  have hcode (h : lexer.settleAt c next? = .code) : lexer.outsideComments = .code := by
    cases lexer with
    | string mark content => cases h
    | _ => rfl
  by_cases hsettle : lexer.settleAt c next? = .code
  · have hstep : lexer.stepOver c next? = opened c next? := by rw [stepOver, hsettle]
    rw [regionOf_of_settleAt hsettle, hstep]
    rcases opened_cases c next? with ⟨mark, hmark, hopened⟩ | ⟨kind, -, hopened⟩ | hopened
    · rw [hopened]
      exact .inr (.inl ⟨mark, hmark, rfl, hcode hsettle, rfl⟩)
    · rw [hopened]
      exact .inl ⟨rfl, hcode hsettle, rfl⟩
    · rw [hopened]
      exact .inr (.inr (.inl ⟨rfl, hcode hsettle, rfl, rfl⟩))
  · cases lexer with
    | code => exact absurd rfl hsettle
    | string mark content => exact .inr (.inr (.inr ⟨mark, content, rfl, rfl, rfl⟩))
    | opening kind => exact .inl ⟨rfl, rfl, rfl⟩
    | closing => exact .inl ⟨rfl, rfl, rfl⟩
    | comment kind =>
      refine .inl ?_
      cases kind with
      | block =>
        have hnext : (if c = '*' ∧ next? = some '/' then closing else comment .block).outsideComments = .code := by
          split <;> rfl
        exact ⟨rfl, rfl, hnext⟩
      | line =>
        have hline : settleAt (.comment .line) c next? = .comment .line := by
          rw [settleAt] at hsettle ⊢
          exact if_neg fun h => hsettle (if_pos h)
        rw [regionOf, stepOver, hline]
        exact ⟨rfl, rfl, rfl⟩

/-- Each character that is kept of a text belongs to what it belonged to in the text. -/
theorem classify_keep (lexer : Lexer) (text : Text) :
    lexer.outsideComments.classify (lexer.keep text) = (lexer.classify text).filter (·.2 != .comment) := by
  induction text generalizing lexer with
  | nil => rfl
  | cons c rest ih =>
    rw [keep_cons, filter_classify_cons]
    have htail := ih (lexer.stepOver c rest.head?)
    rcases regionOf_cases lexer c rest.head? with
      ⟨hregion, hcode, hnext⟩ | ⟨mark, rfl, hregion, hcode, hnext⟩ | ⟨hregion, hcode, hopened, hnext⟩ |
      ⟨mark, content, rfl, hregion, hnext⟩
    · rw [hregion, if_pos rfl, if_pos rfl, hcode, ← htail, hnext]
    · have hopens : code.stepOver mark.char ((string mark []).keep rest).head? = .string mark [] := opened_quote mark _
      have hstring : code.regionOf mark.char ((string mark []).keep rest).head? = .string := by
        rw [regionOf_code, opened_quote]
        rfl
      rw [hregion, if_neg Region.noConfusion, if_neg Region.noConfusion, hcode, classify, ← htail, hnext, hopens, hstring]
      rfl
    · have hcode' : opened c (code.keep rest).head? = .code := opened_keep hopened
      have hstep : code.stepOver c (code.keep rest).head? = .code := hcode'
      have hregion' : code.regionOf c (code.keep rest).head? = .code := by
        rw [regionOf_code, hcode']
        rfl
      rw [hregion, if_neg Region.noConfusion, if_neg Region.noConfusion, hcode, classify, ← htail, hnext, hstep, hregion']
      rfl
    · rw [hregion, if_neg Region.noConfusion, if_neg Region.noConfusion, outsideComments, classify, ← htail, hnext]
      rw [stepOver_string, regionOf_string]
      split <;> rfl

end Lexer

section Source

variable {text : Text}

/-- The region of a position, told from the state before it. -/
theorem regionIn_lexerAt {p : Nat} (hp : p < text.length) :
    regionIn text (lexerAt text) p = (lexerAt text p).regionOf text[p] (text.drop (p + 1)).head? := by
  obtain ⟨last?, hplace⟩ := placeAt_of_lt hp
  rw [regionIn, lexerAt, hplace]
  exact Lexer.region_eq_regionOf

/-- The state behind a position. -/
theorem lexerAt_succ {p : Nat} (hp : p < text.length) :
    lexerAt text (p + 1) = (lexerAt text p).stepOver text[p] (text.drop (p + 1)).head? := by
  obtain ⟨last?, hplace⟩ := placeAt_of_lt hp
  rw [lexerAt, hplace]
  exact Lexer.step_eq_stepOver

/-- From any place on, the characters of a text belong to what the plain lexer has them belong to. -/
theorem classify_lexerAt {p : Nat} (hp : p ≤ text.length) :
    (lexerAt text p).classify (text.drop p) =
      ((text.drop p).zipIdx p).map fun (c, q) => (c, regionIn text (lexerAt text) q) := by
  generalize hk : text.length - p = k
  induction k generalizing p with
  | zero =>
    rw [List.drop_eq_nil_of_le (by omega)]
    rfl
  | succ k ih =>
    have hlt : p < text.length := by omega
    have htail := ih hlt (by omega)
    rw [lexerAt_succ hlt] at htail
    rw [List.drop_eq_getElem_cons hlt, Lexer.classify, List.zipIdx_cons, List.map_cons, ← htail,
      ← regionIn_lexerAt hlt]

/-- Going through the rest of a text from the state at a position ends in the last state. -/
theorem after_lexerAt {p : Nat} (hp : p ≤ text.length) :
    (lexerAt text p).after (text.drop p) = lexerAt text text.length := by
  generalize hk : text.length - p = k
  induction k generalizing p with
  | zero =>
    obtain rfl : p = text.length := by omega
    rw [List.drop_length]
    rfl
  | succ k ih =>
    have hlt : p < text.length := by omega
    rw [List.drop_eq_getElem_cons hlt, Lexer.after, ← lexerAt_succ hlt]
    exact ih hlt (by omega)

theorem after_code (text : Text) : Lexer.code.after text = lexerAt text text.length :=
  after_lexerAt (Nat.zero_le _)

/-- Going through a text tells the region of each position. -/
theorem classify_code (text : Text) :
    Lexer.code.classify text = text.zipIdx.map fun (c, p) => (c, regionIn text (lexerAt text) p) :=
  classify_lexerAt (Nat.zero_le _)

/-- The region that is told of one position. -/
theorem getElem?_classify_code (text : Text) (q : Nat) :
    (Lexer.code.classify text)[q]? = text[q]?.map fun c => (c, regionIn text (lexerAt text) q) := by
  rw [classify_code, List.getElem?_map, List.getElem?_zipIdx, Nat.zero_add]
  cases text[q]? <;> rfl

/-- What is left without comments is what going through the text keeps. -/
theorem withoutComments_eq_keep (text : Text) : withoutComments text = Lexer.code.keep text := by
  rw [withoutComments, Lexer.keep, classify_code]
  generalize text.zipIdx = marked
  induction marked with
  | nil => rfl
  | cons entry marked ih =>
    rw [List.filterMap_cons, List.map_cons, List.filter_cons, ih]
    by_cases h : regionIn text (lexerAt text) entry.2 = .comment <;> simp [h]

/-- In what is left of a text without its comments, every character belongs to what it belonged to in the text. -/
theorem mem_classify_withoutComments {q : Nat} {c : Char} (h : (withoutComments text)[q]? = some c) :
    regionIn (withoutComments text) (lexerAt (withoutComments text)) q ≠ .comment ∧
      ∃ p, text[p]? = some c ∧
        regionIn text (lexerAt text) p = regionIn (withoutComments text) (lexerAt (withoutComments text)) q := by
  have hread := getElem?_classify_code (withoutComments text) q
  rw [h, Option.map_some] at hread
  have hmem := List.mem_of_getElem? hread
  have hagain : Lexer.code.classify (withoutComments text) = (Lexer.code.classify text).filter (·.2 != .comment) := by
    rw [withoutComments_eq_keep]
    exact Lexer.classify_keep .code text
  rw [hagain, List.mem_filter, bne_iff_ne] at hmem
  obtain ⟨hmem, hne⟩ := hmem
  obtain ⟨p, hp⟩ := List.mem_iff_getElem?.1 hmem
  rw [getElem?_classify_code, Option.map_eq_some_iff] at hp
  obtain ⟨d, hd, heq⟩ := hp
  obtain ⟨rfl, hregion⟩ := Prod.mk.inj heq
  exact ⟨hne, p, hd, hregion⟩

end Source

end DirectiveIndex
