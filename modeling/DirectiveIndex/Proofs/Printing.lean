import DirectiveIndex.Proofs.Comments
import DirectiveIndex.Proofs.PlainReading
import DirectiveIndex.Proofs.Spans
import DirectiveIndex.Text.Blank

namespace DirectiveIndex

/-- Nothing begins in the text: no string literal, no comment and no directive. -/
structure Plain (text : Text) : Prop where
  quote : ∀ c ∈ text, isQuote c = false
  comment : ∀ kind : CommentKind, ¬ kind.opening <:+: text
  keyword : ∀ (word : Keyword) (p : Nat), ¬ WholeWordAt text word.text p

private theorem plain_iff {text : Text} :
    (text.all (!isQuote ·) ∧ (∀ kind ∈ [CommentKind.block, .line], ¬ kind.opening <:+: text) ∧
      ∀ word : Keyword, ∀ p < text.length, ¬ WholeWordAt text word.text p) ↔ Plain text := by
  constructor
  · rintro ⟨hquote, hcomment, hkeyword⟩
    refine ⟨by simpa using hquote, fun kind => hcomment kind (by cases kind <;> decide), fun word p hword => ?_⟩
    have hfit := hword.add_length_le
    exact hkeyword word p (by omega) hword
  · intro h
    exact ⟨by simpa using h.quote, fun kind _ => h.comment kind, fun word p _ => h.keyword word p⟩

/-- Plain texts can be told, so items are built from given texts by deciding their conditions. -/
instance (text : Text) : Decidable (Plain text) :=
  decidable_of_iff _ plain_iff

/-- A string literal, in which the mark that closes it does not occur before. -/
structure StringLiteral where
  mark : Quote
  content : Text
  closed : mark.char ∉ content

/-- A block comment, in which its end does not occur before. -/
structure BlockComment where
  body : Text
  closed : ¬ "*/".toList <:+: body

/-- What separates a `pragma` from its name. -/
inductive Gap where
  | blank (c : Char) (h : Text.isBlank c = true)
  | comment (comment : BlockComment)

/-- An import: what stands before the path, the path, and what stands between it and the semicolon. -/
structure ImportItem where
  clause : Text
  path : StringLiteral
  tail : Text
  plain_clause : Plain clause
  startsIdentifier_clause : Pattern.startsIdentifier clause = false
  plain_tail : Plain tail

/-- A pragma. -/
structure PragmaItem where
  gaps : List Gap
  name : Text
  value : Text
  gaps_ne_nil : gaps ≠ []
  name_ne_nil : name ≠ []
  all_name : name.all Text.isIdentifier = true
  name_ne_keyword : ∀ word : Keyword, name ≠ word.text
  plain_value : Plain value
  startsIdentifier_value : Pattern.startsIdentifier value = false
  semicolon_value : ';' ∉ value

/-- What is no directive. -/
inductive Filler where
  | blockComment (comment : BlockComment)
  | lineComment (body : Text) (h : '\n' ∉ body)
  | string (literal : StringLiteral)
  | plain (text : Text) (h : Plain text)

/-- One part of a printed source. -/
inductive Item where
  | imported (item : ImportItem)
  | pragma (item : PragmaItem)
  | filler (filler : Filler)

/-- A string literal as it is written. -/
def StringLiteral.text (literal : StringLiteral) : Text :=
  literal.mark.char :: (literal.content ++ [literal.mark.char])

/-- A block comment as it is written. -/
def BlockComment.text (comment : BlockComment) : Text :=
  blockComment comment.body

/-- A gap as it is written. -/
def Gap.text : Gap → Text
  | blank c _ => [c]
  | comment inner => inner.text

/-- An import as it is written, up to its semicolon. -/
def ImportItem.text (item : ImportItem) : Text :=
  Keyword.importWord.text ++ (item.clause ++ (item.path.text ++ (item.tail ++ [';'])))

/-- A pragma as it is written, up to its semicolon. -/
def PragmaItem.text (item : PragmaItem) : Text :=
  Keyword.pragmaWord.text ++ (item.gaps.flatMap Gap.text ++ (item.name ++ (item.value ++ [';'])))

/-- What is no directive, as it is written. A line comment goes on to the end of its line. -/
def Filler.text : Filler → Text
  | blockComment comment => comment.text
  | lineComment body _ => CommentKind.line.opening ++ body
  | string literal => literal.text
  | plain text _ => text

namespace Item

/-- An item as it is written. -/
def text : Item → Text
  | imported item => item.text
  | pragma item => item.text
  | filler other => other.text

/-- The source that is printed from a list of items. -/
def print (items : List Item) : Text :=
  Text.join ['\n'] (items.map text)

/-- The path that an item imports. -/
def path? : Item → Option Text
  | imported item => some item.path.content
  | _ => none

/-- The value of an item that is a `solidity` pragma. -/
def solidity? : Item → Option Text
  | pragma item => if item.name = "solidity".toList then some item.value else none
  | _ => none

/-- The directive that an item is, if it is one, with its place in the source. -/
def directive? (span : Span) : Item → Option Directive
  | imported item => some (.imported item.path.content span)
  | pragma item => some (.pragma item.name item.value span)
  | filler _ => none

end Item

private theorem toNat_of_isIdentifier {c : Char} (h : Text.isIdentifier c = true) :
    0x20 < c.toNat ∧ c.toNat < 0x85 := by
  have hrange {low high : Char} (hlow : low.val ≤ c.val) (hhigh : c.val ≤ high.val) (hvisible : 0x20 < low.toNat)
      (hascii : high.toNat < 0x85) : 0x20 < c.toNat ∧ c.toNat < 0x85 :=
    ⟨Nat.lt_of_lt_of_le hvisible hlow, Nat.lt_of_le_of_lt hhigh hascii⟩
  rcases Bool.or_eq_true_iff.1 h with h | hdollar
  · rcases Bool.or_eq_true_iff.1 h with h | hunderscore
    · rcases Bool.or_eq_true_iff.1 h with hletter | hdigit
      · rcases Bool.or_eq_true_iff.1 hletter with hupper | hlower
        · have hupper := of_decide_eq_true hupper
          exact hrange hupper.1 hupper.2 (by decide) (by decide)
        · have hlower := Bool.and_eq_true_iff.1 hlower
          exact hrange (of_decide_eq_true hlower.1) (of_decide_eq_true hlower.2) (by decide) (by decide)
      · have hdigit := Bool.and_eq_true_iff.1 hdigit
        exact hrange (of_decide_eq_true hdigit.1) (of_decide_eq_true hdigit.2) (by decide) (by decide)
    · rw [eq_of_beq hunderscore]
      decide
  · rw [eq_of_beq hdollar]
    decide

/-- What shows what follows a `pragma`, and what begins a comment, lies between the blanks below and above. -/
private theorem toNat_of_isTelling {c : Char} (h : isTelling c = true ∨ c = '/') :
    0x20 < c.toNat ∧ c.toNat < 0x85 := by
  simp only [isTelling, isQuote, Bool.or_eq_true, beq_iff_eq] at h
  rcases h with ((hidentifier | rfl) | rfl | rfl) | rfl
  · exact toNat_of_isIdentifier hidentifier
  all_goals decide

private theorem toNat_of_isBlank {c : Char} (h : Text.isBlank c = true) : c.toNat ≤ 0x20 ∨ 0x85 ≤ c.toNat := by
  simp only [Text.isBlank, Text.inRanges, Text.blanks, Text.Range.contains, List.any_cons, List.any_nil, Bool.or_false,
    Bool.or_eq_true, Bool.and_eq_true, decide_eq_true_eq] at h
  omega

/-- A blank neither shows what follows a `pragma` nor begins a comment. -/
theorem isTelling_of_isBlank {c : Char} (h : Text.isBlank c = true) : isTelling c = false ∧ c ≠ '/' := by
  rw [← Bool.not_eq_true, ne_eq, ← not_or]
  intro hvisible
  have hlow := toNat_of_isTelling hvisible
  have hhigh := toNat_of_isBlank h
  omega

namespace Cursor

variable {last? : Option Char} {offset : Nat}

/-- Nothing begins at a blank. -/
theorem sign?_blank {c : Char} (h : Text.isBlank c = true) (rest : Text) : sign? ⟨last?, offset, c :: rest⟩ = none := by
  obtain ⟨htelling, hslash⟩ := isTelling_of_isBlank h
  have htells := any_tells_sign? last? offset c rest
  rw [htelling] at htells
  cases hsign : sign? ⟨last?, offset, c :: rest⟩ with
  | none => rfl
  | some sign =>
    rw [hsign] at htells
    cases sign with
    | comment kind =>
      have hbegins : (Sign.comment kind).beginsAt ⟨last?, offset, c :: rest⟩ = true := List.find?_some hsign
      cases kind <;> exact absurd (head_of_isPrefixOf hbegins).symm hslash
    | _ => cases htells

/-- A name is the whole word where no identifier character follows it. -/
theorem word_of_all {name rest : Text} (hall : name.all Text.isIdentifier = true)
    (hrest : Pattern.startsIdentifier rest = false) : word ⟨last?, offset, name ++ rest⟩ = name := by
  rw [word, List.takeWhile_append_of_pos (List.all_eq_true.1 hall), Pattern.takeWhile_of_startsIdentifier hrest,
    List.append_nil]

/-- A word that is no keyword is an identifier. -/
theorem sign?_identifier {c : Char} {rest : Text} (hc : Text.isIdentifier c = true)
    (hkeyword : ∀ other : Keyword, word ⟨last?, offset, c :: rest⟩ ≠ other.text) :
    sign? ⟨last?, offset, c :: rest⟩ = some .identifier := by
  have henter : Lexer.enter (sign? ⟨last?, offset, c :: rest⟩) = .code := enter_sign?_of_isIdentifier hc
  cases hsign : sign? ⟨last?, offset, c :: rest⟩ with
  | none =>
    have hbegins : Sign.identifier.beginsAt ⟨last?, offset, c :: rest⟩ = true := hc
    exact absurd hbegins (List.find?_eq_none.1 hsign _ (by decide))
  | some sign =>
    have hbegins : sign.beginsAt ⟨last?, offset, c :: rest⟩ = true := List.find?_some hsign
    rw [hsign] at henter
    cases sign with
    | keyword other =>
      rw [Sign.beginsAt_keyword, Bool.and_eq_true, decide_eq_true_eq] at hbegins
      exact absurd hbegins.1 (hkeyword other)
    | comment kind => cases henter
    | quote mark => cases henter
    | semicolon =>
      obtain rfl : ';' = c := head_of_isPrefixOf hbegins
      cases hc
    | identifier => rfl

end Cursor

namespace Plain

variable {text s : Text}

/-- Whatever stands behind such a text, nothing begins in it but identifiers, and what a semicolon ends. -/
theorem eq_identifier_or_semicolon (h : Plain text) (hs : Breaks s) {p : Nat} (hp : p < text.length) {sign : Sign}
    (hsign : (placeAt (text ++ s) p).sign? = some sign) : sign = .identifier ∨ sign = .semicolon ∧ ';' ∈ text := by
  obtain ⟨last?, hplace, happend⟩ := placeAt_append s (Nat.le_of_lt hp)
  rw [List.drop_eq_getElem_cons hp] at hplace happend
  rw [happend, List.cons_append, Cursor.sign?_append (hs.signBreak _), ← hplace] at hsign
  have hbegins : sign.beginsAt (placeAt text p) = true := List.find?_some hsign
  have hsuffix {word : Text} (hword : word.isPrefixOf (placeAt text p).rest = true) : word <:+: text := by
    rw [rest_placeAt, List.isPrefixOf_iff_prefix] at hword
    exact hword.isInfix.trans (List.drop_suffix p text).isInfix
  cases sign with
  | keyword word => exact absurd (wholeWordAt_of_beginsAt hbegins) (h.keyword word p)
  | comment kind => exact absurd (hsuffix hbegins) (h.comment kind)
  | quote mark =>
    have hquote := h.quote mark.char ((hsuffix hbegins).subset List.mem_cons_self)
    cases mark <;> cases hquote
  | semicolon => exact .inr ⟨rfl, (hsuffix hbegins).subset List.mem_cons_self⟩
  | identifier => exact .inl rfl

end Plain

private theorem startsIdentifier_of_breaks {s : Text} (hs : Breaks s) : Pattern.startsIdentifier s = false := by
  cases s with
  | nil => rfl
  | cons c s => exact (hs c rfl).1

private theorem startsIdentifier_append {text s : Text} (h : Pattern.startsIdentifier text = false) (hs : Breaks s) :
    Pattern.startsIdentifier (text ++ s) = false := by
  cases text with
  | nil => exact startsIdentifier_of_breaks hs
  | cons c text => exact h

private theorem startsIdentifier_gaps {gaps : List Gap} (hne : gaps ≠ []) (s : Text) :
    Pattern.startsIdentifier (gaps.flatMap Gap.text ++ s) = false := by
  obtain ⟨gap, gaps, rfl⟩ := List.exists_cons_of_ne_nil hne
  cases gap with
  | blank c h =>
    have htelling := (isTelling_of_isBlank h).1
    rw [isTelling, Bool.or_eq_false_iff, Bool.or_eq_false_iff] at htelling
    exact htelling.1.1
  | comment inner => rfl

namespace Pass

variable (last? : Option Char) (offset : Nat) {s : Text}

/-- The pass goes through such a text without a report. -/
theorem runFrom_plain (mode : Mode) {text : Text} (h : Plain text) (hs : Breaks s)
    (hidentifier : mode.heeds .identifier = false) (hsemicolon : mode.heeds .semicolon = true → ';' ∉ text)
    (hlast : Pattern.startsIdentifier (text ++ s) = true → last?.any Text.isIdentifier = false) :
    ∃ last'? offset', runFrom ⟨mode, .code, 0⟩ ⟨last?, offset, text ++ s⟩ =
      runFrom ⟨mode.captureAll text, .code, 0⟩ ⟨last'?, offset', s⟩ := by
  obtain ⟨last'?, hskip⟩ := Cursor.skip_append last? offset text s
  refine ⟨last'?, offset + text.length, ?_⟩
  have hlength : text.length ≤ (text ++ s).length := List.length_append ▸ Nat.le_add_right _ _
  have hidle : ∀ p < text.length, ∀ sign,
      (Cursor.skip p ⟨last?, offset, text ++ s⟩).sign? = some sign → mode.heeds sign = false := by
    intro p hp sign hsign
    have hplace : (Cursor.skip p ⟨last?, offset, text ++ s⟩).sign? = (placeAt (text ++ s) p).sign? :=
      Cursor.sign?_skip_congr 0 offset hlast p
    rw [hplace] at hsign
    rcases h.eq_identifier_or_semicolon hs hp hsign with rfl | ⟨rfl, hmem⟩
    · exact hidentifier
    · exact Bool.eq_false_iff.2 fun hheeds => hsemicolon hheeds hmem
  rw [runFrom_skip hlength hidle, hskip, List.take_left]

/-- A plain text that does not begin with an identifier character is passed over behind any
character. -/
theorem runFrom_detached (mode : Mode) {text : Text} (h : Plain text) (hs : Breaks s)
    (hidentifier : mode.heeds .identifier = false) (hsemicolon : mode.heeds .semicolon = true → ';' ∉ text)
    (hstarts : Pattern.startsIdentifier text = false) :
    ∃ last'? offset', runFrom ⟨mode, .code, 0⟩ ⟨last?, offset, text ++ s⟩ =
      runFrom ⟨mode.captureAll text, .code, 0⟩ ⟨last'?, offset', s⟩ :=
  runFrom_plain last? offset mode h hs hidentifier hsemicolon fun h =>
    absurd ((startsIdentifier_append hstarts hs).symm.trans h) Bool.false_ne_true

/-- A keyword outside directives begins one. -/
theorem runFrom_initial_keyword (word : Keyword) (hlast : last?.any Text.isIdentifier = false)
    (hs : Pattern.startsIdentifier s = false) :
    ∃ last'? offset', runFrom .initial ⟨last?, offset, word.text ++ s⟩ =
      runFrom ⟨.ofKeyword word offset, .code, 0⟩ ⟨last'?, offset', s⟩ := by
  obtain ⟨last'?, hskip⟩ := Cursor.skip_append last? offset word.text s
  refine ⟨last'?, offset + word.text.length, ?_⟩
  have hbegins : (Sign.keyword word).beginsAt ⟨last?, offset, word.text ++ s⟩ = true := by
    rw [Sign.beginsAt_keyword, Cursor.word_of_all word.all_text hs, hlast, decide_eq_true rfl]
    rfl
  rw [initial, runFrom_keyword (Cursor.sign?_keyword hbegins), hskip]
  rfl

/-- Blanks and comments leave a pragma without a name. -/
theorem runFrom_gaps (start : Nat) (gaps : List Gap) :
    ∃ last'? offset', runFrom ⟨.naming start, .code, 0⟩ ⟨last?, offset, gaps.flatMap Gap.text ++ s⟩ =
      runFrom ⟨.naming start, .code, 0⟩ ⟨last'?, offset', s⟩ := by
  induction gaps generalizing last? offset with
  | nil => exact ⟨last?, offset, rfl⟩
  | cons gap gaps ih =>
    rw [List.flatMap_cons, List.append_assoc]
    cases gap with
    | blank c h =>
      obtain ⟨last'?, offset', hrun⟩ := ih (some c) (offset + 1)
      refine ⟨last'?, offset', hrun ▸ ?_⟩
      rw [Gap.text, List.singleton_append, runFrom_cons, step_code, Cursor.sign?_blank h]
      rfl
    | comment inner =>
      obtain ⟨last'?, offset', hrun⟩ := ih (some '/') (offset + inner.text.length)
      exact ⟨last'?, offset', hrun ▸ runFrom_blockComment inner.closed _ _ _ _⟩

/-- The word that follows is the name of an open pragma. -/
theorem runFrom_naming_word (start : Nat) {name : Text} (hne : name ≠ []) (hall : name.all Text.isIdentifier = true)
    (hkeyword : ∀ word : Keyword, name ≠ word.text) (hs : Pattern.startsIdentifier s = false) :
    ∃ last'? offset', runFrom ⟨.naming start, .code, 0⟩ ⟨last?, offset, name ++ s⟩ =
      runFrom ⟨.valuing start name [], .code, 0⟩ ⟨last'?, offset', s⟩ := by
  obtain ⟨last'?, hskip⟩ := Cursor.skip_append last? offset name s
  refine ⟨last'?, offset + name.length, ?_⟩
  have hword : Cursor.word ⟨last?, offset, name ++ s⟩ = name := Cursor.word_of_all hall hs
  have hsign : Cursor.sign? ⟨last?, offset, name ++ s⟩ = some .identifier := by
    obtain ⟨c, tail, rfl⟩ := List.exists_cons_of_ne_nil hne
    rw [List.cons_append] at hword ⊢
    refine Cursor.sign?_identifier (Bool.and_eq_true_iff.1 hall).1 fun word => ?_
    rw [hword]
    exact hkeyword word
  rw [runFrom_name hsign, hword, hskip]

private theorem runFrom_literal {mode : Mode} (hnaming : mode.isNaming = false) (hcapture : ∀ c, mode.capture c = mode)
    (literal : StringLiteral) :
    runFrom ⟨mode, .code, 0⟩ ⟨last?, offset, literal.text ++ s⟩ =
      runFrom ⟨mode, .string literal.mark [], 0⟩
        ⟨some literal.mark.char, offset + 1, literal.content ++ literal.mark.char :: s⟩ := by
  have htext : literal.text ++ s = literal.mark.char :: (literal.content ++ literal.mark.char :: s) := by
    rw [StringLiteral.text, List.cons_append, List.append_assoc, List.singleton_append]
  rw [htext, runFrom_quote hnaming (Cursor.sign?_quote _ _ _ _), hcapture]
  rfl

/-- A string literal that comes in an open import is its path. -/
theorem runFrom_importing_literal (start : Nat) (literal : StringLiteral) :
    ∃ stop, runFrom ⟨.importing start, .code, 0⟩ ⟨last?, offset, literal.text ++ s⟩ =
      .imported literal.content ⟨start, stop⟩ :: runFrom .initial ⟨some literal.mark.char, stop, s⟩ := by
  refine ⟨offset + 1 + literal.content.length + 1, ?_⟩
  rw [runFrom_literal last? offset rfl fun _ => rfl, runFrom_readString_importing,
    Cursor.readString_append literal.mark literal.closed]
  rfl

/-- Outside directives a string literal is passed over. -/
theorem runFrom_initial_literal (literal : StringLiteral) :
    ∃ last'? offset', runFrom .initial ⟨last?, offset, literal.text ++ s⟩ = runFrom .initial ⟨last'?, offset', s⟩ := by
  refine ⟨some literal.mark.char, offset + 1 + literal.content.length + 1, ?_⟩
  rw [initial, runFrom_literal last? offset rfl fun _ => rfl, runFrom_readString rfl, Mode.captureAll_top,
    Cursor.readString_append literal.mark literal.closed]

/-- A line comment ends at the end of its line. -/
theorem runFrom_lineComment {body : Text} (h : '\n' ∉ body) (hs : ∀ c ∈ s.head?, c = '\n') :
    ∃ last'? offset', runFrom ⟨.top, .comment .line, 0⟩ ⟨last?, offset, body ++ s⟩ =
      runFrom .initial ⟨last'?, offset', s⟩ := by
  induction body generalizing last? offset with
  | nil =>
    refine ⟨last?, offset, ?_⟩
    cases s with
    | nil => rfl
    | cons c s =>
      obtain rfl := hs c rfl
      rfl
  | cons c body ih =>
    rw [List.mem_cons, not_or] at h
    by_cases hend : Cursor.atLineEnd ⟨last?, offset, c :: (body ++ s)⟩ = true
    · -- Of the body, only a carriage return at its end can belong to the line ending.
      rw [Cursor.atLineEnd, Bool.or_eq_true, List.isPrefixOf_iff_prefix, List.isPrefixOf_iff_prefix] at hend
      rcases hend with ⟨tail, htail⟩ | ⟨tail, htail⟩
      · exact absurd (List.cons.inj htail).1 h.1
      · obtain ⟨rfl, hrest⟩ := List.cons.inj htail
        cases body with
        | nil =>
          rw [List.nil_append] at hrest
          subst hrest
          exact ⟨some '\r', offset + 1, rfl⟩
        | cons d body => exact absurd (List.mem_cons.2 (.inl (List.cons.inj hrest).1)) h.2
    · obtain ⟨last'?, offset', hrun⟩ := ih (some c) (offset + 1) h.2
      have hstep : step ⟨.top, .comment .line, 0⟩ ⟨last?, offset, c :: (body ++ s)⟩ =
          (none, ⟨.top, .comment .line, 0⟩) := by
        simp only [step, Lexer.step, Lexer.settle, if_neg hend]
      refine ⟨last'?, offset', ?_⟩
      rw [List.cons_append, runFrom_cons, hstep]
      exact hrun

/-- Of an import, the pass reports its path. -/
theorem runFrom_import (item : ImportItem) (hlast : last?.any Text.isIdentifier = false) :
    ∃ last'? offset' span, runFrom .initial ⟨last?, offset, item.text ++ s⟩ =
      .imported item.path.content span :: runFrom .initial ⟨last'?, offset', s⟩ := by
  have hquote : Breaks (item.path.text ++ (item.tail ++ ';' :: s)) := breaks_quote _ _
  have hsemicolon : Breaks (';' :: s) := breaks_cons (by decide) s
  have hstarts := startsIdentifier_append item.startsIdentifier_clause hquote
  obtain ⟨last₁?, offset₁, hword⟩ := runFrom_initial_keyword last? offset .importWord hlast hstarts
  obtain ⟨last₂?, offset₂, hclause⟩ := runFrom_detached last₁? offset₁ (.importing offset) item.plain_clause
    hquote rfl nofun item.startsIdentifier_clause
  obtain ⟨stop, hpath⟩ := runFrom_importing_literal (s := item.tail ++ ';' :: s) last₂? offset₂ offset item.path
  obtain ⟨last₃?, offset₃, htail⟩ := runFrom_plain (some item.path.mark.char) stop .top item.plain_tail
    hsemicolon rfl nofun fun _ => startsIdentifier_of_breaks (breaks_quote item.path.mark [])
  have htext : item.text ++ s =
      Keyword.importWord.text ++ (item.clause ++ (item.path.text ++ (item.tail ++ ';' :: s))) := by
    simp only [ImportItem.text, List.append_assoc, List.singleton_append]
  refine ⟨some ';', offset₃ + 1, ⟨offset, stop⟩, ?_⟩
  rw [Mode.captureAll_importing] at hclause
  rw [Mode.captureAll_top] at htail
  rw [htext, hword, Mode.ofKeyword, hclause, hpath, initial, htail, runFrom_semicolon rfl]
  rfl

/-- Of a pragma, the pass reports its name and value. -/
theorem runFrom_pragma (item : PragmaItem) (hlast : last?.any Text.isIdentifier = false) :
    ∃ last'? offset' span, runFrom .initial ⟨last?, offset, item.text ++ s⟩ =
      .pragma item.name item.value span :: runFrom .initial ⟨last'?, offset', s⟩ := by
  have hsemicolon : Breaks (';' :: s) := breaks_cons (by decide) s
  have hvalue := startsIdentifier_append item.startsIdentifier_value hsemicolon
  have hgaps := startsIdentifier_gaps item.gaps_ne_nil (item.name ++ (item.value ++ ';' :: s))
  obtain ⟨last₁?, offset₁, hword⟩ := runFrom_initial_keyword last? offset .pragmaWord hlast hgaps
  obtain ⟨last₂?, offset₂, hgap⟩ :=
    runFrom_gaps (s := item.name ++ (item.value ++ ';' :: s)) last₁? offset₁ offset item.gaps
  obtain ⟨last₃?, offset₃, hname⟩ :=
    runFrom_naming_word last₂? offset₂ offset item.name_ne_nil item.all_name item.name_ne_keyword hvalue
  obtain ⟨last₄?, offset₄, hvalue⟩ := runFrom_detached last₃? offset₃ (.valuing offset item.name [])
    item.plain_value hsemicolon rfl (fun _ => item.semicolon_value) item.startsIdentifier_value
  have htext : item.text ++ s =
      Keyword.pragmaWord.text ++ (item.gaps.flatMap Gap.text ++ (item.name ++ (item.value ++ ';' :: s))) := by
    simp only [PragmaItem.text, List.append_assoc, List.singleton_append]
  refine ⟨some ';', offset₄ + 1, ⟨offset, offset₄ + 1⟩, ?_⟩
  rw [Mode.captureAll_valuing, List.nil_append] at hvalue
  rw [htext, hword, Mode.ofKeyword, hgap, hname, hvalue, runFrom_semicolon rfl]
  rfl

/-- Of what is no directive, the pass reports nothing. -/
theorem runFrom_filler (filler : Filler) (hlast : last?.any Text.isIdentifier = false) (hs : ∀ c ∈ s.head?, c = '\n') :
    ∃ last'? offset', runFrom .initial ⟨last?, offset, filler.text ++ s⟩ = runFrom .initial ⟨last'?, offset', s⟩ := by
  cases filler with
  | blockComment comment => exact ⟨_, _, runFrom_blockComment comment.closed _ _ _ _⟩
  | lineComment body h =>
    obtain ⟨last'?, offset', hrun⟩ := runFrom_lineComment (some '/') (offset + 2) h hs
    refine ⟨last'?, offset', hrun ▸ ?_⟩
    have hsign : Cursor.sign? ⟨last?, offset, '/' :: '/' :: (body ++ s)⟩ = some (.comment .line) := rfl
    exact runFrom_comment hsign
  | string literal => exact runFrom_initial_literal last? offset literal
  | plain text h =>
    have hbreaks : Breaks s := fun c hc => by
      obtain rfl := hs c hc
      decide
    obtain ⟨last'?, offset', hrun⟩ := runFrom_plain last? offset .top h hbreaks rfl nofun fun _ => hlast
    rw [Mode.captureAll_top] at hrun
    exact ⟨last'?, offset', hrun⟩

/-- Of an item, the pass reports the directive that the item is. -/
theorem runFrom_item (item : Item) (hlast : last?.any Text.isIdentifier = false) (hs : ∀ c ∈ s.head?, c = '\n') :
    ∃ last'? offset' span, runFrom .initial ⟨last?, offset, item.text ++ s⟩ =
      (item.directive? span).toList ++ runFrom .initial ⟨last'?, offset', s⟩ := by
  cases item with
  | imported item => exact runFrom_import last? offset item hlast
  | pragma item => exact runFrom_pragma last? offset item hlast
  | filler filler =>
    obtain ⟨last'?, offset', hrun⟩ := runFrom_filler last? offset filler hlast hs
    exact ⟨last'?, offset', ⟨0, 0⟩, hrun⟩

end Pass

namespace Item

/-- Behind an item comes nothing or a line feed, and behind that the items that follow. -/
private theorem print_cons (item : Item) (items : List Item) :
    ∃ s, print (item :: items) = item.text ++ s ∧ (∀ c ∈ s.head?, c = '\n') ∧
      ∀ last? offset, ∃ last'? offset', last'?.any Text.isIdentifier = false ∧
        Pass.runFrom .initial ⟨last?, offset, s⟩ = Pass.runFrom .initial ⟨last'?, offset', print items⟩ := by
  cases items with
  | nil => exact ⟨[], (List.append_nil _).symm, nofun, fun _ _ => ⟨none, 0, rfl, rfl⟩⟩
  | cons next items =>
    exact ⟨'\n' :: print (next :: items), List.append_assoc _ ['\n'] _, fun c hc => (Option.some.inj hc).symm,
      fun _ offset => ⟨some '\n', offset + 1, rfl, rfl⟩⟩

private theorem ofDirectives_directive? (item : Item) (span : Span) :
    Metadata.ofDirectives (item.directive? span).toList = ⟨[item].filterMap path?, [item].filterMap solidity?⟩ := by
  cases item <;> rfl

private theorem ofDirectives_print (items : List Item) {last? : Option Char}
    (hlast : last?.any Text.isIdentifier = false) (offset : Nat) :
    Metadata.ofDirectives (Pass.runFrom .initial ⟨last?, offset, print items⟩) =
      ⟨items.filterMap path?, items.filterMap solidity?⟩ := by
  induction items generalizing last? offset with
  | nil => rfl
  | cons item items ih =>
    obtain ⟨s, hprint, hs, hnext⟩ := print_cons item items
    obtain ⟨last₁?, offset₁, span, hitem⟩ := Pass.runFrom_item last? offset item hlast hs
    obtain ⟨last₂?, offset₂, hlast₂, hitems⟩ := hnext last₁? offset₁
    have hcons : item :: items = [item] ++ items := rfl
    rw [hprint, hitem, hitems, Metadata.ofDirectives_append, ofDirectives_directive?, ih hlast₂, hcons,
      List.filterMap_append, List.filterMap_append]

end Item

/-- From a printed source exactly the paths of its imports and the values of its `solidity` pragmas are extracted, as
    they have been printed, in order and with repetitions. -/
theorem extract_print (items : List Item) :
    extract (Item.print items) = ⟨items.filterMap Item.path?, items.filterMap Item.solidity?⟩ := by
  rw [extract, scan, Scanner.directives_eq]
  exact Item.ofDirectives_print items rfl 0

example : Item.print
    [.imported ⟨" * as x from ".toList, ⟨.single, "a.sol".toList, by decide⟩, [], by decide, rfl, by decide⟩,
      .filler (.lineComment " import 'b.sol';".toList (by decide)),
      .pragma ⟨[.blank ' ' (by decide)], "solidity".toList, " ^0.8.0".toList, by decide, by decide, by decide,
        by decide, by decide, rfl, by decide⟩] =
    "import * as x from 'a.sol';\n// import 'b.sol';\npragma solidity ^0.8.0;".toList := by
  decide

end DirectiveIndex
