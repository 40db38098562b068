import DirectiveIndex.Proofs.Anchors
import DirectiveIndex.Proofs.Pass

namespace DirectiveIndex

/-- The state of the pass behind the first `p` characters of a source. -/
def passAt (source : Text) : Nat → Pass
  | 0 => .initial
  | p + 1 => ((passAt source p).step (placeAt source p)).2

/-- The state of the lexer behind the first `p` characters, as the pass keeps it. -/
def readingAt (source : Text) (p : Nat) : Lexer :=
  (passAt source p).lexer

/-- A keyword stands at `p`, outside comments and string literals. -/
def LiveIn (source : Text) (reading : Nat → Lexer) (word : Keyword) (p : Nat) : Prop :=
  (reading p).settle (placeAt source p) = .code ∧ (placeAt source p).sign? = some (.keyword word)

/-- A string literal opens at `q`. -/
def OpensIn (source : Text) (reading : Nat → Lexer) (mark : Quote) (q : Nat) : Prop :=
  (reading q).settle (placeAt source q) = .code ∧ reading (q + 1) = .string mark []

/-- Between `p` and `q` no string literal opens and no keyword stands. -/
def QuietIn (source : Text) (reading : Nat → Lexer) (p q : Nat) : Prop :=
  ∀ r < q, p < r → (∀ mark, ¬ OpensIn source reading mark r) ∧ ∀ word, ¬ LiveIn source reading word r

/-- The first string opener or keyword behind `p` is a string opener, at `q`. -/
def PathIn (source : Text) (reading : Nat → Lexer) (p q : Nat) (mark : Quote) : Prop :=
  p < q ∧ OpensIn source reading mark q ∧ QuietIn source reading p q

/-- What a character belongs to. -/
inductive Region where
  | code
  | comment
  | string
deriving DecidableEq, Repr

/-- What the character at `p` belongs to; the marks that open and close a construct are part of it. -/
def regionIn (source : Text) (reading : Nat → Lexer) (p : Nat) : Region :=
  match (reading p).settle (placeAt source p) with
  | .string _ _ => .string
  | .code =>
    match reading (p + 1) with
    | .string _ _ => .string
    | .opening _ => .comment
    | _ => .code
  | _ => .comment

/-- The plain lexer has the character at `p` outside comments and string literals. -/
def Outside (source : Text) (p : Nat) : Prop :=
  p < source.length ∧ regionIn source (lexerAt source) p = .code

/-- The characters that open and close a string. -/
def isQuote (c : Char) : Bool :=
  c == Quote.double.char || c == Quote.single.char

/-- Whether a character shows what follows a `pragma`: a name, nothing at all, or a string literal. -/
def isTelling (c : Char) : Bool :=
  Text.isIdentifier c || c == ';' || isQuote c

/-- Whether a telling character stands at `p`, outside comments. -/
def tellsIn (source : Text) (reading : Nat → Lexer) (p : Nat) : Bool :=
  regionIn source reading p != .comment && source[p]?.any isTelling

/-- The first telling character behind the `pragma` at `p` is a quote mark, at `q`. -/
def QuotedIn (source : Text) (reading : Nat → Lexer) (p q : Nat) : Prop :=
  LiveIn source reading .pragmaWord p ∧ p + Keyword.pragmaWord.text.length ≤ q ∧
    tellsIn source reading q = true ∧ source[q]?.any isQuote = true ∧
    ∀ r < q, p + Keyword.pragmaWord.text.length ≤ r → tellsIn source reading r = false

/-- No `pragma` is followed by a quote mark where its name should be. -/
def NamesUnquoted (source : Text) : Prop :=
  ∀ p q, ¬ QuotedIn source (lexerAt source) p q

section Decidable

variable (source : Text) (reading : Nat → Lexer)

instance {P : Quote → Prop} [DecidablePred P] : Decidable (∀ mark, P mark) :=
  decidable_of_iff (P .double ∧ P .single)
    ⟨fun h mark => match mark with | .double => h.1 | .single => h.2, fun h => ⟨h _, h _⟩⟩

instance {P : Keyword → Prop} [DecidablePred P] : Decidable (∀ word, P word) :=
  decidable_of_iff (P .importWord ∧ P .pragmaWord)
    ⟨fun h word => match word with | .importWord => h.1 | .pragmaWord => h.2, fun h => ⟨h _, h _⟩⟩

instance (word : Keyword) (p : Nat) : Decidable (LiveIn source reading word p) :=
  inferInstanceAs (Decidable (_ ∧ _))

instance (mark : Quote) (q : Nat) : Decidable (OpensIn source reading mark q) :=
  inferInstanceAs (Decidable (_ ∧ _))

instance (p q : Nat) : Decidable (QuietIn source reading p q) :=
  inferInstanceAs (Decidable (∀ r < q, p < r → _))

instance (p q : Nat) (mark : Quote) : Decidable (PathIn source reading p q mark) :=
  inferInstanceAs (Decidable (_ ∧ _))

instance (p q : Nat) : Decidable (QuotedIn source reading p q) :=
  inferInstanceAs (Decidable (_ ∧ _))

instance (p : Nat) : Decidable (Outside source p) :=
  inferInstanceAs (Decidable (_ ∧ _))

end Decidable

/-- The text of the string literal that opens at `q`. -/
def contentAt (source : Text) (mark : Quote) (q : Nat) : Text :=
  (source.drop (q + 1)).takeWhile (· != mark.char)

/-- What is left to read at a place. -/
@[simp]
theorem rest_placeAt (source : Text) (p : Nat) : (placeAt source p).rest = source.drop p := by
  simp [placeAt, Cursor.ofText]

/-- Inside a source, the offset of a place is its position. -/
theorem offset_placeAt {source : Text} {p : Nat} (h : p ≤ source.length) : (placeAt source p).offset = p :=
  (Cursor.offset_skip h).trans (Nat.zero_add p)

/-- The next place is one character further on. -/
theorem placeAt_succ (source : Text) (p : Nat) : placeAt source (p + 1) = (placeAt source p).skip 1 :=
  (Cursor.skip_skip p 1 _).symm

/-- Before the end of a source, a place stands before a character of it. -/
theorem placeAt_of_lt {source : Text} {p : Nat} (h : p < source.length) :
    ∃ last?, placeAt source p = ⟨last?, p, source[p] :: source.drop (p + 1)⟩ := by
  have hrest := rest_placeAt source p
  have hoffset := offset_placeAt (Nat.le_of_lt h)
  rw [List.drop_eq_getElem_cons h] at hrest
  refine ⟨(placeAt source p).last?, ?_⟩
  generalize placeAt source p = place at hrest hoffset
  subst hoffset
  rw [← hrest]

/-- Past a character of a source, that character is the last one read. -/
theorem placeAt_succ_of_lt {source : Text} {p : Nat} (h : p < source.length) :
    placeAt source (p + 1) = ⟨some source[p], p + 1, source.drop (p + 1)⟩ := by
  obtain ⟨last?, hplace⟩ := placeAt_of_lt h
  rw [placeAt_succ, hplace]
  rfl

/-- The last character read is the one before the place. -/
theorem last?_placeAt {source : Text} {p : Nat} (hp : p ≤ source.length) :
    (placeAt source p).last? = (source.take p).getLast? := by
  cases p with
  | zero => rfl
  | succ p => rw [placeAt_succ_of_lt hp, List.take_succ_eq_append_getElem hp, List.getLast?_concat]

/-- The place where two texts meet. -/
theorem placeAt_length_append (a s : Text) : placeAt (a ++ s) a.length = ⟨a.getLast?, a.length, s⟩ := by
  have hle : a.length ≤ (a ++ s).length := List.length_append ▸ Nat.le_add_right _ _
  have hlast := last?_placeAt hle
  have hrest := rest_placeAt (a ++ s) a.length
  rw [List.take_left] at hlast
  rw [List.drop_left] at hrest
  have hoffset := offset_placeAt hle
  generalize placeAt (a ++ s) a.length = place at hlast hrest hoffset
  obtain ⟨last?, offset, rest⟩ := place
  dsimp only at hlast hrest hoffset
  rw [hlast, hrest, hoffset]

/-- Nothing is left to read behind the end of a source. -/
theorem rest_placeAt_of_length_le {source : Text} {p : Nat} (h : source.length ≤ p) : (placeAt source p).rest = [] :=
  (rest_placeAt source p).trans (List.drop_eq_nil_of_le h)

/-- A live keyword stands inside the source. -/
theorem lt_length_of_liveIn {source : Text} {reading : Nat → Lexer} {word : Keyword} {p : Nat}
    (h : LiveIn source reading word p) : p < source.length := by
  refine Nat.lt_of_not_le fun hle => ?_
  have hrest := rest_placeAt_of_length_le hle
  obtain ⟨_, hsign⟩ := h
  generalize placeAt source p = place at hrest hsign
  obtain ⟨last?, offset, _⟩ := place
  subst hrest
  rw [Cursor.sign?_nil] at hsign
  cases hsign

/-- A string that is closed is closed inside the source. -/
theorem lt_length_of_quotedIn {source : Text} {reading : Nat → Lexer} {p q : Nat}
    (h : QuotedIn source reading p q) : q < source.length := by
  refine Nat.lt_of_not_le fun hle => ?_
  obtain ⟨_, _, _, hchar, _⟩ := h
  rw [List.getElem?_eq_none hle] at hchar
  cases hchar

instance (source : Text) : Decidable (NamesUnquoted source) :=
  decidable_of_iff (∀ p < source.length, ∀ q < source.length, ¬ QuotedIn source (lexerAt source) p q)
    ⟨fun h p q hquoted => h p (lt_length_of_liveIn hquoted.1) q (lt_length_of_quotedIn hquoted) hquoted,
      fun h p _ q _ => h p q⟩

/-- Behind the end of a source nothing changes. -/
theorem passAt_succ_of_length_le {source : Text} {p : Nat} (h : source.length ≤ p) :
    passAt source (p + 1) = passAt source p := by
  rw [passAt]
  unfold Pass.step
  rw [rest_placeAt_of_length_le h]

/-- Behind the end of a source, the reading stays as it is. -/
theorem lexerAt_succ_of_length_le {source : Text} {p : Nat} (h : source.length ≤ p) :
    lexerAt source (p + 1) = lexerAt source p := by
  rw [lexerAt]
  unfold Lexer.step
  rw [rest_placeAt_of_length_le h]

end DirectiveIndex
