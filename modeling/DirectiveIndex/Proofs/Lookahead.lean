import DirectiveIndex.Proofs.Reading

namespace DirectiveIndex

/-- No word goes on from the one text into the other: the characters that meet are not both identifier
    characters. -/
def WordBreak (u s : Text) : Prop :=
  ∀ c ∈ u.getLast?, ∀ d ∈ s.head?, ¬ (Text.isIdentifier c ∧ Text.isIdentifier d)

instance (u s : Text) : Decidable (WordBreak u s) :=
  decidable_of_iff (u.getLast?.all fun c => s.head?.all fun d => decide ¬ (Text.isIdentifier c ∧ Text.isIdentifier d))
    (by simp only [WordBreak, Option.all_eq_true, Option.mem_def, decide_eq_true_eq])

/-- No word and no comment opening goes on from the one text into the other. -/
structure SignBreak (u s : Text) : Prop where
  word : WordBreak u s
  opening : u = ['/'] → s.head? ≠ some '/' ∧ s.head? ≠ some '*'

/-- No word, no comment opening and no end of a block comment goes on in the text. -/
def Breaks (s : Text) : Prop :=
  ∀ c ∈ s.head?, Text.isIdentifier c = false ∧ c ≠ '/' ∧ c ≠ '*'

/-- Whether an open comment ends at a place. -/
def CommentKind.endsAt (place : Cursor) : CommentKind → Bool
  | .block => "*/".toList.isPrefixOf place.rest
  | .line => place.atLineEnd

variable {u s : Text} {last? : Option Char} {offset : Nat} {c : Char}

/-- The first character alone decides whether something goes on in a text. -/
theorem breaks_cons (hc : Text.isIdentifier c = false ∧ c ≠ '/' ∧ c ≠ '*') (s : Text) : Breaks (c :: s) := by
  intro d hd
  obtain rfl := Option.some.inj hd
  exact hc

/-- A quote goes on from nothing before it. -/
theorem breaks_quote (mark : Quote) (s : Text) : Breaks (mark.char :: s) :=
  breaks_cons (by cases mark <;> decide) s

/-- What breaks after every text breaks after a given one. -/
theorem Breaks.signBreak (hs : Breaks s) (u : Text) : SignBreak u s where
  word _ _ d hd hboth := Bool.false_ne_true ((hs d hd).1.symm.trans hboth.2)
  opening _ := ⟨fun h => (hs '/' h).2.1 rfl, fun h => (hs '*' h).2.2 rfl⟩

/-- Whether a word goes on depends on the last character only. -/
theorem WordBreak.drop {a : Text} (h : WordBreak a s) {p : Nat} (hp : p < a.length) : WordBreak (a.drop p) s := by
  intro c hc
  rw [List.getLast?_drop, if_neg (Nat.not_le.2 hp)] at hc
  exact h c hc

/-- With two characters left before the text, no comment opening lies across its beginning. -/
theorem WordBreak.signBreak (h : WordBreak (c :: u) s) (hu : u ≠ []) : SignBreak (c :: u) s where
  word := h
  opening hslash := absurd (List.cons.inj hslash).2 hu

private theorem isPrefixOf_append {text : Text} (h : text.length ≤ u.length) :
    text.isPrefixOf (u ++ s) = text.isPrefixOf u := by
  rw [Bool.eq_iff_iff, List.isPrefixOf_iff_prefix, List.isPrefixOf_iff_prefix]
  constructor
  · intro hahead
    exact List.prefix_of_prefix_length_le hahead (List.prefix_append u s) h
  · intro hahead
    exact hahead.trans (List.prefix_append u s)

private theorem isPrefixOf_cons_append (text : Text) (h : text.length ≤ 1) :
    text.isPrefixOf (c :: (u ++ s)) = text.isPrefixOf (c :: u) :=
  isPrefixOf_append (u := c :: u) (Nat.le_trans h (Nat.le_add_left 1 u.length))

/-- A mark of two characters is told from the text, unless its first one is all that the text has left. -/
private theorem pair_isPrefixOf_append {a b : Char} (h : c :: u = [a] → s.head? ≠ some b) :
    [a, b].isPrefixOf (c :: (u ++ s)) = [a, b].isPrefixOf (c :: u) := by
  cases u with
  | cons d u => exact isPrefixOf_append (u := c :: d :: u) (by simp)
  | nil =>
    by_cases hc : a = c
    · subst hc
      cases s with
      | nil => rfl
      | cons d s =>
        have hne : (b == d) = false := beq_eq_false_iff_ne.2 fun heq => h rfl (congrArg some heq.symm)
        rw [List.nil_append, List.isPrefixOf_cons_cons, List.isPrefixOf_cons_cons, hne]
        rfl
    · rw [List.isPrefixOf_cons_cons, List.isPrefixOf_cons_cons, beq_eq_false_iff_ne.2 hc]
      rfl

namespace Cursor

/-- The word at a place ends before the text that is appended. -/
theorem word_append (h : WordBreak (c :: u) s) :
    word ⟨last?, offset, c :: (u ++ s)⟩ = word ⟨last?, offset, c :: u⟩ := by
  rw [word, word, ← List.cons_append, List.takeWhile_append]
  split
  · rename_i hlength
    have hall : (c :: u).takeWhile Text.isIdentifier = c :: u := (List.takeWhile_prefix _).eq_of_length hlength
    have hstarts : Pattern.startsIdentifier s = false := by
      cases s with
      | nil => rfl
      | cons d s =>
        have hmem := List.getLast_mem (List.cons_ne_nil c u)
        have hlast := List.all_eq_true.1 (hall ▸ List.all_takeWhile) _ hmem
        have hd := h _ (List.getLast?_eq_some_getLast (List.cons_ne_nil c u)) d rfl
        exact Bool.eq_false_iff.2 fun hd' => hd ⟨hlast, hd'⟩
    rw [hall, Pattern.takeWhile_of_startsIdentifier hstarts, List.append_nil]
  · rfl

private theorem beginsAt_append (h : SignBreak (c :: u) s) (sign : Sign) :
    sign.beginsAt ⟨last?, offset, c :: (u ++ s)⟩ = sign.beginsAt ⟨last?, offset, c :: u⟩ := by
  cases sign with
  | keyword word => rw [Sign.beginsAt_keyword, Sign.beginsAt_keyword, word_append h.word]
  | comment kind =>
    cases kind with
    | block => exact pair_isPrefixOf_append fun hslash => (h.opening hslash).2
    | line => exact pair_isPrefixOf_append fun hslash => (h.opening hslash).1
  | quote mark => exact isPrefixOf_cons_append _ Nat.le.refl
  | semicolon => exact isPrefixOf_cons_append _ Nat.le.refl
  | identifier => rfl

/-- What begins at a place is told without the text that is appended. -/
theorem sign?_append (h : SignBreak (c :: u) s) :
    sign? ⟨last?, offset, c :: (u ++ s)⟩ = sign? ⟨last?, offset, c :: u⟩ := by
  unfold sign?
  congr 1
  funext sign
  exact beginsAt_append h sign

end Cursor

/-- The end of an open comment is told from the text, unless the text is the first character of an end that goes
    on in what is appended. -/
theorem CommentKind.endsAt_append {kind : CommentKind} (hblock : kind = .block → c :: u = ['*'] → s.head? ≠ some '/')
    (hline : kind = .line → c :: u = ['\r'] → s.head? ≠ some '\n') :
    kind.endsAt ⟨last?, offset, c :: (u ++ s)⟩ = kind.endsAt ⟨last?, offset, c :: u⟩ := by
  cases kind with
  | block => exact pair_isPrefixOf_append (hblock rfl)
  | line =>
    have hfeed : ['\n'].isPrefixOf (c :: (u ++ s)) = ['\n'].isPrefixOf (c :: u) :=
      isPrefixOf_cons_append _ Nat.le.refl
    have hreturn : ['\r', '\n'].isPrefixOf (c :: (u ++ s)) = ['\r', '\n'].isPrefixOf (c :: u) :=
      pair_isPrefixOf_append (hline rfl)
    rw [endsAt, endsAt, Cursor.atLineEnd, Cursor.atLineEnd, hfeed, hreturn]

section Step

variable {lexer : Lexer}
  (h : SignBreak (c :: u) s)
  (hends : ∀ kind, lexer = .comment kind →
    kind.endsAt ⟨last?, offset, c :: (u ++ s)⟩ = kind.endsAt ⟨last?, offset, c :: u⟩)

include hends in
/-- A line comment is left where it was left without the text that is appended. -/
theorem Lexer.settle_append :
    lexer.settle ⟨last?, offset, c :: (u ++ s)⟩ = lexer.settle ⟨last?, offset, c :: u⟩ := by
  unfold settle
  split
  · have hline := hends .line rfl
    rw [CommentKind.endsAt, CommentKind.endsAt] at hline
    rw [hline]
  · rfl

include h hends in
/-- A step of the lexer looks at the appended text only where a sign or the end of a comment lies
across its beginning. -/
theorem Lexer.step_append :
    lexer.step ⟨last?, offset, c :: (u ++ s)⟩ = lexer.step ⟨last?, offset, c :: u⟩ := by
  simp only [step, settle_append hends, Cursor.sign?_append h]
  split
  · rfl
  · rfl
  · rename_i hblock
    have hlexer : lexer = .comment .block := by
      rw [← hblock, settle_eq_self (by rw [hblock]; exact Lexer.noConfusion)]
    have hclosing := hends .block hlexer
    rw [CommentKind.endsAt, CommentKind.endsAt] at hclosing
    rw [hclosing]
  · rfl
  · rfl
  · rfl

end Step

/-- A step of the pass looks no further than that of its lexer. -/
theorem Pass.step_append {pass : Pass} (h : SignBreak (c :: u) s)
    (hends : ∀ kind, pass.lexer = .comment kind →
      kind.endsAt ⟨last?, offset, c :: (u ++ s)⟩ = kind.endsAt ⟨last?, offset, c :: u⟩) :
    pass.step ⟨last?, offset, c :: (u ++ s)⟩ = pass.step ⟨last?, offset, c :: u⟩ := by
  have hmeet (mode : Mode) (sign? : Option Sign) :
      meet mode ⟨last?, offset, c :: (u ++ s)⟩ c sign? = meet mode ⟨last?, offset, c :: u⟩ c sign? := by
    unfold meet
    rw [Cursor.word_append h.word]
  obtain ⟨mode, lexer, due⟩ := pass
  cases due with
  | succ due => rfl
  | zero =>
    simp only [step, Lexer.settle_append hends, Cursor.sign?_append h, hmeet]
    split
    · rfl
    · rfl
    · rename_i hcode _
      rw [Lexer.settle_eq_self hcode, Lexer.step_append h hends]

/-- The places of a source are those of a longer one, with more left to read. -/
theorem placeAt_append {a : Text} (s : Text) {p : Nat} (hp : p ≤ a.length) :
    ∃ last?, placeAt a p = ⟨last?, p, a.drop p⟩ ∧ placeAt (a ++ s) p = ⟨last?, p, a.drop p ++ s⟩ := by
  cases p with
  | zero => exact ⟨none, rfl, rfl⟩
  | succ p =>
    have hlt : p < (a ++ s).length := by
      rw [List.length_append]
      omega
    refine ⟨some a[p], placeAt_succ_of_lt hp, ?_⟩
    rw [placeAt_succ_of_lt hlt, List.getElem_append_left hp, List.drop_append_of_le_length hp]

section Source

variable {a : Text} {p : Nat}

/-- At any character but the last one, the pass does the same whatever follows the source, if no word goes on in
    it. -/
theorem Pass.step_append_of_lt (h : WordBreak a s) (hp : p + 1 < a.length) (pass : Pass) :
    pass.step (placeAt (a ++ s) p) = pass.step (placeAt a p) := by
  have hlt := Nat.lt_of_succ_lt hp
  obtain ⟨last?, hplace, happend⟩ := placeAt_append s (Nat.le_of_lt hlt)
  have hword := h.drop hlt
  have hmore : a.drop (p + 1) ≠ [] := List.ne_nil_of_length_pos (by rw [List.length_drop]; omega)
  rw [List.drop_eq_getElem_cons hlt] at hplace happend hword
  rw [hplace, happend]
  refine step_append (hword.signBreak hmore) fun kind _ => CommentKind.endsAt_append ?_ ?_
  · exact fun _ hstar => absurd (List.cons.inj hstar).2 hmore
  · exact fun _ hreturn => absurd (List.cons.inj hreturn).2 hmore

/-- What follows a source does not change how its first `p` characters are read, if it changes nothing at any of
    them. -/
theorem passAt_append_of_step
    (h : ∀ q < p, (passAt a q).step (placeAt (a ++ s) q) = (passAt a q).step (placeAt a q)) :
    passAt (a ++ s) p = passAt a p := by
  induction p with
  | zero => rfl
  | succ p ih =>
    rw [passAt, passAt, ih fun q hq => h q (Nat.lt_succ_of_lt hq), h p (Nat.lt_succ_self p)]

private theorem head_of_drop (hend : s.head? ≠ some '\n' ∨ p + 1 < a.length) (hp : p < a.length)
    (h : a[p] :: a.drop (p + 1) = ['\r']) : s.head? ≠ some '\n' := by
  refine hend.resolve_right fun hlt => ?_
  have hlength := congrArg List.length h
  rw [List.length_cons, List.length_drop, List.length_singleton] at hlength
  omega

/-- What follows the first `p` characters of a source does not change how they are read, if it breaks off words
    and marks and does not complete a line ending. -/
theorem lexerAt_append (hs : Breaks s) (hend : s.head? ≠ some '\n' ∨ p < a.length) (hp : p ≤ a.length) :
    lexerAt (a ++ s) p = lexerAt a p := by
  induction p with
  | zero => rfl
  | succ p ih =>
    obtain ⟨last?, hplace, happend⟩ := placeAt_append s (Nat.le_of_succ_le hp)
    rw [List.drop_eq_getElem_cons hp] at hplace happend
    rw [lexerAt, lexerAt, ih (hend.imp id Nat.lt_of_succ_lt) (Nat.le_of_succ_le hp), hplace, happend]
    exact Lexer.step_append (hs.signBreak _) fun kind _ =>
      CommentKind.endsAt_append (fun _ _ hhead => (hs _ hhead).2.1 rfl) fun _ => head_of_drop hend hp

/-- The pass comes to a place of a source in the same state whatever breaks follows it, except that
a line feed may end a comment at the very end. -/
theorem passAt_append (hs : Breaks s) (hend : s.head? ≠ some '\n' ∨ p < a.length) (hp : p ≤ a.length) :
    passAt (a ++ s) p = passAt a p := by
  refine passAt_append_of_step fun q hq => ?_
  have hlt := Nat.lt_of_lt_of_le hq hp
  obtain ⟨last?, hplace, happend⟩ := placeAt_append s (Nat.le_of_lt hlt)
  rw [List.drop_eq_getElem_cons hlt] at hplace happend
  rw [hplace, happend]
  exact Pass.step_append (hs.signBreak _) fun kind _ =>
    CommentKind.endsAt_append (fun _ _ hhead => (hs _ hhead).2.1 rfl) fun _ =>
      head_of_drop (hend.imp id (Nat.lt_of_le_of_lt hq)) hlt

end Source

end DirectiveIndex
