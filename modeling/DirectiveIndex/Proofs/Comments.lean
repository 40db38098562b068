import DirectiveIndex.Metadata
import DirectiveIndex.Proofs.Lookahead
import DirectiveIndex.Proofs.Records
import DirectiveIndex.Proofs.Relocation
import Mathlib.Data.List.Infix

namespace DirectiveIndex

/-- A block comment with the given text in it. -/
def blockComment (body : Text) : Text :=
  "/*".toList ++ body ++ "*/".toList

/-- Scanning the source leaves no comment and no string literal open. -/
def EndsOutside (source : Text) : Prop :=
  readingAt source source.length = .code

instance (source : Text) : Decidable (EndsOutside source) :=
  inferInstanceAs (Decidable (_ = _))

namespace Cursor

/-- A block comment ends where it is closed first. -/
theorem skipComment_block {body : Text} (h : ¬ "*/".toList <:+: body) (last? : Option Char) (offset : Nat)
    (rest : Text) :
    skipComment .block ⟨last?, offset, body ++ '*' :: '/' :: rest⟩ = ⟨some '/', offset + body.length + 2, rest⟩ := by
  induction body generalizing last? offset with
  | nil =>
    rw [List.nil_append, skipComment_cons]
    rfl
  | cons c body ih =>
    have hopen : "*/".toList.isPrefixOf (c :: (body ++ '*' :: '/' :: rest)) = false := by
      rw [Bool.eq_false_iff, ne_eq, List.isPrefixOf_iff_prefix]
      rintro ⟨tail, htail⟩
      obtain ⟨rfl, hnext⟩ := List.cons.inj htail
      cases body with
      | nil => cases hnext
      | cons d body =>
        obtain ⟨rfl, -⟩ := List.cons.inj hnext
        exact h (List.prefix_append _ body).isInfix
    have htail : ¬ "*/".toList <:+: body := fun hinfix => h (List.infix_cons hinfix)
    rw [List.cons_append, skipComment_cons]
    simp only [CommentKind.closing, Pattern.width?, hopen, Bool.false_eq_true, if_false]
    rw [ih htail, List.length_cons, Nat.add_right_comm offset, Nat.add_assoc offset]

end Cursor

namespace Pass

/-- A block comment is passed over in any mode. -/
theorem runFrom_blockComment {body : Text} (h : ¬ "*/".toList <:+: body) (mode : Mode) (last? : Option Char)
    (offset : Nat) (rest : Text) :
    runFrom ⟨mode, .code, 0⟩ ⟨last?, offset, blockComment body ++ rest⟩ =
      runFrom ⟨mode, .code, 0⟩ ⟨some '/', offset + (blockComment body).length, rest⟩ := by
  have htext : blockComment body ++ rest = '/' :: '*' :: (body ++ '*' :: '/' :: rest) := by simp [blockComment]
  have hlength : offset + (blockComment body).length = offset + 2 + body.length + 2 := by
    simp [blockComment]
    omega
  have hsign : Cursor.sign? ⟨last?, offset, '/' :: '*' :: (body ++ '*' :: '/' :: rest)⟩ =
      some (.comment .block) := rfl
  rw [htext, runFrom_comment hsign, runFrom_skipComment, hlength]
  exact congrArg _ (Cursor.skipComment_block h (some '*') (offset + 2) rest)

/-- What is extracted does not depend on where the text stands. -/
theorem ofDirectives_runFrom_congr {mode : Mode} {last? last'? : Option Char} {offset : Nat} (offset' : Nat)
    {rest : Text} (hopen : ∀ word start, mode.opening? = some (word, start) → start < offset)
    (hlast : Pattern.startsIdentifier rest = true → last'?.any Text.isIdentifier = last?.any Text.isIdentifier) :
    Metadata.ofDirectives (runFrom ⟨mode, .code, 0⟩ ⟨last'?, offset', rest⟩) =
      Metadata.ofDirectives (runFrom ⟨mode, .code, 0⟩ ⟨last?, offset, rest⟩) := by
  let move (p : Nat) : Nat := if p < offset then p else p - offset + offset'
  have hmove : ∀ k ≤ rest.length, move (offset + k) = offset' + k := by
    intro k _
    simp only [move, if_neg (Nat.not_lt.2 (Nat.le_add_right offset k))]
    omega
  have hmode : mode.relocate move = mode := Mode.relocate_eq_self fun word start h => if_pos (hopen word start h)
  have hrun := runFrom_relocate hmove hlast ⟨mode, .code, 0⟩
  rw [relocate, hmode] at hrun
  have himport : Metadata.importPath? ∘ (·.relocate move) = Metadata.importPath? := by
    funext d
    cases d <;> rfl
  have hsolidity : Metadata.solidityValue? ∘ (·.relocate move) = Metadata.solidityValue? := by
    funext d
    cases d <;> rfl
  simp only [hrun, Metadata.ofDirectives, List.filterMap_map, himport, hsolidity]

end Pass

section Parts

variable {a s : Text}

/-- A source that leaves no comment and no string literal open is read alike whatever follows, unless a word or a
    comment opening goes on in it. -/
private theorem step_append_of_endsOutside (hends : EndsOutside a) (hslash : a.getLast? ≠ some '/')
    (hword : WordBreak a s) {p : Nat} (hp : p < a.length) :
    (passAt a p).step (placeAt (a ++ s) p) = (passAt a p).step (placeAt a p) := by
  by_cases hlast : p + 1 < a.length
  · exact Pass.step_append_of_lt hword hlast _
  have hlength : a.length = p + 1 := by omega
  have hdrop : a.drop (p + 1) = [] := List.drop_eq_nil_of_le (Nat.le_of_eq hlength)
  have hbreak := hword.drop hp
  obtain ⟨last?, hplace, happend⟩ := placeAt_append s (Nat.le_of_lt hp)
  rw [List.drop_eq_getElem_cons hp, hdrop] at hplace happend hbreak
  rw [EndsOutside, hlength, readingAt, passAt, hplace] at hends
  rw [hplace, happend]
  refine Pass.step_append ⟨hbreak, fun hchar => ?_⟩ fun kind hkind => ?_
  · rw [List.getLast?_eq_getElem?, hlength, Nat.add_sub_cancel, List.getElem?_eq_getElem hp] at hslash
    exact absurd (congrArg some (List.cons.inj hchar).1) hslash
  · -- A comment that is open before such a character is still open behind it.
    generalize passAt a p = pass at hends hkind
    obtain ⟨mode, lexer, due⟩ := pass
    subst hkind
    refine CommentKind.endsAt_append (fun hblock hchar => ?_) (fun hline hchar => ?_)
    · subst hblock
      rw [hchar] at hends
      cases due <;> cases hends
    · subst hline
      rw [hchar] at hends
      cases due <;> cases hends

private theorem reportAt_append_of_endsOutside (hends : EndsOutside a) (hslash : a.getLast? ≠ some '/')
    (hword : WordBreak a s) {p : Nat} (hp : p < a.length) : reportAt (a ++ s) p = reportAt a p := by
  have hpass : passAt (a ++ s) p = passAt a p :=
    passAt_append_of_step fun q hq => step_append_of_endsOutside hends hslash hword (Nat.lt_trans hq hp)
  have hlength : p < (a ++ s).length := by
    rw [List.length_append]
    omega
  rw [reportAt, reportAt, if_pos hlength, if_pos hp, hpass, step_append_of_endsOutside hends hslash hword hp]

/-- At the end of a source no word is being read. -/
theorem due_passAt_length (a : Text) : (passAt a a.length).due = 0 := by
  have hbreaks : Breaks [' '] := breaks_cons (by decide) []
  have hsame := passAt_append hbreaks (.inl (by decide)) (Nat.le_refl a.length)
  have hfits : (passAt (a ++ [' ']) a.length).Fits (placeAt (a ++ [' ']) a.length) := fits_passAt (by simp)
  rw [hsame, placeAt_length_append] at hfits
  exact Nat.eq_zero_of_not_pos fun hpos => absurd (Pass.isIdentifier_of_fits hfits hpos) (by decide)

/-- Behind such a source, the pass goes on with what follows in the mode in which it has come to it. -/
theorem scan_append_of_endsOutside (hends : EndsOutside a) (hslash : a.getLast? ≠ some '/') (hword : WordBreak a s) :
    scan (a ++ s) = (List.range a.length).filterMap (reportAt a) ++
      Pass.runFrom ⟨(passAt a a.length).mode, .code, 0⟩ ⟨a.getLast?, a.length, s⟩ := by
  have hlength : a.length ≤ (a ++ s).length := List.length_append ▸ Nat.le_add_right _ _
  have hreports : (List.range a.length).filterMap (reportAt (a ++ s)) =
      (List.range a.length).filterMap (reportAt a) :=
    List.filterMap_congr fun p hp => reportAt_append_of_endsOutside hends hslash hword (List.mem_range.1 hp)
  have hpass : passAt (a ++ s) a.length = ⟨(passAt a a.length).mode, .code, 0⟩ := by
    rw [passAt_append_of_step fun p hp => step_append_of_endsOutside hends hslash hword hp, ← due_passAt_length a]
    rw [EndsOutside, readingAt] at hends
    rw [← hends]
  rw [scan_eq_reports_append hlength, hreports, hpass, placeAt_length_append]

end Parts

/-- The metadata of two lists of directives, one behind the other. -/
theorem Metadata.ofDirectives_append (ds es : List Directive) :
    ofDirectives (ds ++ es) =
      ⟨(ofDirectives ds).imports ++ (ofDirectives es).imports,
        (ofDirectives ds).solidity ++ (ofDirectives es).solidity⟩ := by
  simp only [ofDirectives, List.filterMap_append]

section Insertion

variable {a b c c' : Text}

/-- With a block comment put into a source, what is extracted is what it would be if there was nothing but a word
    break in its place. -/
private theorem extract_insert (hends : EndsOutside a) (hslash : a.getLast? ≠ some '/') (hc : ¬ "*/".toList <:+: c) :
    extract (a ++ blockComment c ++ b) =
      .ofDirectives ((List.range a.length).filterMap (reportAt a) ++
        Pass.runFrom ⟨(passAt a a.length).mode, .code, 0⟩ ⟨some '/', a.length, b⟩) := by
  have hword : WordBreak a (blockComment c ++ b) := by
    intro _ _ d hd hboth
    obtain rfl := Option.some.inj hd
    exact absurd hboth.2 (by decide)
  rw [extract, List.append_assoc, scan_append_of_endsOutside hends hslash hword, Pass.runFrom_blockComment hc,
    Metadata.ofDirectives_append, Metadata.ofDirectives_append,
    Pass.ofDirectives_runFrom_congr _ (fun _ _ h => (liveIn_of_opening? Nat.le.refl h).1) fun _ => rfl]

/-- A closed block comment between two parts of a source, put where no comment and no string literal is open, does
    not show in what is extracted: it may be any other one, and unless the parts would join into one word it may be
    left out. -/
theorem extract_blockComment (hends : EndsOutside a) (hslash : a.getLast? ≠ some '/') (hc : ¬ "*/".toList <:+: c)
    (hc' : ¬ "*/".toList <:+: c') :
    extract (a ++ blockComment c ++ b) = extract (a ++ blockComment c' ++ b) ∧
      (WordBreak a b → extract (a ++ blockComment c ++ b) = extract (a ++ b) ∧
        extract (a ++ blockComment c' ++ b) = extract (a ++ b)) := by
  rw [extract_insert hends hslash hc, extract_insert hends hslash hc']
  refine ⟨rfl, fun hword => ?_⟩
  have hlast (hstarts : Pattern.startsIdentifier b = true) :
      (some '/').any Text.isIdentifier = a.getLast?.any Text.isIdentifier := by
    cases b with
    | nil => cases hstarts
    | cons d b =>
      cases hend : a.getLast? with
      | none => rfl
      | some c => exact (Bool.eq_false_iff.2 fun hc => hword c hend d rfl ⟨hc, hstarts⟩).symm
  rw [and_self, extract, scan_append_of_endsOutside hends hslash hword, Metadata.ofDirectives_append,
    Metadata.ofDirectives_append,
    Pass.ofDirectives_runFrom_congr _ (fun _ _ h => (liveIn_of_opening? Nat.le.refl h).1) hlast]

/-- A comment with a path in it, and one with a keyword in it, in the clause of an import. -/
theorem extract_blockComment_clause :
    EndsOutside "import{a}from".toList ∧
      extract ("import{a}from".toList ++ blockComment "'x'".toList ++ "'y';".toList) =
        extract ("import{a}from".toList ++ blockComment "pragma;".toList ++ "'y';".toList) ∧
      extract ("import{a}from".toList ++ blockComment "'x'".toList ++ "'y';".toList) =
        extract ("import{a}from".toList ++ "'y';".toList) := by
  have hends : EndsOutside "import{a}from".toList := by decide
  have hbodies : ¬ "*/".toList <:+: "'x'".toList ∧ ¬ "*/".toList <:+: "pragma;".toList := by decide
  obtain ⟨hsame, hnone⟩ := extract_blockComment (b := "'y';".toList) hends (by decide) hbodies.1 hbodies.2
  exact ⟨hends, hsame, (hnone (by decide)).1⟩

end Insertion

end DirectiveIndex
