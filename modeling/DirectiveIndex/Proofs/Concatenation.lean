import DirectiveIndex.Metadata
import DirectiveIndex.Proofs.Lookahead
import DirectiveIndex.Proofs.Records
import DirectiveIndex.Proofs.Relocation
import Mathlib.Data.List.Basic

namespace DirectiveIndex

/-- Scanning the source leaves no directive, no string literal and no block comment open. -/
def EndsAtTop (source : Text) : Prop :=
  (passAt source source.length).mode = .top ∧
    (readingAt source source.length = .code ∨ readingAt source source.length = .comment .line)

instance (source : Text) : Decidable (EndsAtTop source) :=
  inferInstanceAs (Decidable (_ ∧ _))

/-- The directive `n` characters further on. -/
def Directive.shift (n : Nat) : Directive → Directive
  | .imported path span => .imported path ⟨span.start + n, span.stop + n⟩
  | .pragma name value span => .pragma name value ⟨span.start + n, span.stop + n⟩

/-- The mode `n` characters further on. -/
def Mode.shift (n : Nat) : Mode → Mode
  | .top => .top
  | .importing start => .importing (start + n)
  | .naming start => .naming (start + n)
  | .valuing start name captured => .valuing (start + n) name captured

theorem Directive.shift_eq_relocate (n : Nat) : Directive.shift n = Directive.relocate (· + n) := by
  funext d
  cases d <;> rfl

theorem Mode.shift_eq_relocate (n : Nat) (mode : Mode) : mode.shift n = mode.relocate (· + n) := by
  cases mode <;> rfl

private theorem breaks_lineFeed (rest : Text) : Breaks ('\n' :: rest) :=
  breaks_cons (by decide) rest

namespace Pass

/-- The pass `n` characters further on. -/
def shift (n : Nat) (pass : Pass) : Pass :=
  { pass with mode := pass.mode.shift n }

theorem shift_eq_relocate (n : Nat) (pass : Pass) : pass.shift n = pass.relocate (· + n) := by
  rw [shift, relocate, Mode.shift_eq_relocate]

/-- What the next character does to the pass does not depend on where it stands. -/
theorem step_shift (n : Nat) (pass : Pass) {last? last'? : Option Char} (offset : Nat) (rest : Text)
    (hlast : last'?.any Text.isIdentifier = last?.any Text.isIdentifier) :
    (pass.shift n).step ⟨last'?, offset + n, rest⟩ =
      ((pass.step ⟨last?, offset, rest⟩).1.map (·.shift n), (pass.step ⟨last?, offset, rest⟩).2.shift n) := by
  rw [shift_eq_relocate, shift_eq_relocate, Directive.shift_eq_relocate]
  exact step_relocate rfl (Nat.add_right_comm offset 1 n) (fun _ => hlast) pass

/-- What is due at the end of the source is shifted with it. -/
theorem finish_shift (n : Nat) (pass : Pass) (stop : Nat) :
    (pass.shift n).finish (stop + n) = (pass.finish stop).map (·.shift n) := by
  rw [shift_eq_relocate, Directive.shift_eq_relocate]
  exact finish_relocate (· + n) pass stop

/-- A line feed behind a text changes how its last character is read only if that is a carriage return at the end
    of a line comment. -/
theorem step_lineFeed (pass : Pass) (last? : Option Char) (offset : Nat) (c : Char) (u rest : Text) :
    pass.step ⟨last?, offset, c :: (u ++ '\n' :: rest)⟩ = pass.step ⟨last?, offset, c :: u⟩ ∨
      c :: u = ['\r'] ∧ pass.step ⟨last?, offset, c :: u⟩ = (none, ⟨pass.mode, .comment .line, 0⟩) ∧
        pass.step ⟨last?, offset, c :: (u ++ '\n' :: rest)⟩ = (none, ⟨pass.mode.capture '\r', .code, 0⟩) := by
  by_cases hend : c :: u = ['\r']
  · obtain ⟨rfl, rfl⟩ := List.cons.inj hend
    obtain ⟨mode, lexer, due⟩ := pass
    cases due with
    | succ due => exact .inl rfl
    | zero =>
      by_cases hline : lexer = .comment .line
      · subst hline
        exact .inr ⟨rfl, rfl, rfl⟩
      · refine .inl (step_append ((breaks_lineFeed rest).signBreak _) fun kind hkind => ?_)
        exact CommentKind.endsAt_append (fun _ _ => by simp) fun hkind' => absurd (hkind' ▸ hkind) hline
  · refine .inl (step_append ((breaks_lineFeed rest).signBreak _) fun kind _ => ?_)
    exact CommentKind.endsAt_append (fun _ _ => by simp) fun _ h => absurd h hend

end Pass

variable {a : Text}

/-- Up to the line feed the pass reports what it reports of the first source alone, and then it has nothing open. -/
private theorem step_before_lineFeed (h : EndsAtTop a) (b : Text) {p : Nat} (hp : p < a.length) :
    ((passAt (a ++ '\n' :: b) p).step (placeAt (a ++ '\n' :: b) p)).1 =
        ((passAt a p).step (placeAt a p)).1 ∧
      (p + 1 = a.length → (passAt (a ++ '\n' :: b) (p + 1)).mode = .top ∧
        (readingAt (a ++ '\n' :: b) (p + 1) = .code ∨ readingAt (a ++ '\n' :: b) (p + 1) = .comment .line)) := by
  have hpass := passAt_append (breaks_lineFeed b) (.inr hp) (Nat.le_of_lt hp)
  obtain ⟨last?, hplace, happend⟩ := placeAt_append ('\n' :: b) (Nat.le_of_lt hp)
  rw [List.drop_eq_getElem_cons hp] at hplace happend
  rw [readingAt, passAt, hpass, happend, List.cons_append]
  rcases (passAt a p).step_lineFeed last? p a[p] (a.drop (p + 1)) b with hstep | ⟨_, hbefore, hstep⟩
  · rw [hstep, ← hplace]
    refine ⟨rfl, fun hlast => ?_⟩
    rw [EndsAtTop, ← hlast] at h
    exact h
  · rw [hstep, hplace, hbefore]
    refine ⟨rfl, fun hlast => ?_⟩
    have hmode : (passAt a p).mode = .top := by
      have htop := h.1
      rw [← hlast, passAt, hplace, hbefore] at htop
      exact htop
    exact ⟨by rw [hmode]; rfl, .inl rfl⟩

/-- The line feed leaves the pass as it is at the start of a source. -/
private theorem step_lineFeed_of_endsAtTop (h : EndsAtTop a) (b : Text) :
    (passAt (a ++ '\n' :: b) a.length).step (placeAt (a ++ '\n' :: b) a.length) = (none, .initial) := by
  have hlength : a.length ≤ (a ++ '\n' :: b).length := by
    rw [List.length_append]
    omega
  have htop : (passAt (a ++ '\n' :: b) a.length).mode = .top ∧
      (readingAt (a ++ '\n' :: b) a.length = .code ∨ readingAt (a ++ '\n' :: b) a.length = .comment .line) := by
    rcases Nat.eq_zero_or_pos a.length with hzero | hpos
    · rw [hzero]
      exact ⟨rfl, .inl rfl⟩
    · have hlast := Nat.sub_add_cancel hpos
      have hbefore := (step_before_lineFeed h b (Nat.sub_lt hpos Nat.one_pos)).2 hlast
      rw [hlast] at hbefore
      exact hbefore
  have hfits := fits_passAt hlength
  obtain ⟨last?, -, hplace⟩ := placeAt_append ('\n' :: b) (Nat.le_refl a.length)
  rw [List.drop_length, List.nil_append] at hplace
  rw [hplace] at hfits ⊢
  have hdue : (passAt (a ++ '\n' :: b) a.length).due = 0 := by
    refine Nat.eq_zero_of_not_pos fun hpos => ?_
    cases Pass.isIdentifier_of_fits hfits hpos
  simp only [readingAt] at htop
  generalize passAt (a ++ '\n' :: b) a.length = pass at htop hdue
  obtain ⟨mode, lexer, due⟩ := pass
  obtain ⟨rfl, rfl | rfl⟩ := htop
  · subst hdue
    rfl
  · subst hdue
    rfl

private theorem placeAt_behind (a : Text) {b : Text} {k : Nat} (hk : k ≤ b.length) :
    ∃ last? last'?, placeAt b k = ⟨last?, k, b.drop k⟩ ∧
      placeAt (a ++ '\n' :: b) (a.length + 1 + k) = ⟨last'?, k + (a.length + 1), b.drop k⟩ ∧
      last'?.any Text.isIdentifier = last?.any Text.isIdentifier := by
  have hrest : (a ++ '\n' :: b).drop (a.length + 1 + k) = b.drop k := by
    rw [Nat.add_assoc, Nat.add_comm 1, ← List.drop_drop, List.drop_left, List.drop_succ_cons]
  have hlength : a.length + k < (a ++ '\n' :: b).length := by
    rw [List.length_append, List.length_cons]
    omega
  have hplace := placeAt_succ_of_lt hlength
  rw [List.getElem_append_right (Nat.le_add_right _ _), Nat.add_right_comm, hrest] at hplace
  cases k with
  | zero =>
    refine ⟨none, some '\n', rfl, ?_, by decide⟩
    rw [hplace, Nat.zero_add]
    simp
  | succ k =>
    refine ⟨some b[k], some b[k], placeAt_succ_of_lt hk, ?_, rfl⟩
    rw [hplace, Nat.add_comm (k + 1)]
    simp

/-- Behind the line feed the pass does what it does on the second source, further on. -/
private theorem passAt_behind (h : EndsAtTop a) {b : Text} {k : Nat} (hk : k ≤ b.length) :
    passAt (a ++ '\n' :: b) (a.length + 1 + k) = (passAt b k).shift (a.length + 1) := by
  induction k with
  | zero =>
    exact congrArg Prod.snd (step_lineFeed_of_endsAtTop h b)
  | succ k ih =>
    obtain ⟨last?, last'?, hplace, hbehind, hlast⟩ := placeAt_behind a (Nat.le_of_succ_le hk)
    rw [← Nat.add_assoc, passAt, ih (Nat.le_of_succ_le hk), hbehind, Pass.step_shift _ _ _ _ hlast, passAt, hplace]

private theorem reportAt_before (h : EndsAtTop a) (b : Text) {p : Nat} (hp : p ≤ a.length) :
    reportAt (a ++ '\n' :: b) p = reportAt a p := by
  have hlength : p < (a ++ '\n' :: b).length := by
    rw [List.length_append, List.length_cons]
    omega
  rw [reportAt, reportAt, if_pos hlength]
  rcases Nat.lt_or_eq_of_le hp with hlt | rfl
  · rw [if_pos hlt, (step_before_lineFeed h b hlt).1]
  · rw [if_neg (Nat.lt_irrefl _), step_lineFeed_of_endsAtTop h]
    obtain ⟨hmode, hlexer⟩ := h
    simp only [readingAt] at hlexer
    generalize passAt a a.length = pass at hmode hlexer
    obtain ⟨mode, lexer, due⟩ := pass
    obtain rfl : mode = .top := hmode
    rcases hlexer with rfl | rfl <;> rfl

private theorem reportAt_behind (h : EndsAtTop a) {b : Text} {k : Nat} (hk : k ≤ b.length) :
    reportAt (a ++ '\n' :: b) (a.length + 1 + k) = (reportAt b k).map (·.shift (a.length + 1)) := by
  have hlength : (a ++ '\n' :: b).length = a.length + 1 + b.length := by
    rw [List.length_append, List.length_cons]
    omega
  rw [reportAt, reportAt, passAt_behind h hk, hlength]
  rcases Nat.lt_or_eq_of_le hk with hlt | rfl
  · obtain ⟨last?, last'?, hplace, hbehind, hlast⟩ := placeAt_behind a hk
    rw [if_pos hlt, if_pos (Nat.add_lt_add_left hlt _), hbehind, Pass.step_shift _ _ _ _ hlast, hplace]
  · rw [if_neg (Nat.lt_irrefl _), if_neg (Nat.lt_irrefl _), Nat.add_comm (a.length + 1), Pass.finish_shift]

/-- Two sources with a line feed between them are scanned one after the other, if the first one leaves nothing
    open. The directives of the second one keep everything but their offsets, so what is extracted is what is
    extracted from the one and then from the other. -/
theorem scan_append_lineFeed (h : EndsAtTop a) (b : Text) :
    scan (a ++ '\n' :: b) = scan a ++ (scan b).map (·.shift (a.length + 1)) ∧
      (extract (a ++ '\n' :: b)).imports = (extract a).imports ++ (extract b).imports ∧
      (extract (a ++ '\n' :: b)).solidity = (extract a).solidity ++ (extract b).solidity := by
  have hscan : scan (a ++ '\n' :: b) = scan a ++ (scan b).map (·.shift (a.length + 1)) := by
    have hlength : (a ++ '\n' :: b).length + 1 = (a.length + 1) + (b.length + 1) := by
      rw [List.length_append, List.length_cons]
      omega
    rw [scan_eq_reports, hlength, List.range_add, List.filterMap_append, List.filterMap_map]
    congr 1
    · rw [scan_eq_reports]
      exact List.filterMap_congr fun p hp => reportAt_before h b (Nat.lt_succ_iff.1 (List.mem_range.1 hp))
    · rw [scan_eq_reports, List.map_filterMap]
      exact List.filterMap_congr fun k hk => reportAt_behind h (Nat.lt_succ_iff.1 (List.mem_range.1 hk))
  have himport : Metadata.importPath? ∘ (·.shift (a.length + 1)) = Metadata.importPath? := by
    funext d
    cases d <;> rfl
  have hsolidity : Metadata.solidityValue? ∘ (·.shift (a.length + 1)) = Metadata.solidityValue? := by
    funext d
    cases d <;> rfl
  simp only [extract, Metadata.ofDirectives, hscan, List.filterMap_append, List.filterMap_map, himport, hsolidity,
    and_self]

/-- An import, and a line comment that its source ends in. -/
theorem scan_append_lineFeed_comment :
    EndsAtTop "import'a';//\"\r".toList ∧
      (extract ("import'a';//\"\r".toList ++ '\n' :: "pragma solidity 1;".toList)).imports =
        (extract "import'a';//\"\r".toList).imports ++ (extract "pragma solidity 1;".toList).imports := by
  have hends : EndsAtTop "import'a';//\"\r".toList := by decide
  obtain ⟨_, himports, _⟩ := scan_append_lineFeed hends "pragma solidity 1;".toList
  exact ⟨hends, himports⟩

end DirectiveIndex
