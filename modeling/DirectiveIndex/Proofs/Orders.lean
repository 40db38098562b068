import DirectiveIndex.Path

namespace DirectiveIndex

namespace Text

/-- The order of texts is transitive. -/
theorem le_trans {a b c : Text} (hab : le a b = true) (hbc : le b c = true) : le a c = true := by
  induction a generalizing b c with
  | nil => rfl
  | cons x a ih =>
    cases b with
    | nil => cases hab
    | cons y b =>
      cases c with
      | nil => cases hbc
      | cons z c =>
        simp only [le, Bool.or_eq_true, Bool.and_eq_true, decide_eq_true_eq, beq_iff_eq] at hab hbc ⊢
        rcases hab with hlt | ⟨rfl, hle⟩
        · rcases hbc with hlt' | ⟨rfl, -⟩
          · exact .inl (Nat.lt_trans hlt hlt')
          · exact .inl hlt
        · exact hbc.imp_right fun ⟨heq, hle'⟩ => ⟨heq, ih hle hle'⟩

/-- Any two texts are in order one way or the other. -/
theorem le_total (a b : Text) : le a b = true ∨ le b a = true := by
  induction a generalizing b with
  | nil => exact .inl rfl
  | cons x a ih =>
    cases b with
    | nil => exact .inr rfl
    | cons y b =>
      simp only [le, Bool.or_eq_true, Bool.and_eq_true, decide_eq_true_eq, beq_iff_eq]
      rcases Nat.lt_trichotomy x.toNat y.toNat with hlt | heq | hgt
      · exact .inl (.inl hlt)
      · have hsame : x = y := Char.toNat_inj.1 heq
        exact (ih b).imp (fun h => .inr ⟨hsame, h⟩) fun h => .inr ⟨hsame.symm, h⟩
      · exact .inr (.inl hgt)

/-- Texts that are in order both ways are the same. -/
theorem le_antisymm {a b : Text} (hab : le a b = true) (hba : le b a = true) : a = b := by
  induction a generalizing b with
  | nil =>
    cases b with
    | nil => rfl
    | cons y b => cases hba
  | cons x a ih =>
    cases b with
    | nil => cases hab
    | cons y b =>
      simp only [le, Bool.or_eq_true, Bool.and_eq_true, decide_eq_true_eq, beq_iff_eq] at hab hba
      rcases hab with hlt | ⟨rfl, hle⟩
      · rcases hba with hgt | ⟨rfl, -⟩
        · exact absurd hgt (Nat.lt_asymm hlt)
        · exact absurd hlt (Nat.lt_irrefl _)
      · rw [ih hle (hba.resolve_left (Nat.lt_irrefl _)).2]

/-- Sorted texts are in order. -/
theorem pairwise_sort (texts : List Text) : (sort texts).Pairwise fun a b => le a b = true :=
  have htrans (a b c : Text) (hab : le a b = true) (hbc : le b c = true) : le a c = true := le_trans hab hbc
  have htotal (a b : Text) : (le a b || le b a) = true := Bool.or_eq_true_iff.2 (le_total a b)
  List.pairwise_mergeSort htrans htotal texts

/-- Sorting neither adds nor drops a text. -/
theorem mem_sort {text : Text} {texts : List Text} : text ∈ sort texts ↔ text ∈ texts :=
  List.mem_mergeSort

/-- Different texts are sorted strictly. -/
theorem pairwise_sort_ne {texts : List Text} (h : texts.Nodup) :
    (sort texts).Pairwise fun a b => le a b = true ∧ a ≠ b :=
  (pairwise_sort texts).and ((List.mergeSort_perm texts le).nodup_iff.2 h)

end Text

namespace Path

variable {path : Path}

/-- Common names in front do not change the order of two lists of names. -/
theorem partsLe_append_left (above names others : List Text) :
    partsLe (above ++ names) (above ++ others) = partsLe names others := by
  induction above with
  | nil => rfl
  | cons name above ih => rw [List.cons_append, List.cons_append, partsLe, if_pos rfl, ih]

/-- The order of lists of names is transitive. -/
theorem partsLe_trans {as bs cs : List Text} (hab : partsLe as bs = true) (hbc : partsLe bs cs = true) :
    partsLe as cs = true := by
  induction as generalizing bs cs with
  | nil => rfl
  | cons a as ih =>
    cases bs with
    | nil => cases hab
    | cons b bs =>
      cases cs with
      | nil => cases hbc
      | cons c cs =>
        rw [partsLe] at hab hbc ⊢
        by_cases hfirst : a = b
        · subst hfirst
          rw [if_pos rfl] at hab
          split
          · rename_i hsecond
            rw [if_pos hsecond] at hbc
            exact ih hab hbc
          · rename_i hsecond
            rwa [if_neg hsecond] at hbc
        · rw [if_neg hfirst] at hab
          by_cases hsecond : b = c
          · subst hsecond
            rwa [if_neg hfirst]
          · rw [if_neg hsecond] at hbc
            -- the first parts cannot be equal, for they would then lie on both sides of the second
            have hends : a ≠ c := fun heq => hfirst (Text.le_antisymm hab (heq ▸ hbc))
            rw [if_neg hends]
            exact Text.le_trans hab hbc

/-- Any two lists of names are in order one way or the other. -/
theorem partsLe_total (as bs : List Text) : partsLe as bs = true ∨ partsLe bs as = true := by
  induction as generalizing bs with
  | nil => exact .inl rfl
  | cons a as ih =>
    cases bs with
    | nil => exact .inr rfl
    | cons b bs =>
      rw [partsLe, partsLe]
      by_cases hfirst : a = b
      · rw [if_pos hfirst, if_pos hfirst.symm]
        exact ih bs
      · rw [if_neg hfirst, if_neg (Ne.symm hfirst)]
        exact Text.le_total a b

/-- Sorting paths rearranges them. -/
theorem sort_perm (paths : List Path) : (sort paths).Perm paths :=
  List.mergeSort_perm paths le

/-- Sorted paths are in order. -/
theorem pairwise_sort (paths : List Path) : (sort paths).Pairwise fun a b => le a b = true :=
  have htrans (a b c : Path) (hab : le a b = true) (hbc : le b c = true) : le a c = true := partsLe_trans hab hbc
  have htotal (a b : Path) : (le a b || le b a) = true := Bool.or_eq_true_iff.2 (partsLe_total a.parts b.parts)
  List.pairwise_mergeSort htrans htotal paths

end Path

end DirectiveIndex
