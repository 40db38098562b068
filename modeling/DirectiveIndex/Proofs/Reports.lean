import DirectiveIndex.Proofs.Openings
import DirectiveIndex.Proofs.Reading
import DirectiveIndex.Proofs.Scan

namespace DirectiveIndex

/-- What the pass over a source reports at its `p`-th character, or at its end. -/
def reportAt (source : Text) (p : Nat) : Option Directive :=
  if p < source.length then ((passAt source p).step (placeAt source p)).1
  else (passAt source p).finish p

/-- The pass reports position by position. -/
theorem runFrom_passAt {source : Text} {p : Nat} (hp : p ≤ source.length) :
    (passAt source p).runFrom (placeAt source p) =
      (List.range' p (source.length + 1 - p)).filterMap (reportAt source) := by
  generalize hk : source.length - p = k
  induction k generalizing p with
  | zero =>
    obtain rfl : p = source.length := by omega
    have hrest : (placeAt source source.length).rest = [] := by simp
    have hreport : reportAt source source.length = (passAt source source.length).finish source.length :=
      if_neg (Nat.lt_irrefl _)
    rw [Pass.runFrom_of_rest_nil _ hrest, offset_placeAt hp, ← hreport]
    cases h : reportAt source source.length <;> simp [h]
  | succ k ih =>
    have hlt : p < source.length := by omega
    have hcount : source.length + 1 - p = source.length + 1 - (p + 1) + 1 := by omega
    have hreport : reportAt source p = ((passAt source p).step (placeAt source p)).1 := if_pos hlt
    have htail := ih hlt (by omega)
    obtain ⟨last?, hplace⟩ := placeAt_of_lt hlt
    rw [hcount, List.range'_succ, List.filterMap_cons, ← htail, placeAt_succ_of_lt hlt]
    rw [passAt, hreport, hplace, Pass.runFrom_cons]
    cases (Pass.step _ _).1 <;> rfl

/-- The directives of a source are those that the pass reports at its characters and at its end. -/
theorem scan_eq_reports (source : Text) :
    scan source = (List.range (source.length + 1)).filterMap (reportAt source) := by
  rw [List.range_eq_range', scan, Scanner.directives_eq]
  exact runFrom_passAt (Nat.zero_le _)

/-- The directives of a source are those that the pass reports at its first `n` characters, and those that it
    reports from there on. -/
theorem scan_eq_reports_append {source : Text} {n : Nat} (hn : n ≤ source.length) :
    scan source = (List.range n).filterMap (reportAt source) ++ (passAt source n).runFrom (placeAt source n) := by
  have hrange : List.range (source.length + 1) = List.range n ++ List.range' n (source.length + 1 - n) := by
    have hjoin : List.range' 0 n ++ List.range' (0 + n) (source.length + 1 - n) =
        List.range' 0 (n + (source.length + 1 - n)) := List.range'_append_1
    rw [Nat.zero_add, Nat.add_sub_cancel' (Nat.le_succ_of_le hn)] at hjoin
    rw [List.range_eq_range', List.range_eq_range', hjoin]
  rw [scan_eq_reports, hrange, List.filterMap_append, runFrom_passAt hn]

/-- A directive is scanned if it is reported at a position. -/
theorem mem_scan_iff {source : Text} {d : Directive} :
    d ∈ scan source ↔ ∃ p ≤ source.length, reportAt source p = some d := by
  simp only [scan_eq_reports, List.mem_filterMap, List.mem_range, Nat.lt_succ_iff]

/-- What the pass reports from a position on is scanned. -/
theorem mem_scan_of_mem_runFrom {source : Text} {p : Nat} (hp : p ≤ source.length) {d : Directive}
    (h : d ∈ (passAt source p).runFrom (placeAt source p)) : d ∈ scan source := by
  rw [runFrom_passAt hp, List.mem_filterMap] at h
  obtain ⟨q, hq, hreport⟩ := h
  rw [List.mem_range'_1] at hq
  exact mem_scan_iff.2 ⟨q, by omega, hreport⟩

/-- Every directive of a source covers at least one character and ends within the source. -/
theorem start_lt_stop_of_mem_scan {source : Text} {d : Directive} (h : d ∈ scan source) :
    d.span.start < d.span.stop ∧ d.span.stop ≤ source.length := by
  rw [scan, Scanner.directives_eq] at h
  rw [← Nat.zero_add source.length]
  exact Pass.start_lt_stop_of_mem_runFrom (fun word start hword => by cases hword) h

/-- The directives of a source come in source order, without overlap. -/
theorem disjoint_scan (source : Text) : (scan source).Pairwise fun d e => d.span.stop ≤ e.span.start := by
  rw [scan, Scanner.directives_eq]
  exact Pass.disjoint_runFrom _ _

/-- The directives of a source come in the order in which they begin, and never two that begin at the
    same place. -/
theorem pairwise_scan (source : Text) : (scan source).Pairwise fun d e => d.span.start < e.span.start :=
  (disjoint_scan source).imp_of_mem fun hd _ hle =>
    Nat.lt_of_lt_of_le (start_lt_stop_of_mem_scan hd).1 hle

/-- The directives that begin where a given one does. -/
theorem filter_start_eq_singleton {source : Text} {d : Directive} (h : d ∈ scan source) :
    (scan source).filter (·.span.start = d.span.start) = [d] := by
  have hpairwise := pairwise_scan source
  generalize scan source = records at h hpairwise
  induction records with
  | nil => cases h
  | cons e records ih =>
    obtain ⟨hhead, htail⟩ := List.pairwise_cons.1 hpairwise
    rcases List.mem_cons.1 h with rfl | hmem
    · have hnone : ∀ e ∈ records, ¬ decide (e.span.start = d.span.start) = true := by
        intro e he
        have := hhead e he
        simp only [decide_eq_true_eq]
        omega
      rw [List.filter_cons_of_pos (by simp), List.filter_eq_nil_iff.2 hnone]
    · have := hhead d hmem
      rw [List.filter_cons_of_neg (by simp only [decide_eq_true_eq]; omega)]
      exact ih hmem htail

/-- No two directives begin at one position. -/
theorem eq_of_start_eq {source : Text} {d e : Directive} (hd : d ∈ scan source) (he : e ∈ scan source)
    (hstart : d.span.start = e.span.start) : d = e := by
  have hsame := filter_start_eq_singleton hd
  rw [hstart, filter_start_eq_singleton he] at hsame
  exact (List.singleton_inj.1 hsame).symm

end DirectiveIndex
