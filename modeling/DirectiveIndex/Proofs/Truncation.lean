import DirectiveIndex.Proofs.Lookahead
import DirectiveIndex.Proofs.Spans
import Mathlib.Data.List.Basic

namespace DirectiveIndex

/-- A directive ends before the end of the source exactly if it is reported before the last character. -/
theorem stop_lt_iff_of_reportAt {source : Text} {p : Nat} (hp : p ≤ source.length) {d : Directive}
    (h : reportAt source p = some d) : d.span.stop < source.length ↔ p + 1 < source.length := by
  unfold reportAt at h
  split at h
  · rename_i hlt
    rcases Pass.step_opening? (passAt source p) (placeAt source p) with
      ⟨hnone, _⟩ | ⟨word, hcode, hsign, hstep⟩ | ⟨e, hsome, _, hstop, _⟩
    · rw [hnone] at h
      cases h
    · have hfit := (wholeWordAt_of_beginsAt (List.find?_some hsign)).add_length_le
      rw [hstep] at h
      rw [Mode.stop_of_close h, offset_placeAt hp]
      omega
    · obtain rfl : e = d := Option.some.inj (hsome.symm.trans h)
      rw [hstop, offset_placeAt hp]
  · rw [Pass.stop_of_finish h]
    omega

theorem reportAt_append_of_lt {a s : Text} {p : Nat} (h : WordBreak a s) (hp : p + 1 < a.length) :
    reportAt (a ++ s) p = reportAt a p := by
  have hpass : passAt (a ++ s) p = passAt a p :=
    passAt_append_of_step fun q hq => Pass.step_append_of_lt h (Nat.lt_of_le_of_lt hq (Nat.lt_of_succ_lt hp)) _
  have hlength : p < (a ++ s).length := by
    rw [List.length_append]
    omega
  rw [reportAt, reportAt, if_pos hlength, if_pos (Nat.lt_of_succ_lt hp), hpass, Pass.step_append_of_lt h hp]

/-- The directives that end before the end of a source are those reported before its last character. -/
theorem filter_stop_lt_scan (source : Text) :
    (scan source).filter (·.span.stop < source.length) =
      (List.range (source.length - 1)).filterMap (reportAt source) := by
  rw [scan_eq_reports_append (Nat.sub_le source.length 1), List.filter_append, runFrom_passAt (Nat.sub_le _ _)]
  have hbefore : ∀ d ∈ (List.range (source.length - 1)).filterMap (reportAt source),
      decide (d.span.stop < source.length) = true := by
    intro d hd
    obtain ⟨p, hp, hreport⟩ := List.mem_filterMap.1 hd
    have hlt := List.mem_range.1 hp
    exact decide_eq_true ((stop_lt_iff_of_reportAt (by omega) hreport).2 (by omega))
  have hbehind : ∀ d ∈ (List.range' (source.length - 1) (source.length + 1 - (source.length - 1))).filterMap
      (reportAt source), ¬ decide (d.span.stop < source.length) = true := by
    intro d hd hstop
    obtain ⟨p, hp, hreport⟩ := List.mem_filterMap.1 hd
    have hrange := List.mem_range'_1.1 hp
    have hlt := (stop_lt_iff_of_reportAt (by omega) hreport).1 (of_decide_eq_true hstop)
    omega
  rw [List.filter_eq_self.2 hbefore, List.filter_eq_nil_iff.2 hbehind, List.append_nil]

/-- However a source goes on, unless it goes on within a word, the directives that end before its end stay as they
    are and come first. -/
theorem scan_append_of_wordBreak {s t : Text} (h : WordBreak s t) :
    (scan s).filter (·.span.stop < s.length) <+: scan (s ++ t) := by
  have hlength : s.length - 1 ≤ (s ++ t).length := by
    rw [List.length_append]
    omega
  rw [filter_stop_lt_scan, scan_eq_reports_append hlength]
  have hsame : (List.range (s.length - 1)).filterMap (reportAt (s ++ t)) =
      (List.range (s.length - 1)).filterMap (reportAt s) :=
    List.filterMap_congr fun p hp => reportAt_append_of_lt h (by have := List.mem_range.1 hp; omega)
  rw [hsame]
  exact List.prefix_append _ _

/-- An import before a comment that is cut off within its end. -/
theorem scan_append_of_wordBreak_comment :
    WordBreak "import'a';/*pragma*".toList "/import'b'".toList ∧
      .imported ['a'] ⟨0, 9⟩ ∈ scan ("import'a';/*pragma*".toList ++ "/import'b'".toList) := by
  have hbreak : WordBreak "import'a';/*pragma*".toList "/import'b'".toList := by decide
  have hlive : LiveIn "import'a';/*pragma*".toList (readingAt "import'a';/*pragma*".toList) .importWord 0 := by decide
  have hpath : PathIn "import'a';/*pragma*".toList (readingAt "import'a';/*pragma*".toList) 0 6 .single := by decide
  have hmem := imported_mem_scan hlive hpath
  exact ⟨hbreak, (scan_append_of_wordBreak hbreak).subset (List.mem_filter.2 ⟨hmem, by decide⟩)⟩

end DirectiveIndex
