import DirectiveIndex.Proofs.PlainReading

namespace DirectiveIndex

/-- Where no `pragma` is followed by a quote mark instead of its name, no directive is lost, invented or
    doubled. Exactly one pragma begins at each live `pragma`. An import begins at a live `import` if and only
    if a string opener comes behind it before any other live keyword; it is the only directive there, and its
    path is the text of that string literal. Every directive begins at a live keyword of its kind. -/
theorem scan_liveKeywords {source : Text} (hnames : NamesUnquoted source) :
    (∀ p, LiveIn source (lexerAt source) .pragmaWord p →
      ∃ name value stop, (scan source).filter (·.span.start = p) = [.pragma name value ⟨p, stop⟩]) ∧
    (∀ p, LiveIn source (lexerAt source) .importWord p →
      ((∃ path stop, .imported path ⟨p, stop⟩ ∈ scan source) ↔
        ∃ q mark, PathIn source (lexerAt source) p q mark) ∧
      ∀ q mark, PathIn source (lexerAt source) p q mark →
        ∃ stop, (scan source).filter (·.span.start = p) = [.imported (contentAt source mark q) ⟨p, stop⟩]) ∧
    ∀ d ∈ scan source, LiveIn source (lexerAt source) d.opening.1 d.span.start := by
  rw [← readingAt_eq_lexerAt hnames]
  refine ⟨fun p hlive => ?_, fun p hlive => ⟨⟨?_, ?_⟩, fun q mark hpath => ?_⟩, fun d hd => ?_⟩
  · obtain ⟨d, hmem, hopening⟩ := exists_pragma_of_liveIn hlive
    cases d with
    | imported path span => cases hopening
    | pragma name value span =>
      obtain ⟨start, stop⟩ := span
      cases hopening
      exact ⟨name, value, stop, filter_start_eq_singleton hmem⟩
  · rintro ⟨path, stop, hmem⟩
    exact exists_path_of_mem_scan hmem
  · rintro ⟨q, mark, hpath⟩
    obtain ⟨stop, hmem⟩ := exists_imported_of_pathIn hlive hpath
    exact ⟨_, stop, hmem⟩
  · obtain ⟨stop, hmem⟩ := exists_imported_of_pathIn hlive hpath
    exact ⟨stop, filter_start_eq_singleton hmem⟩
  · exact liveIn_of_mem_scan hd

/-- A pragma without a value, and an import behind it. -/
theorem scan_liveKeywords_pragma_import :
    NamesUnquoted "pragma a;import'b'".toList ∧
      (∃ name value stop, (scan "pragma a;import'b'".toList).filter (·.span.start = 0) =
        [.pragma name value ⟨0, stop⟩]) ∧
      ∃ path stop, .imported path ⟨9, stop⟩ ∈ scan "pragma a;import'b'".toList := by
  have hnames : NamesUnquoted "pragma a;import'b'".toList := by decide
  obtain ⟨hpragma, himport, _⟩ := scan_liveKeywords hnames
  exact ⟨hnames, hpragma 0 (by decide), (himport 9 (by decide)).1.2 ⟨15, .single, by decide⟩⟩

end DirectiveIndex
