import DirectiveIndex.Proofs.Records

namespace DirectiveIndex

/-- The word stands at `p`, with no identifier character just before or behind it. -/
def WholeWordAt (source word : Text) (p : Nat) : Prop :=
  word <+: source.drop p ∧ (∀ c ∈ (source.take p).getLast?, Text.isIdentifier c = false) ∧
    ∀ c ∈ (source.drop (p + word.length)).head?, Text.isIdentifier c = false

instance (source word : Text) (p : Nat) : Decidable (WholeWordAt source word p) :=
  decidable_of_iff (word <+: source.drop p ∧ (source.take p).getLast?.all (!Text.isIdentifier ·) ∧
      (source.drop (p + word.length)).head?.all (!Text.isIdentifier ·))
    (by simp [WholeWordAt, Option.all_eq_true])

/-- The quote mark at `k` opens a string literal with the given content, which ends at `stop`: behind the next equal
    quote mark, or at the end of the source if there is none. -/
def LiteralAt (source : Text) (mark : Quote) (k : Nat) (content : Text) (stop : Nat) : Prop :=
  source[k]? = some mark.char ∧ mark.char ∉ content ∧
    ((∃ rest, source.drop (k + 1) = content ++ mark.char :: rest ∧ stop = k + 1 + content.length + 1) ∨
      source.drop (k + 1) = content ∧ stop = source.length)

/-- Where a keyword begins, it stands as a whole word. -/
theorem wholeWordAt_of_beginsAt {source : Text} {word : Keyword} {p : Nat}
    (h : (Sign.keyword word).beginsAt (placeAt source p) = true) : WholeWordAt source word.text p := by
  simp only [Sign.beginsAt, rest_placeAt, Bool.and_eq_true, Bool.not_eq_true', List.isPrefixOf_iff_prefix,
    List.drop_drop, Pattern.startsIdentifier] at h
  obtain ⟨⟨hahead, hlast⟩, hnext⟩ := h
  have hp : p ≤ source.length := by
    have hlength := hahead.length_le
    rw [List.length_drop, word.length_text] at hlength
    omega
  rw [last?_placeAt hp] at hlast
  refine ⟨hahead, fun c hc => ?_, fun c hc => ?_⟩
  · rw [hc] at hlast
    exact hlast
  · rw [hc] at hnext
    exact hnext

/-- A live keyword stands as a whole word. -/
theorem wholeWordAt_of_liveIn {source : Text} {reading : Nat → Lexer} {word : Keyword} {p : Nat}
    (h : LiveIn source reading word p) : WholeWordAt source word.text p :=
  wholeWordAt_of_beginsAt (List.find?_some h.2)

namespace WholeWordAt

variable {source : Text} {word other : Keyword} {p q : Nat}

/-- A keyword of six characters fits into the source. -/
theorem add_length_le (h : WholeWordAt source word.text p) : p + 6 ≤ source.length := by
  have hlength := h.1.length_le
  rw [List.length_drop, word.length_text] at hlength
  omega

/-- Two keywords do not touch. -/
theorem add_length_lt (hword : WholeWordAt source word.text p) (hother : WholeWordAt source other.text q)
    (hlt : p < q) : p + 6 < q := by
  obtain ⟨k, rfl⟩ := Nat.exists_eq_add_of_lt hlt
  refine Nat.lt_of_not_le fun hle => ?_
  have hk : k < word.text.length := by
    rw [word.length_text]
    omega
  obtain ⟨after, hafter⟩ := hword.1
  have hchar : source[p + k]? = some word.text[k] := by
    rw [← List.getElem?_drop, ← hafter, List.getElem?_append_left hk, List.getElem?_eq_getElem hk]
  obtain ⟨hlength, heq⟩ := List.getElem?_eq_some_iff.1 hchar
  have hlast : (source.take (p + k + 1)).getLast? = some word.text[k] := by
    rw [List.take_succ_eq_append_getElem hlength, List.getLast?_concat, heq]
  have hidentifier := List.all_eq_true.1 word.all_text _ (List.getElem_mem hk)
  exact Bool.false_ne_true ((hother.2.1 _ hlast).symm.trans hidentifier)

end WholeWordAt

/-- So many places fit into a length if each takes up six characters and one more to the next. -/
private theorem length_of_spaced {n : Nat} {places : List Nat} {from' : Nat} (hfrom : from' ≤ n + 1)
    (hspaced : places.Pairwise fun p q => p + 7 ≤ q) (hfit : ∀ p ∈ places, from' ≤ p ∧ p + 6 ≤ n) :
    from' + 7 * places.length ≤ n + 1 := by
  induction places generalizing from' with
  | nil => exact hfrom
  | cons p places ih =>
    obtain ⟨hlater, hplaces⟩ := List.pairwise_cons.1 hspaced
    have hp := hfit p List.mem_cons_self
    have htail : p + 7 + 7 * places.length ≤ n + 1 :=
      ih (by omega) hplaces fun q hq => ⟨hlater q hq, (hfit q (List.mem_cons_of_mem p hq)).2⟩
    rw [List.length_cons]
    omega

/-- Every directive begins with a keyword of its own, and no two keywords touch. -/
theorem length_scan_le (source : Text) : (scan source).length ≤ (source.length + 1) / 7 := by
  have hkeyword {d : Directive} (hd : d ∈ scan source) : WholeWordAt source d.opening.1.text d.span.start :=
    wholeWordAt_of_liveIn (liveIn_of_mem_scan hd)
  have hspaced : ((scan source).map (·.span.start)).Pairwise fun p q => p + 7 ≤ q :=
    List.pairwise_map.2 ((pairwise_scan source).imp_of_mem fun hd he hlt =>
      (hkeyword hd).add_length_lt (hkeyword he) hlt)
  have hfit : ∀ p ∈ (scan source).map (·.span.start), 0 ≤ p ∧ p + 6 ≤ source.length := by
    intro p hp
    obtain ⟨d, hd, rfl⟩ := List.mem_map.1 hp
    exact ⟨Nat.zero_le _, (hkeyword hd).add_length_le⟩
  have hcount := length_of_spaced (Nat.zero_le _) hspaced hfit
  rw [List.length_map] at hcount
  omega

/-- What is read as a string is the literal that stands there. -/
theorem literalAt_readString {source : Text} {mark : Quote} {k : Nat} (hmark : source[k]? = some mark.char) :
    LiteralAt source mark k ((placeAt source (k + 1)).readString mark).1
      ((placeAt source (k + 1)).readString mark).2.offset := by
  obtain ⟨hk, -⟩ := List.getElem?_eq_some_iff.1 hmark
  refine ⟨hmark, ?_⟩
  rw [placeAt_succ_of_lt hk]
  by_cases hmem : mark.char ∈ source.drop (k + 1)
  · obtain ⟨content, rest, hdrop, hnot⟩ := List.eq_append_cons_of_mem hmem
    rw [hdrop, Cursor.readString_append mark hnot]
    exact ⟨hnot, .inl ⟨rest, rfl, rfl⟩⟩
  · rw [Cursor.readString_of_not_mem hmem]
    refine ⟨hmem, .inr ⟨rfl, ?_⟩⟩
    rw [Cursor.toEnd, Cursor.offset_skip Nat.le.refl, List.length_drop]
    dsimp only
    omega

/-- An import that is reported has its path in a string literal behind the keyword, at whose end it ends. -/
theorem exists_literalAt_of_mem_scan {source path : Text} {span : Span} (h : .imported path span ∈ scan source) :
    ∃ k mark, span.start < k ∧ k < span.stop ∧ LiteralAt source mark k path span.stop := by
  obtain ⟨k, mark, hpath⟩ := exists_path_of_mem_scan h
  have hsame := imported_mem_scan (liveIn_of_mem_scan h) hpath
  have hmark : source[k]? = some mark.char := by
    obtain ⟨tail, htail⟩ := Cursor.rest_of_sign?_quote (sign?_of_opensIn hpath.2.1)
    rw [rest_placeAt] at htail
    rw [← List.head?_drop, htail]
    rfl
  obtain ⟨start, stop⟩ := span
  obtain ⟨rfl, heq⟩ := Directive.imported.inj (eq_of_start_eq h hsame rfl)
  obtain rfl := (Span.mk.inj heq).2
  have hle := Cursor.offset_le_readString mark (placeAt source (k + 1))
  rw [offset_placeAt (lt_length_of_opensIn hpath.2.1)] at hle
  exact ⟨k, mark, hpath.1, hle, literalAt_readString hmark⟩

/-- The directives of a source lie within it, one behind the other; each begins at its keyword, a whole word, so
    that there is room for one in seven characters only; and an import ends with the string literal that is its
    path, which opens behind the keyword. -/
theorem scan_spans (source : Text) :
    (∀ d ∈ scan source, d.span.start < d.span.stop ∧ d.span.stop ≤ source.length) ∧
    ((scan source).Pairwise fun d e => d.span.stop ≤ e.span.start) ∧
    (∀ d ∈ scan source, WholeWordAt source d.opening.1.text d.span.start) ∧
    (scan source).length ≤ (source.length + 1) / 7 ∧
    ∀ path span, .imported path span ∈ scan source →
      ∃ k mark, span.start < k ∧ k < span.stop ∧ LiteralAt source mark k path span.stop :=
  ⟨fun _ hd => start_lt_stop_of_mem_scan hd, disjoint_scan source,
    fun _ hd => wholeWordAt_of_liveIn (liveIn_of_mem_scan hd), length_scan_le source,
    fun _ _ hd => exists_literalAt_of_mem_scan hd⟩

end DirectiveIndex
