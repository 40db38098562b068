import DirectiveIndex.Path

namespace DirectiveIndex

namespace Text

variable {separator : Char}

/-- A text always has a piece. -/
theorem split_ne_nil (separator : Char) (text : Text) : split separator text ≠ [] := by
  induction text with
  | nil => exact List.cons_ne_nil _ _
  | cons c text ih =>
    rw [split]
    split
    · exact List.cons_ne_nil _ _
    · split <;> exact List.cons_ne_nil _ _

/-- A separator in front leaves an empty piece before it. -/
theorem split_cons_self (text : Text) : split separator (separator :: text) = [] :: split separator text := by
  rw [split, if_pos rfl]

/-- Any other character belongs to the first piece. -/
theorem split_cons_of_ne {c : Char} (hc : c ≠ separator) {text piece : Text} {pieces : List Text}
    (h : split separator text = piece :: pieces) : split separator (c :: text) = (c :: piece) :: pieces := by
  rw [split, if_neg hc, h]

/-- No piece of a text that is cut at a character holds the character. -/
theorem not_mem_of_mem_split {text piece : Text} (h : piece ∈ split separator text) : separator ∉ piece := by
  induction text generalizing piece with
  | nil =>
    rw [split, List.mem_singleton] at h
    exact h ▸ List.not_mem_nil
  | cons c text ih =>
    obtain ⟨first, pieces, hsplit⟩ := List.exists_cons_of_ne_nil (split_ne_nil separator text)
    by_cases hc : c = separator
    · rw [hc, split_cons_self, List.mem_cons] at h
      rcases h with rfl | h
      · exact List.not_mem_nil
      · exact ih h
    · rw [split_cons_of_ne hc hsplit, List.mem_cons] at h
      rcases h with rfl | h
      · rw [List.mem_cons, not_or]
        exact ⟨Ne.symm hc, ih (hsplit ▸ List.mem_cons_self)⟩
      · exact ih (hsplit ▸ List.mem_cons_of_mem first h)

/-- A text that is put together around the character is cut there and on both sides. -/
theorem split_append (text rest : Text) :
    split separator (text ++ separator :: rest) = split separator text ++ split separator rest := by
  induction text with
  | nil => exact split_cons_self rest
  | cons c text ih =>
    rw [List.cons_append]
    by_cases hc : c = separator
    · rw [hc, split_cons_self, split_cons_self, ih, List.cons_append]
    · obtain ⟨first, pieces, hsplit⟩ := List.exists_cons_of_ne_nil (split_ne_nil separator text)
      rw [hsplit, List.cons_append] at ih
      rw [split_cons_of_ne hc ih, split_cons_of_ne hc hsplit, List.cons_append]

/-- A text without separators is one piece. -/
theorem split_of_not_mem {text : Text} (h : separator ∉ text) : split separator text = [text] := by
  induction text with
  | nil => rfl
  | cons c text ih =>
    rw [List.mem_cons, not_or] at h
    exact split_cons_of_ne (Ne.symm h.1) (ih h.2)

theorem join_cons_cons (glue piece next : Text) (pieces : List Text) :
    join glue (piece :: next :: pieces) = piece ++ glue ++ join glue (next :: pieces) :=
  rfl

/-- Pieces that are joined by a character that none of them holds are got back by cutting at it. -/
theorem split_join {pieces : List Text} (hne : pieces ≠ []) (h : ∀ piece ∈ pieces, separator ∉ piece) :
    split separator (join [separator] pieces) = pieces := by
  induction pieces with
  | nil => exact absurd rfl hne
  | cons piece pieces ih =>
    have hpiece := h piece List.mem_cons_self
    cases pieces with
    | nil => exact split_of_not_mem hpiece
    | cons next pieces =>
      rw [join_cons_cons, List.append_assoc, List.singleton_append, split_append, split_of_not_mem hpiece,
        ih (List.cons_ne_nil _ _) fun other hother => h other (List.mem_cons_of_mem piece hother),
        List.singleton_append]

/-- A text that does not hold a character is left as it is by replacing it. -/
theorem replaceChar_eq_self {old new : Char} {text : Text} (h : old ∉ text) : replaceChar old new text = text := by
  refine (List.map_congr_left fun c hc => if_neg fun heq => ?_).trans (List.map_id text)
  exact h (heq ▸ hc)

/-- Pieces are joined without characters that are neither in them nor between them. -/
theorem not_mem_join {c : Char} (hc : c ≠ separator) {pieces : List Text} (h : ∀ piece ∈ pieces, c ∉ piece) :
    c ∉ join [separator] pieces := by
  induction pieces with
  | nil => exact List.not_mem_nil
  | cons piece pieces ih =>
    have hpiece := h piece List.mem_cons_self
    cases pieces with
    | nil => exact hpiece
    | cons next pieces =>
      have htail := ih fun other hother => h other (List.mem_cons_of_mem piece hother)
      rw [join_cons_cons, List.mem_append, List.mem_append, List.mem_singleton, not_or, not_or]
      exact ⟨⟨hpiece, hc⟩, htail⟩

end Text

namespace Path

/-- Whether the names are such as a path has that is read from a text. -/
def IsProper (path : Path) : Prop :=
  ∀ name ∈ path.names, name ≠ [] ∧ name ≠ selfName ∧ '/' ∉ name

instance (path : Path) : Decidable path.IsProper :=
  inferInstanceAs (Decidable (∀ name ∈ path.names, name ≠ [] ∧ name ≠ selfName ∧ '/' ∉ name))

/-- No slash stands before the first name of a path. -/
theorem takeWhile_join {path : Path} (h : path.IsProper) : (Text.join ['/'] path.names).takeWhile (· == '/') = [] := by
  obtain ⟨root, names⟩ := path
  cases names with
  | nil => rfl
  | cons name names =>
    obtain ⟨hne, -, hslash⟩ := h name List.mem_cons_self
    obtain ⟨c, tail, rfl⟩ := List.exists_cons_of_ne_nil hne
    have hc : ¬ (c == '/') = true := fun heq => hslash (by simp [beq_iff_eq.1 heq])
    cases names with
    | nil => exact List.takeWhile_cons_of_neg hc
    | cons next names => exact List.takeWhile_cons_of_neg hc

/-- A root is told from what stands before the first name. -/
theorem rootOf_append (root : Root) {text : Text} (h : text.takeWhile (· == '/') = []) :
    rootOf (root.text ++ text) = root := by
  cases root <;> simp [rootOf, Root.text, h]

/-- The names of a path are got back from what stands behind its root. -/
theorem filter_split_join {path : Path} (h : path.IsProper) :
    (Text.split '/' (Text.join ['/'] path.names)).filter (fun name => name != [] && name != selfName) = path.names := by
  by_cases hnames : path.names = []
  · rw [hnames]
    rfl
  · rw [Text.split_join hnames fun name hname => (h name hname).2.2]
    refine List.filter_eq_self.2 fun name hname => ?_
    simp [(h name hname).1, (h name hname).2.1]

/-- A path is read back from the text that it is written as. -/
theorem ofText_text {path : Path} (h : path.IsProper) : ofText path.text = path := by
  by_cases hself : path.root = .relative ∧ path.names = []
  · obtain ⟨root, names⟩ := path
    obtain ⟨rfl, rfl⟩ := hself
    rfl
  · rw [text, if_neg hself, ofText, rootOf_append path.root (takeWhile_join h)]
    have hroot : (Text.split '/' (path.root.text ++ Text.join ['/'] path.names)).filter
        (fun name => name != [] && name != selfName) = path.names := by
      refine Eq.trans ?_ (filter_split_join h)
      cases path.root with
      | relative => rfl
      | absolute => rw [Root.text, List.singleton_append, Text.split_cons_self]; rfl
      | doubleSlash =>
        rw [Root.text, List.cons_append, List.singleton_append, Text.split_cons_self, Text.split_cons_self]
        rfl
    rw [hroot]

/-- Different paths are written differently. -/
theorem eq_of_text_eq {path other : Path} (hpath : path.IsProper) (hother : other.IsProper)
    (h : path.text = other.text) : path = other := by
  rw [← ofText_text hpath, h, ofText_text hother]

end Path

end DirectiveIndex
