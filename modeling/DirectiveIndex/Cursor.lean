import DirectiveIndex.Anchor

namespace DirectiveIndex

/-- A place in a source text: the character just passed, the number of characters passed, and the text ahead. -/
structure Cursor where
  last? : Option Char
  offset : Nat
  rest : Text
deriving DecidableEq, Repr

namespace Cursor

/-- The start of a source. -/
def ofText (source : Text) : Cursor :=
  ⟨none, 0, source⟩

/-- The place after `n` more characters, or the end if there are fewer. -/
def skip : Nat → Cursor → Cursor
  | n + 1, ⟨_, offset, c :: rest⟩ => skip n ⟨some c, offset + 1, rest⟩
  | _, cursor => cursor

/-- The place at an offset into a source, which is moved to the nearest end if it lies outside. -/
def ofOffset (source : Text) (offset : Int) : Cursor :=
  (ofText source).skip offset.toNat

/-- The end of the source. -/
def toEnd (cursor : Cursor) : Cursor :=
  cursor.skip cursor.rest.length

/-- Whether nothing lies ahead. -/
def atEnd (cursor : Cursor) : Bool :=
  cursor.rest.isEmpty

/-- The length of the whole source. -/
def length (cursor : Cursor) : Nat :=
  cursor.offset + cursor.rest.length

/-- A cursor as messages show it. -/
def description (cursor : Cursor) : Text :=
  "Cursor(offset=".toList ++ Text.ofNat cursor.offset ++ ", length=".toList ++ Text.ofNat cursor.length ++ [')']

/-- The text from the cursor to a later offset. -/
def textTo (cursor : Cursor) (stop : Nat) : Text :=
  cursor.rest.take (stop - cursor.offset)

/-- The text between two offsets that the cursor has yet to reach. -/
def textBetween (cursor : Cursor) (start stop : Nat) : Text :=
  (cursor.rest.drop (start - cursor.offset)).take (stop - start)

/-- The first listed anchor that occurs at the cursor. -/
def foundHere? {κ : Type} (anchors : List (Anchor κ)) (cursor : Cursor) : Option (Found κ × Cursor) :=
  anchors.findSome? fun anchor =>
    (anchor.pattern.width? cursor.last? cursor.rest).map fun n =>
      (⟨anchor.label, cursor.offset, cursor.offset + n⟩, cursor.skip n)

/-- The earliest occurrence of an anchor in the text ahead, its end included; of several at one place, that of the first
listed anchor. -/
def search {κ : Type} (anchors : List (Anchor κ)) (last? : Option Char) (offset : Nat) :
    Text → Option (Found κ × Cursor)
  | [] => foundHere? anchors ⟨last?, offset, []⟩
  | c :: rest =>
    (foundHere? anchors ⟨last?, offset, c :: rest⟩).or (search anchors (some c) (offset + 1) rest)

/-- The earliest occurrence of an anchor, with the cursor behind it. From the end of the source nothing can be found. -/
def advance? {κ : Type} (anchors : List (Anchor κ)) (cursor : Cursor) : Option (Found κ × Cursor) :=
  if cursor.atEnd then none else search anchors cursor.last? cursor.offset cursor.rest

/-- Moves behind the earliest occurrence of an anchor, or to the end if there is none. -/
def advance {κ : Type} (anchors : List (Anchor κ)) (cursor : Cursor) : Option (Found κ) × Cursor :=
  match cursor.advance? anchors with
  | none => (none, cursor.toEnd)
  | some (found, after) => (some found, after)

@[simp]
theorem rest_skip (n : Nat) (cursor : Cursor) : (cursor.skip n).rest = cursor.rest.drop n := by
  fun_induction skip n cursor with
  | case1 n last? offset c rest ih => simpa using ih
  | case2 n cursor h =>
    cases n with
    | zero => rfl
    | succ n =>
      obtain ⟨last?, offset, rest⟩ := cursor
      cases rest with
      | nil => rfl
      | cons c rest => exact absurd rfl (h n last? offset c rest rfl)

@[simp]
theorem rest_toEnd (cursor : Cursor) : cursor.toEnd.rest = [] := by
  simp [toEnd]

theorem foundHere?_rest {κ : Type} {anchors : List (Anchor κ)} {cursor after : Cursor} {found : Found κ}
    (h : cursor.foundHere? anchors = some (found, after)) :
    ∃ anchor ∈ anchors, ∃ n, anchor.pattern.width? cursor.last? cursor.rest = some n ∧
      found = ⟨anchor.label, cursor.offset, cursor.offset + n⟩ ∧ after = cursor.skip n := by
  obtain ⟨anchor, hmem, hanchor⟩ := List.exists_of_findSome?_eq_some h
  obtain ⟨n, hn, heq⟩ := Option.map_eq_some_iff.1 hanchor
  simp only [Prod.mk.injEq] at heq
  exact ⟨anchor, hmem, n, hn, heq.1.symm, heq.2.symm⟩

theorem search_rest_le {κ : Type} {anchors : List (Anchor κ)} {last? : Option Char} {offset : Nat}
    {rest : Text} {found : Found κ} {after : Cursor}
    (h : search anchors last? offset rest = some (found, after)) :
    after.rest.length ≤ rest.length := by
  induction rest generalizing last? offset with
  | nil =>
    obtain ⟨anchor, _, n, _, _, rfl⟩ := foundHere?_rest h
    simp
  | cons c rest ih =>
    simp only [search, Option.or_eq_some_iff] at h
    rcases h with h | ⟨_, h⟩
    · obtain ⟨anchor, _, n, _, _, rfl⟩ := foundHere?_rest h
      simp
    · have := ih h
      simp only [List.length_cons]
      omega

theorem search_rest_lt {κ : Type} {anchors : List (Anchor κ)} {last? : Option Char} {offset : Nat}
    {rest : Text} {found : Found κ} {after : Cursor}
    (hconsumes : ∀ anchor ∈ anchors, anchor.pattern.consumes = true)
    (h : search anchors last? offset rest = some (found, after)) :
    after.rest.length < rest.length := by
  induction rest generalizing last? offset with
  | nil =>
    obtain ⟨anchor, hmem, n, hn, _, rfl⟩ := foundHere?_rest h
    have hle := Pattern.width?_le hn
    have hpos := Pattern.width?_pos (hconsumes anchor hmem) hn
    simp only [List.length_nil] at hle
    omega
  | cons c rest ih =>
    simp only [search, Option.or_eq_some_iff] at h
    rcases h with h | ⟨_, h⟩
    · obtain ⟨anchor, hmem, n, hn, _, rfl⟩ := foundHere?_rest h
      have hpos := Pattern.width?_pos (hconsumes anchor hmem) hn
      simp only [rest_skip, List.length_drop, List.length_cons]
      omega
    · have := ih h
      simp only [List.length_cons]
      omega

/-- Finding an anchor never moves the cursor back. -/
theorem advance?_rest_le {κ : Type} {anchors : List (Anchor κ)} {cursor after : Cursor} {found : Found κ}
    (h : cursor.advance? anchors = some (found, after)) : after.rest.length ≤ cursor.rest.length := by
  simp only [advance?, Option.ite_none_left_eq_some] at h
  exact search_rest_le h.2

/-- Finding an anchor moves the cursor ahead if every anchor covers at least one character. -/
theorem advance?_rest_lt {κ : Type} {anchors : List (Anchor κ)} {cursor after : Cursor} {found : Found κ}
    (hconsumes : ∀ anchor ∈ anchors, anchor.pattern.consumes = true)
    (h : cursor.advance? anchors = some (found, after)) : after.rest.length < cursor.rest.length := by
  simp only [advance?, Option.ite_none_left_eq_some] at h
  exact search_rest_lt hconsumes h.2

theorem advance_rest_le {κ : Type} (anchors : List (Anchor κ)) (cursor : Cursor) :
    (cursor.advance anchors).2.rest.length ≤ cursor.rest.length := by
  unfold advance
  split
  · simp
  · exact advance?_rest_le ‹_›

end Cursor

end DirectiveIndex
