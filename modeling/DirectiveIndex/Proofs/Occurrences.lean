import DirectiveIndex.Proofs.Spans

namespace DirectiveIndex

/-- The pattern occurs in the source at `p` and extends up to `stop`. -/
def Pattern.OccursAt (source : Text) (p stop : Nat) : Pattern → Prop
  | .literal text => text <+: source.drop p ∧ stop = p + text.length
  | .keyword text => WholeWordAt source text p ∧ stop = p + text.length
  | .lineEnd => (['\n'] <+: source.drop p ∨ ['\r', '\n'] <+: source.drop p) ∧ stop = p
  | .identifier => p < stop ∧ stop ≤ source.length ∧ ((source.drop p).take (stop - p)).all Text.isIdentifier = true ∧
      ∀ c ∈ (source.drop stop).head?, Text.isIdentifier c = false

/-- The occurrence of an anchor that comes first from an offset on: at the earliest place where any anchor occurs, of
the first listed anchor that occurs there. -/
structure Found.IsEarliest {κ : Type} (source : Text) (offset : Nat) (anchors : List (Anchor κ)) (found : Found κ) :
    Prop where
  le_start : offset ≤ found.start
  start_le : found.start ≤ source.length
  occurs : ∃ before anchor after, anchors = before ++ anchor :: after ∧ anchor.label = found.label ∧
    anchor.pattern.OccursAt source found.start found.stop ∧
    ∀ other ∈ before, ∀ stop, ¬ other.pattern.OccursAt source found.start stop
  first : ∀ p, offset ≤ p → p < found.start → ∀ anchor ∈ anchors, ∀ stop, ¬ anchor.pattern.OccursAt source p stop

/-- No anchor occurs in the source from an offset on, the end of the source included. -/
def OccursNowhere {κ : Type} (source : Text) (offset : Nat) (anchors : List (Anchor κ)) : Prop :=
  ∀ p, offset ≤ p → p ≤ source.length → ∀ anchor ∈ anchors, ∀ stop, ¬ anchor.pattern.OccursAt source p stop

/-- The cursor behind a sequence of searches. -/
def Cursor.advanceAll {κ : Type} (cursor : Cursor) (calls : List (List (Anchor κ))) : Cursor :=
  calls.foldl (fun cursor anchors => (cursor.advance anchors).2) cursor

/-- The identifier characters at the beginning of a text are as many as there are before the first other one. -/
theorem length_takeWhile_isIdentifier_iff {text : Text} {n : Nat} :
    (text.takeWhile Text.isIdentifier).length = n ↔
      n ≤ text.length ∧ (text.take n).all Text.isIdentifier = true ∧
        ∀ c ∈ (text.drop n).head?, Text.isIdentifier c = false := by
  constructor
  · rintro rfl
    refine ⟨(List.takeWhile_prefix _).length_le, ?_, ?_⟩
    · rw [← List.prefix_iff_eq_take.1 (List.takeWhile_prefix _)]
      exact List.all_takeWhile
    · intro c hc
      have hdrop : text.drop (text.takeWhile Text.isIdentifier).length = text.dropWhile Text.isIdentifier := by
        have hsplit := @List.takeWhile_append_dropWhile _ Text.isIdentifier text
        calc text.drop (text.takeWhile Text.isIdentifier).length
          _ = (text.takeWhile Text.isIdentifier ++ text.dropWhile Text.isIdentifier).drop
                (text.takeWhile Text.isIdentifier).length := by rw [hsplit]
          _ = text.dropWhile Text.isIdentifier := List.drop_left
      rw [hdrop] at hc
      have hnot := List.head?_dropWhile_not Text.isIdentifier text
      rw [hc] at hnot
      simpa using hnot
  · rintro ⟨hlength, hall, hnext⟩
    have hstarts : Pattern.startsIdentifier (text.drop n) = false := by
      rw [Pattern.startsIdentifier]
      cases hhead : (text.drop n).head? with
      | none => rfl
      | some c => exact hnext c hhead
    have htake : (text.take n).takeWhile Text.isIdentifier = text.take n := by
      rw [← List.append_nil (text.take n), List.takeWhile_append_of_pos (List.all_eq_true.1 hall), List.takeWhile_nil]
    have hsplit : (text.take n ++ text.drop n).takeWhile Text.isIdentifier = text.take n := by
      rw [List.takeWhile_append, htake, if_pos rfl, Pattern.takeWhile_of_startsIdentifier hstarts, List.append_nil]
    rw [List.take_append_drop] at hsplit
    rw [hsplit, List.length_take, Nat.min_eq_left hlength]

section Source

variable {source : Text} {p : Nat}

/-- What a cursor tells from the text ahead and the character just passed is where the pattern occurs. -/
theorem width?_placeAt_eq_some_iff (hp : p ≤ source.length) (pattern : Pattern) (n : Nat) :
    pattern.width? (placeAt source p).last? (placeAt source p).rest = some n ↔
      pattern.OccursAt source p (p + n) := by
  have hstop (m : Nat) : p + n = p + m ↔ m = n := by omega
  rw [rest_placeAt, last?_placeAt hp]
  cases pattern with
  | literal text =>
    simp only [Pattern.width?, Pattern.OccursAt, Option.ite_none_right_eq_some, Option.some.injEq,
      List.isPrefixOf_iff_prefix, hstop]
  | keyword text =>
    have hlast : (!((source.take p).getLast?.any Text.isIdentifier)) = true ↔
        ∀ c ∈ (source.take p).getLast?, Text.isIdentifier c = false := by
      cases (source.take p).getLast? <;> simp
    have hnext : (!Pattern.startsIdentifier ((source.drop p).drop text.length)) = true ↔
        ∀ c ∈ (source.drop (p + text.length)).head?, Text.isIdentifier c = false := by
      rw [List.drop_drop, Pattern.startsIdentifier]
      cases (source.drop (p + text.length)).head? <;> simp
    simp only [Pattern.width?, Pattern.OccursAt, WholeWordAt, Option.ite_none_right_eq_some, Option.some.injEq,
      Bool.and_eq_true, List.isPrefixOf_iff_prefix, hlast, hnext, and_assoc, hstop]
  | lineEnd =>
    simp only [Pattern.width?, Pattern.OccursAt, Option.ite_none_right_eq_some, Option.some.injEq, Bool.or_eq_true,
      List.isPrefixOf_iff_prefix]
    exact and_congr_right fun _ => (hstop 0).symm
  | identifier =>
    have hstarts : Pattern.startsIdentifier (source.drop p) = true ↔
        0 < ((source.drop p).takeWhile Text.isIdentifier).length := by
      cases source.drop p with
      | nil => simp [Pattern.startsIdentifier]
      | cons c rest => cases hc : Text.isIdentifier c <;> simp [Pattern.startsIdentifier, hc]
    simp only [Pattern.width?, Pattern.OccursAt, Option.ite_none_right_eq_some, Option.some.injEq, hstarts]
    rw [← List.drop_drop, Nat.add_sub_cancel_left]
    constructor
    · rintro ⟨hpos, hlength⟩
      obtain ⟨hle, hall, hnext⟩ := length_takeWhile_isIdentifier_iff.1 hlength
      rw [List.length_drop] at hle
      exact ⟨by omega, by omega, hall, hnext⟩
    · rintro ⟨hpos, hle, hall, hnext⟩
      have hlength := length_takeWhile_isIdentifier_iff.2 ⟨by rw [List.length_drop]; omega, hall, hnext⟩
      exact ⟨by omega, hlength⟩

/-- What occurs at a position does not end before it. -/
theorem Pattern.OccursAt.le_stop {pattern : Pattern} {stop : Nat} (h : pattern.OccursAt source p stop) : p ≤ stop := by
  cases pattern with
  | literal text => exact h.2 ▸ Nat.le_add_right _ _
  | keyword text => exact h.2 ▸ Nat.le_add_right _ _
  | lineEnd => exact Nat.le_of_eq h.2.symm
  | identifier => exact Nat.le_of_lt h.1

/-- A cursor tells nothing where the pattern does not occur, however far it might extend. -/
theorem width?_placeAt_eq_none_iff (hp : p ≤ source.length) (pattern : Pattern) :
    pattern.width? (placeAt source p).last? (placeAt source p).rest = none ↔
      ∀ stop, ¬ pattern.OccursAt source p stop := by
  rw [Option.eq_none_iff_forall_ne_some]
  constructor
  · intro h stop hoccurs
    obtain ⟨n, rfl⟩ := Nat.exists_eq_add_of_le hoccurs.le_stop
    exact h n ((width?_placeAt_eq_some_iff hp pattern n).2 hoccurs)
  · intro h n hn
    exact h _ ((width?_placeAt_eq_some_iff hp pattern n).1 hn)

/-- Skipping characters leads to a later place. -/
theorem skip_placeAt (source : Text) (p n : Nat) : (placeAt source p).skip n = placeAt source (p + n) :=
  Cursor.skip_skip p n _

/-- The end of a source is one of its places. -/
theorem toEnd_placeAt (hp : p ≤ source.length) : (placeAt source p).toEnd = placeAt source source.length := by
  rw [Cursor.toEnd, skip_placeAt, rest_placeAt, List.length_drop, Nat.add_sub_cancel' hp]

variable {κ : Type} {anchors : List (Anchor κ)} {found : Found κ} {next : Cursor}

/-- What is found at the place itself. -/
theorem foundHere?_placeAt_eq_some_iff (hp : p ≤ source.length) :
    (placeAt source p).foundHere? anchors = some (found, next) ↔
      found.start = p ∧ found.IsEarliest source p anchors ∧ next = placeAt source found.stop := by
  rw [Cursor.foundHere?, List.findSome?_eq_some_iff]
  constructor
  · rintro ⟨before, anchor, after, hanchors, hfound, hbefore⟩
    obtain ⟨n, hn, heq⟩ := Option.map_eq_some_iff.1 hfound
    obtain ⟨rfl, rfl⟩ := Prod.mk.inj heq
    dsimp only
    rw [offset_placeAt hp]
    refine ⟨rfl, ⟨Nat.le.refl, hp, ⟨before, anchor, after, hanchors, rfl, ?_, ?_⟩, ?_⟩, skip_placeAt source p n⟩
    · exact (width?_placeAt_eq_some_iff hp anchor.pattern n).1 hn
    · intro other hother
      exact (width?_placeAt_eq_none_iff hp other.pattern).1 (Option.map_eq_none_iff.1 (hbefore other hother))
    · intro q hle hlt
      exact absurd hlt (Nat.not_lt.2 hle)
  · rintro ⟨rfl, hearliest, rfl⟩
    obtain ⟨before, anchor, after, hanchors, hlabel, hoccurs, hbefore⟩ := hearliest.occurs
    obtain ⟨n, hn⟩ := Nat.exists_eq_add_of_le hoccurs.le_stop
    rw [hn] at hoccurs
    refine ⟨before, anchor, after, hanchors, ?_, ?_⟩
    · rw [(width?_placeAt_eq_some_iff hp anchor.pattern n).2 hoccurs, Option.map_some, offset_placeAt hp, hlabel,
        skip_placeAt, ← hn]
    · intro other hother
      rw [(width?_placeAt_eq_none_iff hp other.pattern).2 (hbefore other hother), Option.map_none]

/-- Nothing is found at a place where no pattern occurs. -/
theorem foundHere?_placeAt_eq_none_iff (hp : p ≤ source.length) :
    (placeAt source p).foundHere? anchors = none ↔
      ∀ anchor ∈ anchors, ∀ stop, ¬ anchor.pattern.OccursAt source p stop := by
  rw [Cursor.foundHere?, List.findSome?_eq_none_iff]
  simp only [Option.map_eq_none_iff, width?_placeAt_eq_none_iff hp]

/-- A search looks at the place itself and then goes on from the next one. -/
theorem search_placeAt (hp : p < source.length) :
    Cursor.search anchors (placeAt source p).last? (placeAt source p).offset (placeAt source p).rest =
      ((placeAt source p).foundHere? anchors).or
        (Cursor.search anchors (placeAt source (p + 1)).last? (placeAt source (p + 1)).offset
          (placeAt source (p + 1)).rest) := by
  obtain ⟨last?, hplace⟩ := placeAt_of_lt hp
  rw [hplace, placeAt_succ_of_lt hp]
  rfl

/-- At the end of the source a search looks at the place itself only. -/
theorem search_placeAt_length :
    Cursor.search anchors (placeAt source source.length).last? (placeAt source source.length).offset
        (placeAt source source.length).rest =
      (placeAt source source.length).foundHere? anchors := by
  have hrest := rest_placeAt_of_length_le (Nat.le_refl source.length)
  generalize placeAt source source.length = place at hrest
  obtain ⟨last?, offset, rest⟩ := place
  subst hrest
  rfl

/-- What comes first from an offset on is at the offset, or it comes first from the next one on and nothing is at the
offset. -/
theorem Found.isEarliest_iff :
    found.IsEarliest source p anchors ↔
      found.start = p ∧ found.IsEarliest source p anchors ∨
        (∀ anchor ∈ anchors, ∀ stop, ¬ anchor.pattern.OccursAt source p stop) ∧
          found.IsEarliest source (p + 1) anchors := by
  constructor
  · intro h
    rcases Nat.eq_or_lt_of_le h.le_start with heq | hlt
    · exact .inl ⟨heq.symm, h⟩
    · exact .inr ⟨h.first p Nat.le.refl hlt, hlt, h.start_le, h.occurs, fun q hle => h.first q (Nat.le_of_succ_le hle)⟩
  · rintro (⟨-, h⟩ | ⟨hnone, h⟩)
    · exact h
    · refine ⟨Nat.le_of_succ_le h.le_start, h.start_le, h.occurs, fun q hle hlt => ?_⟩
      rcases Nat.eq_or_lt_of_le hle with rfl | hle
      · exact hnone
      · exact h.first q hle hlt

/-- No pattern occurs from a position on if none occurs at it or behind it. -/
theorem occursNowhere_iff (hp : p < source.length) :
    OccursNowhere source p anchors ↔
      (∀ anchor ∈ anchors, ∀ stop, ¬ anchor.pattern.OccursAt source p stop) ∧
        OccursNowhere source (p + 1) anchors := by
  constructor
  · exact fun h => ⟨h p Nat.le.refl (Nat.le_of_lt hp), fun q hle => h q (Nat.le_of_succ_le hle)⟩
  · rintro ⟨hhere, h⟩ q hle hlength
    rcases Nat.eq_or_lt_of_le hle with rfl | hle
    · exact hhere
    · exact h q hle hlength

/-- A search finds what comes first from its place on, and nothing if no anchor occurs there. -/
theorem search_placeAt_iff (hp : p ≤ source.length) :
    (∀ found next, Cursor.search anchors (placeAt source p).last? (placeAt source p).offset (placeAt source p).rest =
        some (found, next) ↔ found.IsEarliest source p anchors ∧ next = placeAt source found.stop) ∧
      (Cursor.search anchors (placeAt source p).last? (placeAt source p).offset (placeAt source p).rest = none ↔
        OccursNowhere source p anchors) := by
  generalize hk : source.length - p = k
  induction k generalizing p with
  | zero =>
    obtain rfl : p = source.length := by omega
    rw [search_placeAt_length, foundHere?_placeAt_eq_none_iff hp]
    refine ⟨fun found next => ?_, ?_⟩
    · rw [foundHere?_placeAt_eq_some_iff hp]
      exact ⟨And.right, fun h => ⟨Nat.le_antisymm h.1.start_le h.1.le_start, h⟩⟩
    · exact ⟨fun h q hle hlength => Nat.le_antisymm hlength hle ▸ h, fun h => h _ Nat.le.refl Nat.le.refl⟩
  | succ k ih =>
    have hlt : p < source.length := by omega
    obtain ⟨hsome, hnone⟩ := ih hlt (by omega)
    rw [search_placeAt hlt, Option.or_eq_none_iff, foundHere?_placeAt_eq_none_iff hp, hnone, occursNowhere_iff hlt]
    refine ⟨fun found next => ?_, Iff.rfl⟩
    rw [Option.or_eq_some_iff, foundHere?_placeAt_eq_some_iff hp, foundHere?_placeAt_eq_none_iff hp, hsome]
    constructor
    · rintro (⟨-, hearliest, hnext⟩ | ⟨hhere, hearliest, hnext⟩)
      · exact ⟨hearliest, hnext⟩
      · exact ⟨Found.isEarliest_iff.2 (.inr ⟨hhere, hearliest⟩), hnext⟩
    · rintro ⟨hearliest, hnext⟩
      obtain ⟨hstart, -⟩ | ⟨hhere, hlater⟩ := Found.isEarliest_iff.1 hearliest
      · exact .inl ⟨hstart, hearliest, hnext⟩
      · exact .inr ⟨hhere, hlater, hnext⟩

/-- What a cursor finds from a place on that is not the end, and where it stands then. -/
theorem advance_placeAt_iff (hp : p < source.length) (anchors : List (Anchor κ)) :
    (∀ found after, (placeAt source p).advance anchors = (some found, after) ↔
        found.IsEarliest source p anchors ∧ after = placeAt source found.stop) ∧
      (∀ after, (placeAt source p).advance anchors = (none, after) ↔
        OccursNowhere source p anchors ∧ after = placeAt source source.length) := by
  obtain ⟨hsome, hnone⟩ := @search_placeAt_iff _ _ _ anchors (Nat.le_of_lt hp)
  have hend : (placeAt source p).atEnd = false := by
    rw [Cursor.atEnd, rest_placeAt, List.isEmpty_eq_false_iff, ne_eq, List.drop_eq_nil_iff]
    omega
  simp only [← hsome, ← hnone]
  rw [Cursor.advance, Cursor.advance?, hend, if_neg Bool.false_ne_true, toEnd_placeAt (Nat.le_of_lt hp)]
  cases Cursor.search anchors (placeAt source p).last? (placeAt source p).offset (placeAt source p).rest with
  | none => exact ⟨fun found after => by simp, fun after => by simp [eq_comm]⟩
  | some outcome =>
    obtain ⟨earliest, behind⟩ := outcome
    exact ⟨fun found after => by simp, fun after => by simp⟩

/-- At the end of the source nothing is found. -/
theorem advance_placeAt_length (source : Text) (anchors : List (Anchor κ)) :
    (placeAt source source.length).advance anchors = (none, placeAt source source.length) := by
  have hend : (placeAt source source.length).atEnd = true := by
    rw [Cursor.atEnd, rest_placeAt, List.drop_length]
    rfl
  rw [Cursor.advance, Cursor.advance?, hend, if_pos rfl, toEnd_placeAt Nat.le.refl]

/-- An occurrence ends within the source. -/
theorem Found.IsEarliest.stop_le (h : found.IsEarliest source p anchors) : found.stop ≤ source.length := by
  obtain ⟨before, anchor, after, -, -, hoccurs, -⟩ := h.occurs
  obtain ⟨n, hn⟩ := Nat.exists_eq_add_of_le hoccurs.le_stop
  rw [hn] at hoccurs ⊢
  have hle := Pattern.width?_le ((width?_placeAt_eq_some_iff h.start_le anchor.pattern n).2 hoccurs)
  rw [rest_placeAt, List.length_drop] at hle
  have := h.start_le
  omega

/-- A search leaves a cursor in the source. -/
theorem exists_placeAt_advance (hp : p ≤ source.length) (anchors : List (Anchor κ)) :
    ∃ q ≤ source.length, ((placeAt source p).advance anchors).2 = placeAt source q := by
  rcases Nat.eq_or_lt_of_le hp with rfl | hlt
  · exact ⟨source.length, Nat.le.refl, by rw [advance_placeAt_length]⟩
  · obtain ⟨hsome, hnone⟩ := advance_placeAt_iff hlt anchors
    cases hadvance : (placeAt source p).advance anchors with
    | mk found? after =>
      cases found? with
      | none => exact ⟨source.length, Nat.le.refl, ((hnone after).1 hadvance).2⟩
      | some found =>
        obtain ⟨hearliest, hafter⟩ := (hsome found after).1 hadvance
        exact ⟨found.stop, hearliest.stop_le, hafter⟩

/-- Any number of searches leads to a place of the source. -/
theorem exists_placeAt_advanceAll (hp : p ≤ source.length) (calls : List (List (Anchor κ))) :
    ∃ q ≤ source.length, (placeAt source p).advanceAll calls = placeAt source q := by
  induction calls generalizing p with
  | nil => exact ⟨p, hp, rfl⟩
  | cons anchors calls ih =>
    obtain ⟨q, hq, hadvance⟩ := exists_placeAt_advance hp anchors
    obtain ⟨r, hr, hall⟩ := ih hq
    exact ⟨r, hr, by rw [← hall, ← hadvance]; rfl⟩

/-- A cursor starts at the offset given, or at the end of the source that is nearest to it. -/
theorem ofOffset_eq_placeAt (source : Text) (start : Int) :
    Cursor.ofOffset source start = placeAt source (max 0 (min start source.length)).toNat := by
  have hoffset : (max 0 (min start source.length)).toNat = min start.toNat source.length := by omega
  rw [hoffset, Cursor.ofOffset, ← placeAt]
  rcases Nat.le_total start.toNat source.length with hle | hle
  · rw [Nat.min_eq_left hle]
  · rw [Nat.min_eq_right hle]
    obtain ⟨n, hn⟩ := Nat.exists_eq_add_of_le hle
    rw [hn, ← skip_placeAt]
    have hrest := rest_placeAt_of_length_le (Nat.le_refl source.length)
    generalize placeAt source source.length = place at hrest
    obtain ⟨last?, offset, rest⟩ := place
    subst hrest
    exact Cursor.skip_nil n last? offset

end Source

/-- A cursor starts at the given offset, moved into the source. Wherever searches have brought it, from the end of the
source and for no anchors it finds nothing and is at the end then. Otherwise it finds exactly the earliest occurrence
from its offset on, of the first listed anchor that occurs there, and stands at the end of that occurrence; or nothing,
if and only if no anchor occurs from its offset on, and then it is at the end of the source. -/
theorem advance_isEarliest {κ : Type} (source : Text) (start : Int) (calls : List (List (Anchor κ)))
    (anchors : List (Anchor κ)) :
    let cursor := (Cursor.ofOffset source start).advanceAll calls
    let outcome := cursor.advance anchors
    (Cursor.ofOffset source start).offset = (max 0 (min start source.length)).toNat ∧
      cursor.offset ≤ source.length ∧
      (cursor.offset = source.length ∨ anchors = [] → outcome.1 = none ∧ outcome.2.offset = source.length) ∧
      (cursor.offset < source.length →
        (∀ found, outcome.1 = some found ↔ found.IsEarliest source cursor.offset anchors) ∧
        (∀ found, outcome.1 = some found → outcome.2.offset = found.stop) ∧
        (outcome.1 = none ↔ OccursNowhere source cursor.offset anchors) ∧
        (outcome.1 = none → outcome.2.offset = source.length)) := by
  have hstart : (max 0 (min start source.length)).toNat ≤ source.length := by omega
  obtain ⟨p, hp, hcursor⟩ := exists_placeAt_advanceAll hstart calls
  rw [← ofOffset_eq_placeAt] at hcursor
  dsimp only
  rw [hcursor, offset_placeAt hp]
  refine ⟨by rw [ofOffset_eq_placeAt, offset_placeAt hstart], hp, ?_, fun hlt => ?_⟩
  · intro hnone
    have hadvance : (placeAt source p).advance anchors = (none, placeAt source source.length) := by
      rcases Nat.eq_or_lt_of_le hp with rfl | hlt
      · exact advance_placeAt_length source anchors
      · obtain rfl := hnone.resolve_left (Nat.ne_of_lt hlt)
        exact ((advance_placeAt_iff hlt _).2 _).2 ⟨fun _ _ _ _ hmem => (List.not_mem_nil hmem).elim, rfl⟩
    rw [hadvance, offset_placeAt Nat.le.refl]
    exact ⟨rfl, rfl⟩
  · obtain ⟨hsome, hnone⟩ := advance_placeAt_iff hlt anchors
    generalize (placeAt source p).advance anchors = outcome at hsome hnone ⊢
    obtain ⟨found?, after⟩ := outcome
    dsimp only
    refine ⟨fun found => ?_, fun found hfound => ?_, ?_, fun hfound => ?_⟩
    · constructor
      · rintro rfl
        exact ((hsome found after).1 rfl).1
      · exact fun h => (Prod.mk.inj ((hsome found _).2 ⟨h, rfl⟩)).1
    · obtain rfl := hfound
      obtain ⟨hearliest, rfl⟩ := (hsome found after).1 rfl
      exact offset_placeAt hearliest.stop_le
    · constructor
      · rintro rfl
        exact ((hnone after).1 rfl).1
      · exact fun h => (Prod.mk.inj ((hnone _).2 ⟨h, rfl⟩)).1
    · obtain rfl := hfound
      rw [((hnone after).1 rfl).2, offset_placeAt Nat.le.refl]

end DirectiveIndex
