import DirectiveIndex.Proofs.JsonGrammar
import DirectiveIndex.Proofs.Regexes

namespace DirectiveIndex

namespace Json

/-- Reads the inside of a string and the quote behind it. -/
def readUnits : Text → Option (List Nat × Text)
  | [] => none
  | '"' :: rest => some ([], rest)
  | '\\' :: 'u' :: a :: b :: c :: d :: rest => do
    let unit ← Text.ofHex? [a, b, c, d]
    let (units, rest) ← readUnits rest
    return (unit :: units, rest)
  | '\\' :: letter :: rest => do
    let c ← escapes.lookup letter
    let (units, rest) ← readUnits rest
    return (c.toNat :: units, rest)
  | c :: rest =>
    if 0x20 ≤ c.toNat ∧ c ≠ '\\' then do
      let (units, rest) ← readUnits rest
      return (c.toNat :: units, rest)
    else
      none

/-- The characters of numbers and literal names. -/
def isWordChar (c : Char) : Bool :=
  c.isAlphanum || c == '+' || c == '-' || c == '.'

/-- The value of a number or a literal name. -/
def wordValue? (word : Text) : Option Value :=
  if word = "null".toList then some .null
  else if word = "true".toList then some (.boolean true)
  else if word = "false".toList then some (.boolean false)
  else if numberForm.accepts word then some (.number word)
  else none

/-- What stands behind the blanks at the beginning of a text. -/
def skipGap (text : Text) : Text :=
  text.dropWhile isBlank

mutual

/-- Reads a value at the beginning of a text. The number bounds how deep the readers call each other. -/
def readValue : Nat → Text → Option (Value × Text)
  | 0, _ => none
  | n + 1, text =>
    match text with
    | '"' :: rest => do
      let (units, rest) ← readUnits rest
      return (.string (joinPairs units), rest)
    | '[' :: rest =>
      match skipGap rest with
      | ']' :: rest => some (.array [], rest)
      | _ => do
        let (items, rest) ← readItems n rest
        return (.array items, rest)
    | '\x7b' :: rest =>
      match skipGap rest with
      | '\x7d' :: rest => some (.object [], rest)
      | _ => do
        let (members, rest) ← readMembers n rest
        return (.object members, rest)
    | _ => do
      let value ← wordValue? (text.takeWhile isWordChar)
      return (value, text.dropWhile isWordChar)

/-- Reads a value and the blanks around it. -/
def readSpaced : Nat → Text → Option (Value × Text)
  | 0, _ => none
  | n + 1, text => do
    let (value, rest) ← readValue n (skipGap text)
    return (value, skipGap rest)

/-- Reads the items of an array and the bracket behind them. -/
def readItems : Nat → Text → Option (List Value × Text)
  | 0, _ => none
  | n + 1, text => do
    let (value, rest) ← readSpaced n text
    match rest with
    | ',' :: rest => do
      let (values, rest) ← readItems n rest
      return (value :: values, rest)
    | ']' :: rest => return ([value], rest)
    | _ => none

/-- Reads a member of an object. -/
def readMember : Nat → Text → Option ((List Nat × Value) × Text)
  | 0, _ => none
  | n + 1, text =>
    match skipGap text with
    | '"' :: rest => do
      let (units, rest) ← readUnits rest
      match skipGap rest with
      | ':' :: rest => do
        let (value, rest) ← readSpaced n rest
        return ((joinPairs units, value), rest)
      | _ => none
    | _ => none

/-- Reads the members of an object and the brace behind them. -/
def readMembers : Nat → Text → Option (List (List Nat × Value) × Text)
  | 0, _ => none
  | n + 1, text => do
    let (member, rest) ← readMember n text
    match rest with
    | ',' :: rest => do
      let (members, rest) ← readMembers n rest
      return (member :: members, rest)
    | '\x7d' :: rest => return ([member], rest)
    | _ => none

end

/-- Reads a text as JSON. -/
def read (text : Text) : Option Value := do
  let (value, rest) ← readSpaced (4 * text.length + 1) text
  if rest = [] then some value else none

variable {text body rest : Text} {units : List Nat} {value : Value}

/-- What the reader of strings passes over is the inside of a string and its closing quote. -/
theorem exists_denotesUnits (h : readUnits text = some (units, rest)) :
    ∃ body, text = body ++ '"' :: rest ∧ DenotesUnits body units := by
  fun_induction readUnits text generalizing units rest with
  | case1 => cases h
  | case2 tail =>
    obtain ⟨rfl, rfl⟩ := Prod.mk.inj (Option.some.inj h)
    exact ⟨[], rfl, .nil⟩
  | case3 a b c d tail ih =>
    obtain ⟨unit, hunit, h⟩ := Option.bind_eq_some_iff.1 h
    obtain ⟨⟨others, tail'⟩, hread, h⟩ := Option.bind_eq_some_iff.1 h
    obtain ⟨rfl, rfl⟩ := Prod.mk.inj (Option.some.inj h)
    obtain ⟨body, rfl, hbody⟩ := ih hread
    exact ⟨'\\' :: 'u' :: ([a, b, c, d] ++ body), rfl, .code rfl hunit hbody⟩
  | case4 letter tail _ ih =>
    obtain ⟨c, hc, h⟩ := Option.bind_eq_some_iff.1 h
    obtain ⟨⟨others, tail'⟩, hread, h⟩ := Option.bind_eq_some_iff.1 h
    obtain ⟨rfl, rfl⟩ := Prod.mk.inj (Option.some.inj h)
    obtain ⟨body, rfl, hbody⟩ := ih hread
    exact ⟨'\\' :: letter :: body, rfl, .letter hc hbody⟩
  | case5 c tail hquote _ _ hc ih =>
    obtain ⟨⟨others, tail'⟩, hread, h⟩ := Option.bind_eq_some_iff.1 h
    obtain ⟨rfl, rfl⟩ := Prod.mk.inj (Option.some.inj h)
    obtain ⟨body, rfl, hbody⟩ := ih hread
    exact ⟨c :: body, rfl, .plain hc.1 hquote hc.2 hbody⟩
  | case6 => cases h

/-- The inside of a string is read up to the quote behind it. -/
theorem readUnits_append (h : DenotesUnits body units) (rest : Text) :
    readUnits (body ++ '"' :: rest) = some (units, rest) := by
  induction h with
  | nil => rfl
  | plain hcontrol hquote hbackslash _ ih => simp [readUnits, *]
  | @letter letter c body units hletter _ ih =>
    have hne : letter ≠ 'u' := by
      rintro rfl
      cases hletter
    simp [readUnits, hne, hletter, ih]
  | @code digits body unit units hlength hdigits _ ih =>
    obtain ⟨a, b, c, d, rfl⟩ := List.length_eq_four.1 hlength
    simp [readUnits, hdigits, ih]

/-- What is skipped at the beginning of a text is blank. -/
theorem exists_gap (text : Text) : ∃ gap, text = gap ++ skipGap text ∧ IsGap gap := by
  refine ⟨text.takeWhile isBlank, List.takeWhile_append_dropWhile.symm, fun c hc => ?_⟩
  exact List.mem_takeWhile_imp hc

/-- A word with a value is a literal name or a number of the grammar. -/
theorem denotes_of_wordValue? {word : Text} (h : wordValue? word = some value) : Denotes word value := by
  unfold wordValue? at h
  split at h
  · rename_i hword
    cases h
    exact hword ▸ .null
  split at h
  · rename_i hword
    cases h
    exact hword ▸ .yes
  split at h
  · rename_i hword
    cases h
    exact hword ▸ .no
  split at h
  · rename_i hnumber
    cases h
    exact .number hnumber
  · cases h

/-- Whether a reader passes over a text that denotes what it gives, and over what closes that text. -/
def Passes {α : Type} (reader : Text → Option (α × Text)) (denotes : Text → α → Prop) (closing : Text) : Prop :=
  ∀ ⦃text a rest⦄, reader text = some (a, rest) → ∃ form, text = form ++ (closing ++ rest) ∧ denotes form a

section

variable {n : Nat}

/-- The reader of values passes over a value if the readers of what arrays and objects hold do. -/
theorem passes_readValue (hitems : Passes (readItems n) DenotesItems [']'])
    (hmembers : Passes (readMembers n) DenotesMembers ['\x7d']) : Passes (readValue (n + 1)) Denotes [] := by
  intro text value rest h
  rw [readValue.eq_def] at h
  dsimp only at h
  split at h
  · rename_i inner
    obtain ⟨⟨units, tail⟩, hunits, h⟩ := Option.bind_eq_some_iff.1 h
    obtain ⟨rfl, rfl⟩ := Prod.mk.inj (Option.some.inj h)
    obtain ⟨body, rfl, hbody⟩ := exists_denotesUnits hunits
    exact ⟨'"' :: (body ++ ['"']), by simp, .string hbody⟩
  · rename_i inner
    split at h
    · rename_i tail hgap
      obtain ⟨rfl, rfl⟩ := Prod.mk.inj (Option.some.inj h)
      obtain ⟨gap, hinner, hblank⟩ := exists_gap inner
      exact ⟨'[' :: (gap ++ [']']), by rw [hinner, hgap]; simp, .emptyArray hblank⟩
    · obtain ⟨⟨items, tail⟩, hread, h⟩ := Option.bind_eq_some_iff.1 h
      obtain ⟨rfl, rfl⟩ := Prod.mk.inj (Option.some.inj h)
      obtain ⟨form, rfl, hform⟩ := hitems hread
      exact ⟨'[' :: (form ++ [']']), by simp, .array hform⟩
  · rename_i inner
    split at h
    · rename_i tail hgap
      obtain ⟨rfl, rfl⟩ := Prod.mk.inj (Option.some.inj h)
      obtain ⟨gap, hinner, hblank⟩ := exists_gap inner
      exact ⟨'\x7b' :: (gap ++ ['\x7d']), by rw [hinner, hgap]; simp, .emptyObject hblank⟩
    · obtain ⟨⟨members, tail⟩, hread, h⟩ := Option.bind_eq_some_iff.1 h
      obtain ⟨rfl, rfl⟩ := Prod.mk.inj (Option.some.inj h)
      obtain ⟨form, rfl, hform⟩ := hmembers hread
      exact ⟨'\x7b' :: (form ++ ['\x7d']), by simp, .object hform⟩
  · obtain ⟨word, hword, h⟩ := Option.bind_eq_some_iff.1 h
    obtain ⟨rfl, rfl⟩ := Prod.mk.inj (Option.some.inj h)
    exact ⟨text.takeWhile isWordChar, List.takeWhile_append_dropWhile.symm, denotes_of_wordValue? hword⟩

/-- The blanks around a value belong to what is passed over. -/
theorem passes_readSpaced (hvalue : Passes (readValue n) Denotes []) :
    Passes (readSpaced (n + 1)) DenotesSpaced [] := by
  intro text value rest h
  obtain ⟨before, htext, hbefore⟩ := exists_gap text
  obtain ⟨⟨inner, tail⟩, hread, h⟩ := Option.bind_eq_some_iff.1 h
  obtain ⟨rfl, rfl⟩ := Prod.mk.inj (Option.some.inj h)
  obtain ⟨form, hform, hdenotes⟩ := hvalue hread
  obtain ⟨after, htail, hafter⟩ := exists_gap tail
  refine ⟨before ++ (form ++ after), ?_, .spaced hbefore hdenotes hafter⟩
  rw [htext, hform, htail]
  simp [← htail]

/-- One step of the reader of items: the first item, then the bracket or a comma and the others. -/
theorem passes_readItems (hspaced : Passes (readSpaced n) DenotesSpaced [])
    (hitems : Passes (readItems n) DenotesItems [']']) : Passes (readItems (n + 1)) DenotesItems [']'] := by
  intro text items rest h
  obtain ⟨⟨value, tail⟩, hread, h⟩ := Option.bind_eq_some_iff.1 h
  obtain ⟨form, htext, hform⟩ := hspaced hread
  dsimp only at h
  rw [htext]
  split at h
  · rename_i others
    obtain ⟨⟨values, last⟩, hothers, h⟩ := Option.bind_eq_some_iff.1 h
    obtain ⟨rfl, rfl⟩ := Prod.mk.inj (Option.some.inj h)
    obtain ⟨forms, rfl, hforms⟩ := hitems hothers
    exact ⟨form ++ ',' :: forms, by simp, .more hform hforms⟩
  · obtain ⟨rfl, rfl⟩ := Prod.mk.inj (Option.some.inj h)
    exact ⟨form, rfl, .last hform⟩
  · cases h

/-- A member is passed over with the blanks around its key and its value. -/
theorem passes_readMember (hspaced : Passes (readSpaced n) DenotesSpaced []) :
    Passes (readMember (n + 1)) DenotesMember [] := by
  intro text member rest h
  obtain ⟨before, htext, hbefore⟩ := exists_gap text
  rw [readMember.eq_def] at h
  dsimp only at h
  split at h
  · rename_i inner hgap
    obtain ⟨⟨units, others⟩, hunits, h⟩ := Option.bind_eq_some_iff.1 h
    obtain ⟨body, hquoted, hbody⟩ := exists_denotesUnits hunits
    obtain ⟨after, hothers, hafter⟩ := exists_gap others
    dsimp only at h
    split at h
    · rename_i tail hcolon
      obtain ⟨⟨value, last⟩, hvalue, h⟩ := Option.bind_eq_some_iff.1 h
      obtain ⟨rfl, rfl⟩ := Prod.mk.inj (Option.some.inj h)
      obtain ⟨form, hform, hdenotes⟩ := hspaced hvalue
      refine ⟨before ++ '"' :: (body ++ '"' :: (after ++ ':' :: form)), ?_, .member hbefore hbody hafter hdenotes⟩
      rw [htext, hgap, hquoted, hothers, hcolon, hform]
      simp
    · cases h
  · cases h

/-- One step of the reader of members, which differs from that of items in its closing character
only. -/
theorem passes_readMembers (hmember : Passes (readMember n) DenotesMember [])
    (hmembers : Passes (readMembers n) DenotesMembers ['\x7d']) :
    Passes (readMembers (n + 1)) DenotesMembers ['\x7d'] := by
  intro text members rest h
  obtain ⟨⟨member, tail⟩, hread, h⟩ := Option.bind_eq_some_iff.1 h
  obtain ⟨form, htext, hform⟩ := hmember hread
  dsimp only at h
  rw [htext]
  split at h
  · rename_i others
    obtain ⟨⟨values, last⟩, hothers, h⟩ := Option.bind_eq_some_iff.1 h
    obtain ⟨rfl, rfl⟩ := Prod.mk.inj (Option.some.inj h)
    obtain ⟨forms, rfl, hforms⟩ := hmembers hothers
    exact ⟨form ++ ',' :: forms, by simp, .more hform hforms⟩
  · obtain ⟨rfl, rfl⟩ := Prod.mk.inj (Option.some.inj h)
    exact ⟨form, rfl, .last hform⟩
  · cases h

end

/-- Each reader passes over a text that denotes what it gives. -/
theorem passes_readers (n : Nat) :
    Passes (readValue n) Denotes [] ∧ Passes (readSpaced n) DenotesSpaced [] ∧
      Passes (readItems n) DenotesItems [']'] ∧ Passes (readMember n) DenotesMember [] ∧
      Passes (readMembers n) DenotesMembers ['\x7d'] := by
  induction n with
  | zero => exact ⟨nofun, nofun, nofun, nofun, nofun⟩
  | succ n ih =>
    obtain ⟨hvalue, hspaced, hitems, hmember, hmembers⟩ := ih
    exact ⟨passes_readValue hitems hmembers, passes_readSpaced hvalue, passes_readItems hspaced hitems,
      passes_readMember hspaced, passes_readMembers hmember hmembers⟩

/-- Skipping stops exactly where the blanks end. -/
theorem skipGap_append {gap : Text} (hgap : IsGap gap) (hrest : ∀ c ∈ rest.head?, isBlank c = false) :
    skipGap (gap ++ rest) = rest := by
  rw [skipGap, List.dropWhile_append_of_pos hgap]
  cases rest with
  | nil => rfl
  | cons c rest => exact List.dropWhile_cons_of_neg (Bool.eq_false_iff.1 (hrest c rfl))

/-- Skipping stops at the first character that is no blank. -/
theorem skipGap_append_cons {gap : Text} {c : Char} (hgap : IsGap gap) (hc : isBlank c = false) (rest : Text) :
    skipGap (gap ++ c :: rest) = c :: rest := by
  refine skipGap_append hgap fun other hother => ?_
  cases hother
  exact hc

/-- Where the skipping stops inside a text, a longer text changes nothing. -/
theorem skipGap_append_of_ne_nil (h : skipGap text ≠ []) (rest : Text) :
    skipGap (text ++ rest) = skipGap text ++ rest := by
  rw [skipGap, List.dropWhile_append, if_neg (by simpa only [List.isEmpty_iff, skipGap] using h)]
  rfl

/-- The characters with which values begin. -/
def beginsValue (c : Char) : Bool :=
  c == '"' || c == '[' || c == '\x7b' || isWordChar c

/-- The digits of every range are characters of words. -/
theorem isWordChar_of_digit {first last c : Char} (hfirst : '0' ≤ first) (hlast : last ≤ '9')
    (h : (decide (first ≤ c) && decide (c ≤ last)) = true) : isWordChar c = true := by
  obtain ⟨hge, hle⟩ := Bool.and_eq_true_iff.1 h
  have hzero : '0' ≤ c := Char.le_trans hfirst (of_decide_eq_true hge)
  have hnine : c ≤ '9' := Char.le_trans (of_decide_eq_true hle) hlast
  have hdigit : c.isDigit = true := Bool.and_eq_true_iff.2 ⟨decide_eq_true hzero, decide_eq_true hnine⟩
  simp [isWordChar, Char.isAlphanum, hdigit]

/-- A number consists of characters of words, so that the reader takes it as one word. -/
theorem within_numberForm : numberForm.Within isWordChar := by
  have hdigit : (Regex.range '0' '9').Within isWordChar := fun c hc => isWordChar_of_digit (by decide) (by decide) hc
  have hnonzero : (Regex.range '1' '9').Within isWordChar := fun c hc => isWordChar_of_digit (by decide) (by decide) hc
  have hsome : (Regex.some (Regex.range '0' '9')).Within isWordChar := ⟨hdigit, hdigit⟩
  have hsign : (Regex.oneOf ['-']).Within isWordChar := Regex.within_oneOf (by decide)
  have hzero : (Regex.exactly ['0']).Within isWordChar := Regex.within_exactly (by decide)
  have hfraction : (Regex.optional (.seq (.oneOf ['.']) (.some (.range '0' '9')))).Within isWordChar :=
    ⟨⟨Regex.within_oneOf (by decide), hsome⟩, trivial⟩
  have hexponent : (Regex.optional (.inOrder [.oneOf ['e', 'E'], .optional (.oneOf ['+', '-']),
      .some (.range '0' '9')])).Within isWordChar :=
    ⟨⟨Regex.within_oneOf (by decide), ⟨Regex.within_oneOf (by decide), trivial⟩, hsome, trivial⟩, trivial⟩
  exact ⟨⟨hsign, trivial⟩, ⟨hzero, hnonzero, hdigit⟩, hfraction, hexponent, trivial⟩

/-- A value is never empty, and its first character tells the reader that a value begins. -/
theorem exists_beginning (h : Denotes text value) : ∃ c tail, text = c :: tail ∧ beginsValue c = true := by
  cases h with
  | number h =>
    cases text with
    | nil => cases h
    | cons c tail =>
      have hword := Regex.holds_of_accepts within_numberForm h c List.mem_cons_self
      exact ⟨c, tail, rfl, by simp [beginsValue, hword]⟩
  | _ => exact ⟨_, _, rfl, rfl⟩

/-- No blank begins a value. -/
theorem isBlank_of_beginsValue {c : Char} (h : beginsValue c = true) : isBlank c = false := by
  refine Bool.eq_false_iff.2 fun hblank => ?_
  simp only [isBlank, Bool.or_eq_true, beq_iff_eq] at hblank
  rcases hblank with ((rfl | rfl) | rfl) | rfl <;> cases h

/-- A blank ends a word. -/
theorem isWordChar_of_isBlank {c : Char} (h : isBlank c = true) : isWordChar c = false := by
  simp only [isBlank, Bool.or_eq_true, beq_iff_eq] at h
  rcases h with ((rfl | rfl) | rfl) | rfl <;> rfl

/-- A value with blanks around it is read whenever the value alone is read before every character
that ends a word. -/
theorem readSpaced_around {n : Nat} {before form after : Text} (hbefore : IsGap before) (hafter : IsGap after)
    (hform : Denotes form value)
    (hread : ∀ rest : Text, (∀ c ∈ rest.head?, isWordChar c = false) → readValue n (form ++ rest) = some (value, rest))
    (hrest : ∀ c ∈ rest.head?, isBlank c = false ∧ isWordChar c = false) :
    readSpaced (n + 1) (before ++ (form ++ after) ++ rest) = some (value, rest) := by
  obtain ⟨c, tail, rfl, hbegins⟩ := exists_beginning hform
  have hskip : skipGap (before ++ ((c :: tail) ++ after) ++ rest) = (c :: tail) ++ (after ++ rest) := by
    rw [List.append_assoc, List.append_assoc]
    exact skipGap_append_cons hbefore (isBlank_of_beginsValue hbegins) _
  have hword : ∀ c ∈ (after ++ rest).head?, isWordChar c = false := by
    cases after with
    | nil => exact fun c hc => (hrest c hc).2
    | cons blank after =>
      rintro _ ⟨⟩
      exact isWordChar_of_isBlank (hafter _ List.mem_cons_self)
  rw [readSpaced, hskip, hread _ hword]
  simp only [Option.bind_eq_bind, Option.bind_some, Option.pure_def]
  rw [skipGap_append hafter fun c hc => (hrest c hc).1]

/-- Behind its blanks, a spaced value begins as a value does. -/
theorem exists_first_of_spaced (h : DenotesSpaced text value) :
    ∃ c tail, skipGap text = c :: tail ∧ beginsValue c = true := by
  obtain ⟨hbefore, hform, hafter⟩ := h
  rename_i before form after
  obtain ⟨c, tail, rfl, hbegins⟩ := exists_beginning hform
  exact ⟨c, tail ++ after, skipGap_append_cons hbefore (isBlank_of_beginsValue hbegins) _, hbegins⟩

/-- Behind its blanks, a list of items begins as a value does, so that it is not taken for an empty
array. -/
theorem exists_first_of_items {items : List Value} (h : DenotesItems text items) :
    ∃ c tail, skipGap text = c :: tail ∧ beginsValue c = true := by
  cases h with
  | last h => exact exists_first_of_spaced h
  | @more _ texts _ _ h hrest =>
    obtain ⟨c, tail, hskip, hbegins⟩ := exists_first_of_spaced h
    refine ⟨c, tail ++ ',' :: texts, ?_, hbegins⟩
    rw [skipGap_append_of_ne_nil (by simp [hskip]), hskip]
    rfl

/-- A member begins with the quote of its key. -/
theorem skipGap_member {member : List Nat × Value} (h : DenotesMember text member) :
    ∃ tail, skipGap text = '"' :: tail := by
  obtain ⟨hbefore, _, _, _⟩ := h
  exact ⟨_, skipGap_append_cons hbefore rfl _⟩

/-- A list of members begins with a quote, so that it is not taken for an empty object. -/
theorem skipGap_members {members : List (List Nat × Value)} (h : DenotesMembers text members) :
    ∃ tail, skipGap text = '"' :: tail := by
  cases h with
  | last h => exact skipGap_member h
  | @more _ texts _ _ h hrest =>
    obtain ⟨tail, hskip⟩ := skipGap_member h
    refine ⟨tail ++ ',' :: texts, ?_⟩
    rw [skipGap_append_of_ne_nil (by simp [hskip]), hskip]
    rfl

/-- A word that has a value is read as a whole where no character of a word follows it. -/
theorem readValue_word {word : Text} (n : Nat) (hne : word ≠ []) (hword : ∀ c ∈ word, isWordChar c = true)
    (hvalue : wordValue? word = some value) (hrest : ∀ c ∈ rest.head?, isWordChar c = false) :
    readValue (n + 1) (word ++ rest) = some (value, rest) := by
  have htake : (word ++ rest).takeWhile isWordChar = word := by
    rw [List.takeWhile_append_of_pos hword]
    cases rest with
    | nil => simp
    | cons c rest => simp [hrest c rfl]
  have hdrop : (word ++ rest).dropWhile isWordChar = rest := by
    rw [List.dropWhile_append_of_pos hword]
    cases rest with
    | nil => rfl
    | cons c rest => simp [hrest c rfl]
  obtain ⟨c, tail, rfl⟩ := List.exists_cons_of_ne_nil hne
  have hc := hword c List.mem_cons_self
  have hopening : ∀ opening, isWordChar opening = false → ∀ others, c :: tail ++ rest = opening :: others → False := by
    rintro _ hopening _ ⟨⟩
    cases hc.symm.trans hopening
  rw [readValue, htake, hvalue, hdrop]
  · rfl
  · exact hopening '"' rfl
  · exact hopening '[' rfl
  · exact hopening '\x7b' rfl

/-- The value of the literal name null. -/
theorem wordValue?_null : wordValue? "null".toList = some .null :=
  if_pos rfl

/-- The value of the literal name true. -/
theorem wordValue?_true : wordValue? "true".toList = some (.boolean true) := by
  rw [wordValue?, if_neg (by decide), if_pos rfl]

/-- The value of the literal name false. -/
theorem wordValue?_false : wordValue? "false".toList = some (.boolean false) := by
  rw [wordValue?, if_neg (by decide), if_neg (by decide), if_pos rfl]

/-- A number is none of the literal names, and its value keeps its digits. -/
theorem wordValue?_number {digits : Text} (h : numberForm.accepts digits = true) :
    wordValue? digits = some (.number digits) := by
  have hne : ∀ name : Text, numberForm.accepts name = false → digits ≠ name := by
    rintro name hname rfl
    cases h.symm.trans hname
  rw [wordValue?, if_neg (hne _ (by decide)), if_neg (hne _ (by decide)), if_neg (hne _ (by decide)), if_pos h]

/-- A number is read as a whole where no character of a word follows it. -/
theorem readValue_number {digits : Text} (n : Nat) (h : numberForm.accepts digits = true)
    (hrest : ∀ c ∈ rest.head?, isWordChar c = false) :
    readValue (n + 1) (digits ++ rest) = some (.number digits, rest) := by
  have hne : digits ≠ [] := by
    rintro rfl
    cases h
  exact readValue_word n hne (Regex.holds_of_accepts within_numberForm h) (wordValue?_number h) hrest

mutual

/-- A text that denotes a value is read at the beginning of any longer text that does not go on with
a character of a word. The five readers call each other, so that this and the four theorems below
are proved together, by recursion on the grammar; each character of the text pays for four calls. -/
theorem readValue_append {text : Text} {value : Value} (h : Denotes text value) (rest : Text)
    (hrest : ∀ c ∈ rest.head?, isWordChar c = false) :
    ∀ n, 4 * text.length ≤ n + 1 → readValue (n + 1) (text ++ rest) = some (value, rest) :=
  match h with
  | .null => fun n _ => readValue_word n (by decide) (List.all_eq_true.1 rfl) wordValue?_null hrest
  | .yes => fun n _ => readValue_word n (by decide) (List.all_eq_true.1 rfl) wordValue?_true hrest
  | .no => fun n _ => readValue_word n (by decide) (List.all_eq_true.1 rfl) wordValue?_false hrest
  | .number h => fun n _ => readValue_number n h hrest
  | .string h => fun n _ => by
    rw [List.cons_append, List.append_assoc, List.singleton_append, readValue, readUnits_append h]
    rfl
  | @Denotes.emptyArray gap h => fun n _ => by
    have hskip : skipGap (gap ++ ']' :: rest) = ']' :: rest := skipGap_append_cons h rfl rest
    rw [List.cons_append, List.append_assoc, List.singleton_append, readValue, hskip]
    rfl
  | @Denotes.array form _ h => fun n hn => by
    rw [List.length_cons, List.length_append, List.length_singleton] at hn
    have hread := readItems_append h rest n (by omega)
    obtain ⟨c, tail, hskip, hbegins⟩ := exists_first_of_items h
    have hne : c ≠ ']' := by
      rintro rfl
      cases hbegins
    rw [List.cons_append, List.append_assoc, List.singleton_append, readValue,
      skipGap_append_of_ne_nil (by simp [hskip]), hskip]
    simp [hne, hread]
  | @Denotes.emptyObject gap h => fun n _ => by
    have hskip : skipGap (gap ++ '\x7d' :: rest) = '\x7d' :: rest := skipGap_append_cons h rfl rest
    rw [List.cons_append, List.append_assoc, List.singleton_append, readValue, hskip]
    rfl
  | @Denotes.object form _ h => fun n hn => by
    rw [List.length_cons, List.length_append, List.length_singleton] at hn
    have hread := readMembers_append h rest n (by omega)
    obtain ⟨tail, hskip⟩ := skipGap_members h
    rw [List.cons_append, List.append_assoc, List.singleton_append, readValue,
      skipGap_append_of_ne_nil (by simp [hskip]), hskip]
    simp [hread]

/-- A spaced value is read at the beginning of any text that goes on with neither a blank nor a
character of a word. -/
theorem readSpaced_append {text : Text} {value : Value} (h : DenotesSpaced text value) (rest : Text)
    (hrest : ∀ c ∈ rest.head?, isBlank c = false ∧ isWordChar c = false) :
    ∀ n, 4 * text.length + 1 ≤ n → readSpaced n (text ++ rest) = some (value, rest) :=
  match h with
  | @DenotesSpaced.spaced before form after _ hbefore hform hafter => fun n hn => by
    have hne : 0 < form.length := by
      obtain ⟨c, tail, rfl, -⟩ := exists_beginning hform
      exact Nat.succ_pos _
    rw [List.length_append, List.length_append] at hn
    obtain ⟨m, rfl⟩ : ∃ m, n = m + 1 + 1 := ⟨n - 2, by omega⟩
    exact readSpaced_around hbefore hafter hform
      (fun rest hrest => readValue_append hform rest hrest m (by omega)) hrest

/-- The items of an array are read up to the bracket behind them. -/
theorem readItems_append {text : Text} {items : List Value} (h : DenotesItems text items) (rest : Text) :
    ∀ n, 4 * text.length + 2 ≤ n → readItems n (text ++ ']' :: rest) = some (items, rest) :=
  match h with
  | .last h => fun n hn => by
    obtain ⟨m, rfl⟩ : ∃ m, n = m + 1 := ⟨n - 1, by omega⟩
    rw [readItems, readSpaced_append h _ (by rintro _ ⟨⟩; exact ⟨rfl, rfl⟩) m (by omega)]
    rfl
  | @DenotesItems.more form forms _ _ h hrest => fun n hn => by
    rw [List.length_append, List.length_cons] at hn
    obtain ⟨m, rfl⟩ : ∃ m, n = m + 1 := ⟨n - 1, by omega⟩
    have hread := readItems_append hrest rest m (by omega)
    rw [List.append_assoc, readItems, List.cons_append,
      readSpaced_append h _ (by rintro _ ⟨⟩; exact ⟨rfl, rfl⟩) m (by omega)]
    simp [hread]

/-- A member is read at the beginning of any text that goes on with neither a blank nor a character
of a word. -/
theorem readMember_append {text : Text} {member : List Nat × Value} (h : DenotesMember text member) (rest : Text)
    (hrest : ∀ c ∈ rest.head?, isBlank c = false ∧ isWordChar c = false) :
    ∀ n, 4 * text.length + 2 ≤ n → readMember n (text ++ rest) = some (member, rest) :=
  match h with
  | @DenotesMember.member before body after form units value hbefore hkey hafter h => fun n hn => by
    have hlength : form.length ≤ (before ++ '"' :: (body ++ '"' :: (after ++ ':' :: form))).length := by
      simp only [List.length_append, List.length_cons]
      omega
    obtain ⟨m, rfl⟩ : ∃ m, n = m + 1 := ⟨n - 1, by omega⟩
    have hread := readSpaced_append h rest hrest m (by omega)
    have hquote : skipGap (before ++ '"' :: (body ++ '"' :: (after ++ ':' :: form)) ++ rest) =
        '"' :: (body ++ '"' :: (after ++ ':' :: (form ++ rest))) := by
      rw [List.append_assoc, List.cons_append, skipGap_append_cons hbefore rfl]
      simp
    have hcolon : skipGap (after ++ ':' :: (form ++ rest)) = ':' :: (form ++ rest) :=
      skipGap_append_cons hafter rfl _
    rw [readMember, hquote]
    simp [readUnits_append hkey, hcolon, hread]

/-- The members of an object are read up to the brace behind them. -/
theorem readMembers_append {text : Text} {members : List (List Nat × Value)} (h : DenotesMembers text members)
    (rest : Text) : ∀ n, 4 * text.length + 3 ≤ n → readMembers n (text ++ '\x7d' :: rest) = some (members, rest) :=
  match h with
  | .last h => fun n hn => by
    obtain ⟨m, rfl⟩ : ∃ m, n = m + 1 := ⟨n - 1, by omega⟩
    rw [readMembers, readMember_append h _ (by rintro _ ⟨⟩; exact ⟨rfl, rfl⟩) m (by omega)]
    rfl
  | @DenotesMembers.more form forms _ _ h hrest => fun n hn => by
    rw [List.length_append, List.length_cons] at hn
    obtain ⟨m, rfl⟩ : ∃ m, n = m + 1 := ⟨n - 1, by omega⟩
    have hread := readMembers_append hrest rest m (by omega)
    rw [List.append_assoc, readMembers, List.cons_append,
      readMember_append h _ (by rintro _ ⟨⟩; exact ⟨rfl, rfl⟩) m (by omega)]
    simp [hread]

end

/-- The reader gives a text exactly the value that the text denotes. -/
theorem read_eq_some_iff : read text = some value ↔ DenotesSpaced text value := by
  constructor
  · intro h
    obtain ⟨⟨other, rest⟩, hread, h⟩ := Option.bind_eq_some_iff.1 h
    obtain ⟨form, htext, hform⟩ := (passes_readers _).2.1 hread
    dsimp only at h
    split at h
    · rename_i hnil
      cases h
      rwa [htext, hnil, List.append_nil, List.append_nil]
    · cases h
  · intro h
    have hread := readSpaced_append h [] (by rintro _ ⟨⟩) _ (Nat.le_refl _)
    rw [List.append_nil] at hread
    rw [read, hread]
    rfl

end Json

end DirectiveIndex
