import DirectiveIndex.Proofs.Reports
import DirectiveIndex.Proofs.Semicolons

namespace DirectiveIndex

/-- The ways to pull from a scanner. -/
inductive Pull where
  | next
  | record
  | recordOrSemicolon
deriving DecidableEq, Repr

namespace Scanner

/-- What a pull returns, and the scanner behind it. -/
def pull (scanner : Scanner) : Pull → Option Record × Scanner
  | .next => (scanner.next.1.map .directive, scanner.next.2)
  | .record => scanner.record
  | .recordOrSemicolon => scanner.recordOrSemicolon

/-- The directive that a pull returns, if it returns one. -/
def pullDirective? (scanner : Scanner) (pull : Pull) : Option Directive :=
  (scanner.pull pull).1.bind Record.directive?

/-- The scanner behind a sequence of pulls. -/
def pullAll (scanner : Scanner) : List Pull → Scanner
  | [] => scanner
  | pull :: pulls => (scanner.pull pull).2.pullAll pulls

/-- The directives that a sequence of pulls returns, in the order in which they are returned. -/
def pulled (scanner : Scanner) : List Pull → List Directive
  | [] => []
  | pull :: pulls => (scanner.pullDirective? pull).toList ++ (scanner.pull pull).2.pulled pulls

/-- Whether a pull returns a directive although others that come before it are pending. -/
def Overtakes (scanner : Scanner) (pull : Pull) : Prop :=
  pull ≠ .next ∧ scanner.pending ≠ [] ∧ scanner.pullDirective? pull ≠ none

/-- A scanner with nothing pending stops only at the end of its source. -/
theorem nextRead_eq_none {scanner after : Scanner} (hpending : scanner.pending = [])
    (h : scanner.nextRead = (none, after)) : after.pending = [] ∧ after.cursor.rest = [] := by
  fun_induction nextRead scanner with
  | case1 scanner after' hpulled =>
    simp only [record, Prod.mk.injEq] at hpulled h
    obtain ⟨hnone, rfl⟩ := hpulled
    obtain rfl := h.2
    obtain ⟨hfollowers, hrest⟩ := Cursor.readRecord_without_directive (by rw [hnone]; rfl)
    exact ⟨by simp [resume, hfollowers, hpending], hrest hnone⟩
  | case2 scanner d after' hpulled => cases h
  | case3 scanner r after' hother hpulled ih =>
    simp only [record, Prod.mk.injEq] at hpulled
    obtain ⟨hsome, rfl⟩ := hpulled
    have hnone : scanner.cursor.readRecord.record?.bind Record.directive? = none := by
      rw [hsome]
      cases r with
      | directive d => exact absurd rfl (hother d)
      | _ => rfl
    refine ih ?_ h
    rw [resume, (Cursor.readRecord_without_directive hnone).1, hpending]
    rfl

/-- What `next` takes away is the first of the directives that a scanner has left. -/
theorem directives_pull_next (scanner : Scanner) :
    scanner.directives = (scanner.pullDirective? .next).toList ++ (scanner.pull .next).2.directives := by
  have hpull : scanner.pullDirective? .next = scanner.next.1 := by
    rw [pullDirective?, pull]
    cases scanner.next.1 <;> rfl
  rw [hpull, pull, directives, next]
  cases hpending : scanner.pending with
  | cons d rest => rfl
  | nil =>
    cases hread : scanner.nextRead with
    | mk d? after =>
      cases d? with
      | some d => rfl
      | none =>
        obtain ⟨hafter, hrest⟩ := nextRead_eq_none hpending hread
        simp only [directives_eq, hafter, Pass.runFrom_top_of_rest_nil hrest]
        rfl

/-- A record that is pulled takes away a directive only if it is one, and that is the first one that is not pending. -/
theorem directives_pull_record (scanner : Scanner) {pull : Pull} (hpull : pull ≠ .next) :
    ∃ followers ahead,
      scanner.directives = scanner.pending ++ (scanner.pullDirective? pull).toList ++ followers ++ ahead ∧
      (scanner.pull pull).2.directives = followers ++ scanner.pending ++ ahead ∧
      (scanner.pullDirective? pull = none → followers = []) := by
  have hresume (reading : Reading)
      (hrun : Pass.runFrom .initial scanner.cursor = (reading.record?.bind Record.directive?).toList ++
        reading.followers ++ Pass.runFrom .initial reading.after)
      (hfollowers : reading.record?.bind Record.directive? = none → reading.followers = []) :
      ∃ followers ahead,
        scanner.directives = scanner.pending ++ (reading.record?.bind Record.directive?).toList ++ followers ++ ahead ∧
        (scanner.resume reading).directives = followers ++ scanner.pending ++ ahead ∧
        (reading.record?.bind Record.directive? = none → followers = []) := by
    refine ⟨reading.followers, Pass.runFrom .initial reading.after, ?_, directives_eq _, hfollowers⟩
    rw [directives_eq, hrun, List.append_assoc, List.append_assoc, List.append_assoc]
  cases pull with
  | next => exact absurd rfl hpull
  | record =>
    exact hresume _ (Cursor.runFrom_readRecord _) fun hnone => (Cursor.readRecord_without_directive hnone).1
  | recordOrSemicolon =>
    exact hresume _ (Cursor.runFrom_readRecordOrSemicolon _) fun hnone =>
      (Cursor.readRecordOrSemicolon_without_directive hnone).1

/-- A pull takes away at most the directive that it returns. -/
theorem perm_pull (scanner : Scanner) (pull : Pull) :
    ((scanner.pullDirective? pull).toList ++ (scanner.pull pull).2.directives).Perm scanner.directives := by
  by_cases hpull : pull = .next
  · rw [hpull, ← directives_pull_next]
  · obtain ⟨followers, ahead, hbefore, hafter, -⟩ := directives_pull_record scanner hpull
    rw [hbefore, hafter]
    refine List.perm_iff_count.2 fun d => ?_
    simp only [List.count_append]
    omega

/-- A pull that does not overtake takes away the first directive, if it returns one. -/
theorem directives_pull {scanner : Scanner} {pull : Pull} (h : ¬ scanner.Overtakes pull) :
    scanner.directives = (scanner.pullDirective? pull).toList ++ (scanner.pull pull).2.directives := by
  by_cases hpull : pull = .next
  · exact hpull ▸ directives_pull_next scanner
  · obtain ⟨followers, ahead, hbefore, hafter, hnone⟩ := directives_pull_record scanner hpull
    rw [hbefore, hafter]
    cases hdirective : scanner.pullDirective? pull with
    | none => simp [hnone hdirective]
    | some d =>
      have hpending : scanner.pending = [] :=
        Decidable.not_not.1 fun hpending => h ⟨hpull, hpending, by simp [hdirective]⟩
      simp [hpending]

/-- A directive that overtakes another one does not come first. -/
theorem pullDirective?_of_overtakes {scanner : Scanner} {pull : Pull} (h : scanner.Overtakes pull) :
    ∃ d first others,
      scanner.pullDirective? pull = some d ∧ scanner.directives = first :: others ∧ d ∈ others := by
  obtain ⟨hpull, hpending, hsome⟩ := h
  obtain ⟨followers, ahead, hbefore, -, -⟩ := directives_pull_record scanner hpull
  obtain ⟨d, hd⟩ := Option.ne_none_iff_exists'.1 hsome
  obtain ⟨first, pending, hfirst⟩ := List.exists_cons_of_ne_nil hpending
  refine ⟨d, first, pending ++ d :: (followers ++ ahead), hd, ?_, by simp⟩
  rw [hbefore, hfirst, hd]
  simp

theorem perm_pulled (scanner : Scanner) (pulls : List Pull) :
    (scanner.pulled pulls ++ (scanner.pullAll pulls).directives).Perm scanner.directives := by
  induction pulls generalizing scanner with
  | nil => exact List.Perm.refl _
  | cons pull pulls ih =>
    rw [pulled, pullAll, List.append_assoc]
    exact ((ih (scanner.pull pull).2).append_left _).trans (perm_pull scanner pull)

/-- From a scanner whose directives come in source order, they are pulled in that order if and only if none of the
    pulls overtakes. -/
theorem pulled_eq_directives_iff {scanner : Scanner}
    (hordered : scanner.directives.Pairwise fun d e => d.span.start < e.span.start) (pulls : List Pull) :
    scanner.pulled pulls ++ (scanner.pullAll pulls).directives = scanner.directives ↔
      ∀ before pull after, pulls = before ++ pull :: after → ¬ (scanner.pullAll before).Overtakes pull := by
  induction pulls generalizing scanner with
  | nil => simp [pulled, pullAll]
  | cons pull pulls ih =>
    rw [pulled, pullAll, List.append_assoc]
    by_cases hovertakes : scanner.Overtakes pull
    · obtain ⟨d, first, others, hd, hdirectives, hmem⟩ := pullDirective?_of_overtakes hovertakes
      rw [hdirectives] at hordered ⊢
      have hlt := (List.pairwise_cons.1 hordered).1 d hmem
      refine ⟨fun heq => ?_, fun hnone => absurd hovertakes (hnone [] pull pulls rfl)⟩
      rw [hd] at heq
      obtain rfl : d = first := (List.cons.inj heq).1
      exact absurd hlt (Nat.lt_irrefl _)
    · have hsplit := directives_pull hovertakes
      have htail : (scanner.pull pull).2.directives.Pairwise fun d e => d.span.start < e.span.start := by
        rw [hsplit] at hordered
        exact (List.pairwise_append.1 hordered).2.1
      rw [hsplit, List.append_cancel_left_eq, ih htail]
      refine ⟨fun hlater before other after heq => ?_, fun hall before other after heq => ?_⟩
      · cases before with
        | nil =>
          obtain ⟨rfl, rfl⟩ := List.cons.inj heq
          exact hovertakes
        | cons _ before =>
          obtain ⟨rfl, rfl⟩ := List.cons.inj heq
          exact hlater before other after rfl
      · exact hall (pull :: before) other after (by rw [heq]; rfl)

end Scanner

/-- However records are pulled from a scanner before the rest of its directives is iterated, every directive of the
    source is returned exactly once. They are returned in source order if and only if no record is pulled that is a
    directive while another directive is pending. -/
theorem pulled_source_order (source : Text) (pulls : List Pull) :
    let scanner := Scanner.ofText source
    let returned := scanner.pulled pulls ++ (scanner.pullAll pulls).directives
    returned.Perm (scan source) ∧
      (returned = scan source ↔
        ∀ before pull after, pulls = before ++ pull :: after → ¬ (scanner.pullAll before).Overtakes pull) :=
  ⟨Scanner.perm_pulled _ pulls, Scanner.pulled_eq_directives_iff (pairwise_scan source) pulls⟩

/-- An import that is pulled as a record while the one that cut the pragma before it is pending. -/
theorem pulled_import_overtakes :
    let source := "pragma a import'b';import'c';".toList
    let scanner := Scanner.ofText source
    scanner.pulled [.next, .record] ++ (scanner.pullAll [.next, .record]).directives ≠ scan source := by
  intro source scanner
  let place := scanner.cursor
  have hname : (place.skip 6).advance? nameMarks = some (⟨.name, 7, 8⟩, place.skip 8) := rfl
  have hcutter : (place.skip 8).advance? statementMarks =
      some (⟨.opener (.keyword .importWord), 9, 15⟩, place.skip 15) := rfl
  have hpath : (place.skip 15).advance? openers = some (⟨.quote .single, 15, 16⟩, place.skip 16) := rfl
  have hpragma : scanner.record =
      (some (.directive (.pragma ['a'] [' '] ⟨0, 9⟩)), ⟨place.skip 18, [.imported ['b'] ⟨9, 18⟩]⟩) := by
    have hread : place.readRecord = (place.skip 6).readOpened (.keyword .pragmaWord) 0 := rfl
    rw [Scanner.record, hread, Cursor.readOpened, readClause, readPragma_name hname, readValue_keyword hcutter,
      readClause, readImport_quote hpath]
    rfl
  have hnext : (scanner.pull .next).2 = ⟨place.skip 18, [.imported ['b'] ⟨9, 18⟩]⟩ := by
    have hnothing : scanner.pull .next = (scanner.nextRead.1.map .directive, scanner.nextRead.2) := rfl
    rw [hnothing, Scanner.nextRead]
    split <;> simp_all
  have himport : (scanner.pull .next).2.pullDirective? .record = some (.imported ['c'] ⟨19, 28⟩) := by
    have hread : (place.skip 18).readRecord = (place.skip 25).readOpened (.keyword .importWord) 19 := rfl
    have hother : (place.skip 25).advance? openers = some (⟨.quote .single, 25, 26⟩, place.skip 26) := rfl
    rw [hnext, Scanner.pullDirective?, Scanner.pull, Scanner.record, hread, Cursor.readOpened, readClause,
      readImport_quote hother]
    rfl
  have hovertakes : (scanner.pull .next).2.Overtakes .record := by
    refine ⟨Pull.noConfusion, ?_, ?_⟩
    · rw [hnext]
      exact List.cons_ne_nil _ _
    · rw [himport]
      exact Option.some_ne_none _
  exact fun heq => (Scanner.pulled_eq_directives_iff (pairwise_scan source) _).1 heq [.next] .record [] rfl hovertakes

end DirectiveIndex
