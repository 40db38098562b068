import DirectiveIndex.Discovery
import DirectiveIndex.Proofs.Orders
import DirectiveIndex.Proofs.Outcomes

namespace DirectiveIndex

/-- What lies below a directory that is too deep is too deep. -/
theorem Selection.isTooDeep_add {selection : Selection} {depth : Nat} (h : selection.isTooDeep depth = true)
    (more : Nat) : selection.isTooDeep (depth + more) = true := by
  unfold isTooDeep at h ⊢
  cases hgreatest : selection.maxDepth with
  | none =>
    rw [hgreatest] at h
    cases h
  | some greatest =>
    rw [hgreatest] at h
    simp only [Option.any_some, decide_eq_true_eq] at h ⊢
    omega

namespace FileSystem

variable {fs : FileSystem} {selection : Selection} {path : Path} {place next last : Place} {depth : Nat} {name : Text}
  {names : List Text}

/-- Whether a walk goes from a directory into another one, under the given name. -/
structure GoesDown (fs : FileSystem) (selection : Selection) (place : Place) (name : Text) (next : Place) : Prop where
  search : fs.search place.location = .ok ()
  mem : name ∈ fs.namesIn place.location
  enter : fs.enter place name = .ok next
  isDirectory : (fs.node? next.location).any Node.isDirectory = true
  excludes : selection.excludes name = false

/-- Whether a walk comes from a directory to another one, under the given names. -/
inductive Descends (fs : FileSystem) (selection : Selection) : Place → List Text → Place → Prop where
  | here (place : Place) : Descends fs selection place [] place
  | down {place next last : Place} {name : Text} {names : List Text} (hstep : fs.GoesDown selection place name next)
      (hrest : Descends fs selection next names last) : Descends fs selection place (name :: names) last

/-- What holds of a directory if it holds of all those below it holds of every directory. -/
theorem descent_induction (fs : FileSystem) {motive : Place → Prop}
    (step : ∀ place, (∀ name next node, fs.enter place name = .ok next → fs.node? next.location = some node →
      motive next) → motive place) (place : Place) : motive place :=
  step place fun _ next _ _entered _found => descent_induction fs step next
termination_by (place.linksLeft, fs.height - place.location.length)
decreasing_by
  rcases enter_measure_lt _entered _found with h | ⟨heq, h⟩
  · exact Prod.Lex.left _ _ h
  · exact heq ▸ Prod.Lex.right _ h

/-- The files looked for under one name of a directory. -/
def sourcesAt (fs : FileSystem) (selection : Selection) (path : Path) (place : Place) (depth : Nat) (name : Text) :
    Except AccessError (List Path) :=
  match fs.enter place name with
  | .error cause => if cause = .denied then .error (.refused .denied (path.child name)) else .ok []
  | .ok next =>
    match fs.node? next.location with
    | none => .ok []
    | some node =>
      if node.isDirectory then
        if selection.excludes name then .ok [] else fs.sourcesBelow selection (path.child name) next (depth + 1)
      else if selection.wants (path.child name) then
        .ok [path.child name]
      else
        .ok []

/-- The files found among some names are those found under each of them. -/
theorem sourcesAmong_eq (names : List Text) :
    fs.sourcesAmong selection path place depth names =
      (names.mapM (fs.sourcesAt selection path place depth)).map List.flatten := by
  induction names with
  | nil => rw [sourcesAmong]; rfl
  | cons name names ih =>
    rw [sourcesAmong, List.mapM_cons, ih]
    generalize names.mapM (fs.sourcesAt selection path place depth) = others
    unfold sourcesAt
    split
    · rename_i henter
      rw [henter]
      rfl
    · rename_i cause hdenied henter
      rw [henter]
      dsimp only
      rw [if_neg hdenied]
      cases others <;> rfl
    · rename_i next henter
      rw [henter]
      dsimp only
      split
      · rename_i hnode
        rw [hnode]
        cases others <;> rfl
      · rename_i node hnode
        rw [hnode]
        dsimp only
        split
        · split
          · cases others <;> rfl
          · cases fs.sourcesBelow selection (path.child name) next (depth + 1) <;> cases others <;> rfl
        · split <;> cases others <;> rfl

/-- Below the limit nothing is listed. -/
theorem sourcesBelow_of_isTooDeep (hdepth : selection.isTooDeep depth = true) :
    fs.sourcesBelow selection path place depth = .ok [] := by
  rw [sourcesBelow, if_pos hdepth]

/-- Nothing is found in a directory that is closed as a whole. -/
theorem sourcesBelow_of_closed (hsearch : fs.search place.location = .error .denied) :
    fs.sourcesBelow selection path place depth = .ok [] := by
  rw [sourcesBelow, hsearch]
  split <;> rfl

/-- A directory that cannot be searched for another reason than being denied ends the walk. -/
theorem sourcesBelow_of_failure {cause : Cause} (hdepth : selection.isTooDeep depth = false)
    (hsearch : fs.search place.location = .error cause) (hcause : cause ≠ .denied) :
    fs.sourcesBelow selection path place depth = .error (.refused cause path) := by
  rw [sourcesBelow, if_neg (by simp [hdepth]), hsearch]
  split
  · rename_i heq
    exact absurd (Except.error.inj heq) hcause
  · rename_i heq
    rw [Except.error.inj heq]
  · rename_i heq
    cases heq

/-- A directory that can be searched is gone through in the order of its names. -/
theorem sourcesBelow_of_open (hdepth : selection.isTooDeep depth = false)
    (hsearch : fs.search place.location = .ok ()) :
    fs.sourcesBelow selection path place depth =
      ((Text.sort (fs.namesIn place.location)).mapM (fs.sourcesAt selection path place depth)).map List.flatten := by
  rw [sourcesBelow, if_neg (by simp [hdepth]), hsearch]
  exact sourcesAmong_eq _

/-- A name is gone through if it is not denied and, where it leads down, so is what lies below. -/
theorem exists_sourcesAt_iff :
    (∃ files, fs.sourcesAt selection path place depth name = .ok files) ↔
      fs.enter place name ≠ .error .denied ∧
        ∀ next, fs.enter place name = .ok next → (fs.node? next.location).any Node.isDirectory = true →
          selection.excludes name = false →
            ∃ files, fs.sourcesBelow selection (path.child name) next (depth + 1) = .ok files := by
  unfold sourcesAt
  cases henter : fs.enter place name with
  | error cause =>
    by_cases hdenied : cause = .denied
    · simp [hdenied]
    · simp [hdenied]
  | ok next =>
    cases hnode : fs.node? next.location with
    | none => simp [hnode]
    | some node =>
      by_cases hdirectory : node.isDirectory = true
      · by_cases hexcluded : selection.excludes name = true
        · simp [hnode, hdirectory, hexcluded]
        · simp [hnode, hdirectory, hexcluded]
      · by_cases hwanted : selection.wants (path.child name) = true
        · simp [hnode, hdirectory, hwanted]
        · simp [hnode, hdirectory, hwanted]

/-- Whether a walk that has come to a directory gets through it: the directory is closed as a whole, or it is open and
holds no link that leads through a closed one. -/
def IsPassable (fs : FileSystem) (place : Place) : Prop :=
  fs.search place.location = .error .denied ∨
    fs.search place.location = .ok () ∧ ∀ name ∈ fs.namesIn place.location, fs.enter place name ≠ .error .denied

/-- Whether a walk gets through every directory that it comes to without going too deep. -/
def IsWalkable (fs : FileSystem) (selection : Selection) (place : Place) (depth : Nat) : Prop :=
  ∀ names last, fs.Descends selection place names last → selection.isTooDeep (depth + names.length) = false →
    fs.IsPassable last

/-- Below the limit nothing stops the walk. -/
theorem isWalkable_of_isTooDeep (h : selection.isTooDeep depth = true) : fs.IsWalkable selection place depth := by
  intro names last _ hdepth
  rw [Selection.isTooDeep_add h] at hdepth
  cases hdepth

/-- A walk gets through a directory and what is below it if it gets through the directory itself and then from each of
those into which it goes down. -/
theorem isWalkable_iff (hdepth : selection.isTooDeep depth = false) :
    fs.IsWalkable selection place depth ↔ fs.IsPassable place ∧
      ∀ name next, fs.GoesDown selection place name next → fs.IsWalkable selection next (depth + 1) := by
  constructor
  · intro h
    refine ⟨h [] place (.here place) hdepth, fun name next hstep names last hrest hlast => ?_⟩
    apply h (name :: names) last (.down hstep hrest)
    rwa [List.length_cons, ← Nat.add_assoc, Nat.add_right_comm]
  · rintro ⟨hhere, hbelow⟩ names last hdescends hlast
    cases hdescends with
    | here => exact hhere
    | down hstep hrest =>
      apply hbelow _ _ hstep _ _ hrest
      rwa [List.length_cons, ← Nat.add_assoc, Nat.add_right_comm] at hlast

/-- A walk finds its files if and only if it gets through everything it comes to. -/
theorem exists_sourcesBelow_iff (place : Place) :
    (∃ files, fs.sourcesBelow selection path place depth = .ok files) ↔ fs.IsWalkable selection place depth := by
  induction place using descent_induction fs generalizing path depth with
  | step place ih =>
    cases hdepth : selection.isTooDeep depth with
    | true => exact ⟨fun _ => isWalkable_of_isTooDeep hdepth, fun _ => ⟨[], sourcesBelow_of_isTooDeep hdepth⟩⟩
    | false =>
      rw [isWalkable_iff hdepth]
      cases hsearch : fs.search place.location with
      | error cause =>
        by_cases hdenied : cause = .denied
        · rw [hdenied] at hsearch
          refine ⟨fun _ => ⟨.inl hsearch, fun name next hstep => ?_⟩, fun _ => ⟨[], sourcesBelow_of_closed hsearch⟩⟩
          cases hsearch.symm.trans hstep.search
        · rw [sourcesBelow_of_failure hdepth hsearch hdenied]
          refine ⟨fun ⟨_, h⟩ => (nomatch h), fun ⟨hpassable, _⟩ => ?_⟩
          rcases hpassable with hclosed | ⟨hopen, -⟩
          · exact absurd (Except.error.inj (hsearch.symm.trans hclosed)) hdenied
          · cases hsearch.symm.trans hopen
      | ok =>
        rw [sourcesBelow_of_open hdepth hsearch, exists_map_eq_ok_iff, exists_mapM_eq_ok_iff]
        constructor
        · intro h
          have hname {name : Text} (hmem : name ∈ fs.namesIn place.location) :=
            exists_sourcesAt_iff.1 (h name (Text.mem_sort.2 hmem))
          refine ⟨.inr ⟨hsearch, fun name hmem => (hname hmem).1⟩, fun name next hstep => ?_⟩
          obtain ⟨node, hnode, -⟩ := (Option.any_eq_true _ _).1 hstep.isDirectory
          apply (ih name next node hstep.enter hnode).1
          exact (hname hstep.mem).2 next hstep.enter hstep.isDirectory hstep.excludes
        · rintro ⟨hpassable, hbelow⟩ name hmem
          have hmem := Text.mem_sort.1 hmem
          rcases hpassable with hclosed | ⟨-, hlinks⟩
          · cases hsearch.symm.trans hclosed
          · refine exists_sourcesAt_iff.2 ⟨hlinks name hmem, fun next henter hdirectory hexcludes => ?_⟩
            obtain ⟨node, hnode, -⟩ := (Option.any_eq_true _ _).1 hdirectory
            apply (ih name next node henter hnode).2
            exact hbelow name next ⟨hsearch, hmem, henter, hdirectory, hexcludes⟩

end FileSystem

end DirectiveIndex
