namespace DirectiveIndex

variable {ε α β : Type}

/-- Two steps succeed if the first does and the second does with its result. -/
theorem bind_eq_ok_iff {step : Except ε α} {next : α → Except ε β} {b : β} :
    (step >>= next) = .ok b ↔ ∃ a, step = .ok a ∧ next a = .ok b := by
  cases step with
  | error cause => exact ⟨nofun, nofun⟩
  | ok a => exact ⟨fun h => ⟨a, rfl, h⟩, fun ⟨_, ha, h⟩ => by cases ha; exact h⟩

/-- A result that is changed comes from one that is not. -/
theorem map_eq_ok_iff {step : Except ε α} {f : α → β} {b : β} : step.map f = .ok b ↔ ∃ a, step = .ok a ∧ f a = b := by
  cases step with
  | error cause => exact ⟨nofun, nofun⟩
  | ok a => exact ⟨fun h => ⟨a, rfl, Except.ok.inj h⟩, fun ⟨_, ha, h⟩ => by cases ha; exact congrArg _ h⟩

/-- Naming the errors differently leaves the results. -/
theorem mapError_eq_ok_iff {ε' : Type} {step : Except ε α} {f : ε → ε'} {a : α} :
    step.mapError f = .ok a ↔ step = .ok a := by
  cases step with
  | error cause => exact ⟨nofun, nofun⟩
  | ok b => exact ⟨fun h => congrArg _ (Except.ok.inj h), fun h => congrArg _ (Except.ok.inj h)⟩

/-- What is made of a result does not matter to whether there is one. -/
theorem exists_map_eq_ok_iff {step : Except ε α} {f : α → β} :
    (∃ b, step.map f = .ok b) ↔ ∃ a, step = .ok a := by
  constructor
  · rintro ⟨b, h⟩
    obtain ⟨a, ha, -⟩ := map_eq_ok_iff.1 h
    exact ⟨a, ha⟩
  · rintro ⟨a, ha⟩
    exact ⟨f a, map_eq_ok_iff.2 ⟨a, ha, rfl⟩⟩

variable {step : α → Except ε β} {list : List α}

/-- A list of steps succeeds with the results of all of them. -/
theorem mapM_eq_ok_iff {results : List β} : list.mapM step = .ok results ↔ list.map step = results.map .ok := by
  induction list generalizing results with
  | nil =>
    rw [List.mapM_nil, List.map_nil, eq_comm (a := []), List.map_eq_nil_iff]
    exact ⟨fun h => (Except.ok.inj h).symm, fun h => h ▸ rfl⟩
  | cons a list ih =>
    rw [List.mapM_cons, bind_eq_ok_iff, List.map_cons]
    constructor
    · rintro ⟨b, hb, h⟩
      obtain ⟨others, hothers, h⟩ := bind_eq_ok_iff.1 h
      rw [← Except.ok.inj h, hb, ih.1 hothers, List.map_cons]
    · intro h
      cases results with
      | nil => exact nomatch h
      | cons b others =>
        obtain ⟨hb, hothers⟩ := List.cons.inj h
        exact ⟨b, hb, bind_eq_ok_iff.2 ⟨others, ih.2 hothers, rfl⟩⟩

/-- Steps that all succeed succeed together. -/
theorem mapM_of_forall {result : α → β} (h : ∀ a ∈ list, step a = .ok (result a)) :
    list.mapM step = .ok (list.map result) := by
  rw [mapM_eq_ok_iff, List.map_map]
  exact List.map_congr_left h

/-- A list of steps succeeds if all of them do. -/
theorem exists_mapM_eq_ok_iff : (∃ results, list.mapM step = .ok results) ↔ ∀ a ∈ list, ∃ b, step a = .ok b := by
  constructor
  · rintro ⟨results, h⟩ a ha
    have hmem := List.mem_map_of_mem (f := step) ha
    rw [mapM_eq_ok_iff.1 h] at hmem
    obtain ⟨b, -, hb⟩ := List.mem_map.1 hmem
    exact ⟨b, hb.symm⟩
  · intro h
    induction list with
    | nil => exact ⟨[], rfl⟩
    | cons a list ih =>
      obtain ⟨b, hb⟩ := h a List.mem_cons_self
      obtain ⟨others, hothers⟩ := ih fun a ha => h a (List.mem_cons_of_mem _ ha)
      refine ⟨b :: others, mapM_eq_ok_iff.2 ?_⟩
      rw [List.map_cons, List.map_cons, hb, mapM_eq_ok_iff.1 hothers]

/-- The result of each step is among the results. -/
theorem mem_of_mapM_eq_ok {results : List β} {a : α} {b : β} (h : list.mapM step = .ok results) (ha : a ∈ list)
    (hb : step a = .ok b) : b ∈ results := by
  have hmem := List.mem_map_of_mem (f := step) ha
  rw [mapM_eq_ok_iff.1 h, hb] at hmem
  obtain ⟨b', hb', heq⟩ := List.mem_map.1 hmem
  exact Except.ok.inj heq ▸ hb'

/-- Each result is that of one of the steps. -/
theorem exists_of_mem_mapM_eq_ok {results : List β} {b : β} (h : list.mapM step = .ok results) (hb : b ∈ results) :
    ∃ a ∈ list, step a = .ok b := by
  have hmem : Except.ok b ∈ list.map step := mapM_eq_ok_iff.1 h ▸ List.mem_map_of_mem hb
  exact List.mem_map.1 hmem

/-- What is in one of the results is in the result of one of the steps. -/
theorem mem_flatten_of_mapM_eq_ok {step : α → Except ε (List β)} {results : List (List β)}
    (h : list.mapM step = .ok results) {b : β} :
    b ∈ results.flatten ↔ ∃ a ∈ list, ∃ found, step a = .ok found ∧ b ∈ found := by
  rw [List.mem_flatten]
  constructor
  · rintro ⟨found, hfound, hb⟩
    obtain ⟨a, ha, heq⟩ := exists_of_mem_mapM_eq_ok h hfound
    exact ⟨a, ha, found, heq, hb⟩
  · rintro ⟨a, ha, found, heq, hb⟩
    exact ⟨found, mem_of_mapM_eq_ok h ha heq, hb⟩

/-- What relates any two elements of a list relates the results of their steps, if each step keeps it. -/
theorem pairwise_of_mapM_eq_ok {results : List β} {before : α → α → Prop} {after : β → β → Prop}
    (h : list.mapM step = .ok results) (hlist : list.Pairwise before)
    (hstep : ∀ a ∈ list, ∀ a' ∈ list, ∀ b b', before a a' → step a = .ok b → step a' = .ok b' → after b b') :
    results.Pairwise after := by
  have hpairs : (list.map step).Pairwise fun x y => ∀ b b', x = .ok b → y = .ok b' → after b b' :=
    List.pairwise_map.2 (hlist.imp_of_mem fun ha ha' hbefore b b' hb hb' => hstep _ ha _ ha' b b' hbefore hb hb')
  rw [mapM_eq_ok_iff.1 h, List.pairwise_map] at hpairs
  exact hpairs.imp fun hafter => hafter _ _ rfl rfl

end DirectiveIndex
