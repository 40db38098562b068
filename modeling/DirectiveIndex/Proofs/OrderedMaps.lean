import DirectiveIndex.OrderedMap

namespace DirectiveIndex.OrderedMap

variable {κ α : Type} [BEq κ] [LawfulBEq κ] {key other : κ} {value : α} {entries : OrderedMap κ α}

/-- A new key is put last. -/
theorem put_of_not_mem (h : key ∉ keys entries) : put key value entries = entries ++ [(key, value)] := by
  induction entries with
  | nil => rfl
  | cons entry entries ih =>
    simp only [keys, List.map_cons, List.mem_cons, not_or] at h
    rw [put, if_neg (by simpa using Ne.symm h.1), ih h.2]
    rfl

/-- Putting a key that is there leaves the keys as they are. -/
theorem keys_put_of_mem (h : key ∈ keys entries) : keys (put key value entries) = keys entries := by
  induction entries with
  | nil => cases h
  | cons entry entries ih =>
    rw [put]
    split
    · rename_i heq
      exact congrArg (· :: keys entries) (beq_iff_eq.1 heq).symm
    · rename_i hne
      simp only [keys, List.map_cons, List.mem_cons] at h
      refine congrArg (entry.1 :: ·) (ih (h.resolve_left fun heq => hne ?_))
      simp [heq]

/-- A map keeps its keys different. -/
theorem nodup_keys_put (h : (keys entries).Nodup) : (keys (put key value entries)).Nodup := by
  by_cases hkey : key ∈ keys entries
  · rwa [keys_put_of_mem hkey]
  · have hdifferent : ∀ k ∈ keys entries, ∀ k' ∈ [key], k ≠ k' := by
      intro k hk k' hk' heq
      exact hkey (List.mem_singleton.1 hk' ▸ heq ▸ hk)
    rw [put_of_not_mem hkey, keys, List.map_append]
    exact List.nodup_append.2 ⟨h, List.pairwise_singleton _ _, hdifferent⟩

/-- An entry of another key is passed over. -/
theorem lookup_cons_of_ne (h : other ≠ key) : List.lookup other ((key, value) :: entries) = entries.lookup other := by
  rw [List.lookup_cons, beq_false_of_ne h]

/-- What is put is found. -/
theorem lookup_put_self : (put key value entries).lookup key = some value := by
  induction entries with
  | nil => exact List.lookup_cons_self
  | cons entry entries ih =>
    rw [put]
    split
    · exact List.lookup_cons_self
    · rename_i hne
      rw [lookup_cons_of_ne fun heq => hne (beq_iff_eq.2 heq.symm), ih]

/-- Putting a key leaves all others alone. -/
theorem lookup_put_of_ne (h : other ≠ key) : (put key value entries).lookup other = entries.lookup other := by
  induction entries with
  | nil => exact lookup_cons_of_ne h
  | cons entry entries ih =>
    obtain ⟨k, v⟩ := entry
    rw [put]
    split
    · rename_i heq
      have hk : k = key := beq_iff_eq.1 heq
      rw [lookup_cons_of_ne h, lookup_cons_of_ne (hk ▸ h)]
    · rw [List.lookup_cons, List.lookup_cons, ih]

/-- An erased key is gone. -/
theorem lookup_erase_self : (erase key entries).lookup key = none := by
  refine List.lookup_eq_none_iff.2 fun entry hentry => ?_
  have hne : entry.1 ≠ key := by simpa using (List.mem_filter.1 hentry).2
  exact bne_iff_ne.2 (Ne.symm hne)

/-- Erasing a key leaves all others alone. -/
theorem lookup_erase_of_ne (h : other ≠ key) : (erase key entries).lookup other = entries.lookup other := by
  induction entries with
  | nil => rfl
  | cons entry entries ih =>
    obtain ⟨k, v⟩ := entry
    by_cases hk : k = key
    · rw [erase, List.filter_cons_of_neg (by simp [hk]), lookup_cons_of_ne (hk ▸ h)]
      exact ih
    · rw [erase, List.filter_cons_of_pos (by simp [hk]), List.lookup_cons, List.lookup_cons]
      split
      · rfl
      · exact ih

omit [LawfulBEq κ] in
/-- Erasing takes out one key and leaves the order of the others. -/
theorem keys_erase : keys (erase key entries) = (keys entries).filter (· != key) := by
  rw [keys, keys, erase, List.filter_map]
  rfl

/-- The keys are those with a value. -/
theorem mem_keys_iff : key ∈ keys entries ↔ ∃ value, entries.lookup key = some value := by
  induction entries with
  | nil => simp [keys]
  | cons entry entries ih =>
    obtain ⟨k, v⟩ := entry
    by_cases hk : key = k
    · simp [keys, hk, List.lookup_cons_self]
    · rw [lookup_cons_of_ne hk, ← ih]
      simp [keys, hk]

/-- In a map with different keys every pair is found by its key. -/
theorem lookup_of_mem (hnodup : (keys entries).Nodup) (h : (key, value) ∈ entries) :
    entries.lookup key = some value := by
  induction entries with
  | nil => cases h
  | cons entry entries ih =>
    obtain ⟨k, v⟩ := entry
    obtain ⟨hnot, hrest⟩ := List.nodup_cons.1 hnodup
    rcases List.mem_cons.1 h with heq | hmem
    · obtain ⟨rfl, rfl⟩ := Prod.mk.inj heq
      exact List.lookup_cons_self
    · have hkey : key ∈ keys entries := List.mem_map_of_mem (f := (·.1)) hmem
      have hne : key ≠ k := fun heq => hnot (heq ▸ hkey)
      rw [lookup_cons_of_ne hne, ih hrest hmem]

/-- Where no key is repeated, the entries are what is found. -/
theorem mem_iff_lookup (hnodup : (keys entries).Nodup) : (key, value) ∈ entries ↔ entries.lookup key = some value := by
  refine ⟨lookup_of_mem hnodup, fun h => ?_⟩
  obtain ⟨before, after, rfl, -⟩ := List.lookup_eq_some_iff.1 h
  exact List.mem_append_right before List.mem_cons_self

omit [BEq κ] [LawfulBEq κ] in
/-- Entries of distinct keys are distinct. -/
theorem nodup_of_keys (h : (keys entries).Nodup) : entries.Nodup :=
  List.Pairwise.of_map (·.1) (fun _ _ hne heq => hne (congrArg (·.1) heq)) h

/-- Two maps in which everything is looked up alike differ in their order only. -/
theorem perm_of_lookup_eq {first second : OrderedMap κ α} (hfirst : (keys first).Nodup) (hsecond : (keys second).Nodup)
    (h : ∀ key, first.lookup key = second.lookup key) : first.Perm second := by
  refine (List.perm_ext_iff_of_nodup (nodup_of_keys hfirst) (nodup_of_keys hsecond)).2 fun entry => ?_
  rw [mem_iff_lookup hfirst, mem_iff_lookup hsecond, h]

/-- A map with different keys is its keys with what is found under them. -/
theorem map_keys_lookup (hnodup : (keys entries).Nodup) (default : α) :
    (keys entries).map (fun key => (key, (entries.lookup key).getD default)) = entries := by
  rw [keys, List.map_map]
  refine (List.map_congr_left fun entry hentry => ?_).trans (List.map_id entries)
  rw [Function.comp_apply, lookup_of_mem hnodup hentry]
  rfl

/-- A map that is built from a list has no key twice. -/
theorem nodup_keys_ofList (list : List (κ × α)) : (keys (ofList list)).Nodup := by
  have hfold (map : OrderedMap κ α) (h : (keys map).Nodup) :
      (keys (list.foldl (fun map entry => put entry.1 entry.2 map) map)).Nodup := by
    induction list generalizing map with
    | nil => exact h
    | cons entry list ih => exact ih _ (nodup_keys_put h)
  exact hfold [] List.nodup_nil

/-- A map made from a list has the last value of each key. -/
theorem lookup_ofList (list : List (κ × α)) : (ofList list).lookup key = list.reverse.lookup key := by
  have hfold (map : OrderedMap κ α) :
      (list.foldl (fun map entry => put entry.1 entry.2 map) map).lookup key =
        (list.reverse.lookup key).or (map.lookup key) := by
    induction list generalizing map with
    | nil => rfl
    | cons entry list ih =>
      obtain ⟨k, v⟩ := entry
      rw [List.foldl_cons, ih, List.reverse_cons, List.lookup_append, Option.or_assoc]
      by_cases hk : key = k
      · rw [hk, lookup_put_self, List.lookup_cons_self]
        rfl
      · rw [lookup_put_of_ne hk, lookup_cons_of_ne hk]
        rfl
  exact (hfold []).trans (Option.or_none)

/-- The map made from a list is the list if and only if the keys of the list differ. -/
theorem ofList_eq_self_iff {list : List (κ × α)} : ofList list = list ↔ (list.map (·.1)).Nodup := by
  refine ⟨fun h => ?_, fun h => ?_⟩
  · have hnodup := nodup_keys_ofList list
    rwa [h] at hnodup
  · have hfold (map : OrderedMap κ α) (hmap : (keys map ++ list.map (·.1)).Nodup) :
        list.foldl (fun map entry => put entry.1 entry.2 map) map = map ++ list := by
      clear h
      induction list generalizing map with
      | nil => simp
      | cons entry list ih =>
        have hnot : entry.1 ∉ keys map := by
          intro hmem
          exact (List.nodup_append.1 hmap).2.2 _ hmem _ List.mem_cons_self rfl
        rw [List.foldl_cons, put_of_not_mem hnot, ih _ ?_, List.append_assoc, List.singleton_append]
        rw [keys, List.map_append, List.append_assoc]
        exact hmap
    exact hfold [] h

end DirectiveIndex.OrderedMap
