import ShaderNodes.Roster

/-!
# Looking up entries of a roster

A roster has at most one entry under a key, so looking up a key finds exactly the entry that is
listed under it. Putting an entry changes what is found under its own key and nothing else, and it
lengthens the list of keys only if its key is new.

* `Roster.get?_eq_some_iff`: what a lookup finds;
* `Roster.get?_put`, `Roster.keys_put`: lookups and keys after an entry has been put;
* `Roster.get?_erase`: lookups after an entry has been removed;
* `Roster.mem_keys_ofList`: the keys of a roster made from a list;
* `Roster.ofList_entries`: a roster is made from its own entries;
* `Roster.ext_of_keys`: rosters with the same keys in the same order and the same lookups are equal.
-/

namespace ShaderNodes

namespace Roster

universe u v

variable {α : Type u} {κ : Type v} [Keyed α κ]

theorem keys_nodup (r : Roster α) : r.keys.Nodup := r.nodup_keys

theorem key_mem_keys {r : Roster α} {x : α} (h : x ∈ r.entries) : key x ∈ r.keys :=
  List.mem_map.2 ⟨x, h, rfl⟩

/-- Entries under one key are equal. -/
theorem eq_of_key_eq {r : Roster α} {x y : α} (hx : x ∈ r.entries) (hy : y ∈ r.entries)
    (h : key x = key y) : x = y := by
  have hnodup := r.nodup_keys
  generalize r.entries = es at hx hy hnodup
  induction es with
  | nil => simp at hx
  | cons e es ih =>
    simp only [List.map_cons, List.nodup_cons, List.mem_map, not_exists, not_and] at hnodup
    rcases List.mem_cons.1 hx with rfl | hx'
    · rcases List.mem_cons.1 hy with rfl | hy'
      · rfl
      · exact absurd h.symm (hnodup.1 y hy')
    · rcases List.mem_cons.1 hy with rfl | hy'
      · exact absurd h (hnodup.1 x hx')
      · exact ih hx' hy' hnodup.2

variable [DecidableEq κ]

theorem contains_iff_mem_keys (r : Roster α) (k : κ) : r.contains k = true ↔ k ∈ r.keys := by
  unfold contains keys
  simp only [List.any_eq_true, decide_eq_true_eq, List.mem_map]

/-! ## What a lookup finds -/

theorem mem_of_get? {r : Roster α} {k : κ} {x : α} (h : r.get? k = some x) :
    x ∈ r.entries ∧ key x = k :=
  ⟨List.mem_of_find?_eq_some h, by simpa using List.find?_some h⟩

theorem get?_eq_some_iff {r : Roster α} {k : κ} {x : α} :
    r.get? k = some x ↔ x ∈ r.entries ∧ key x = k := by
  refine ⟨mem_of_get?, ?_⟩
  rintro ⟨hx, rfl⟩
  cases hfound : r.get? (key x) with
  | none =>
    have hnone := List.find?_eq_none.1 hfound x hx
    simp at hnone
  | some y =>
    obtain ⟨hy, hkey⟩ := mem_of_get? hfound
    rw [eq_of_key_eq hy hx hkey]

theorem get?_key {r : Roster α} {x : α} (h : x ∈ r.entries) : r.get? (key x) = some x :=
  get?_eq_some_iff.2 ⟨h, rfl⟩

theorem mem_keys_iff {r : Roster α} {k : κ} : k ∈ r.keys ↔ ∃ x, r.get? k = some x := by
  constructor
  · intro h
    obtain ⟨x, hx, rfl⟩ := List.mem_map.1 h
    exact ⟨x, get?_key hx⟩
  · rintro ⟨x, hx⟩
    obtain ⟨hmem, rfl⟩ := mem_of_get? hx
    exact key_mem_keys hmem

/-! ## Putting an entry -/

theorem keys_put (r : Roster α) (x : α) :
    (r.put x).keys = if key x ∈ r.keys then r.keys else r.keys ++ [key x] := by
  by_cases h : key x ∈ r.keys
  · rw [if_pos h, keys, entries_put, if_pos ((contains_iff_mem_keys r _).2 h), List.map_map]
    refine List.map_congr_left fun e _ => ?_
    simp only [Function.comp_apply]
    split
    · next hkey => exact hkey.symm
    · rfl
  · rw [if_neg h, keys, entries_put, if_neg fun hc => h ((contains_iff_mem_keys r _).1 hc)]
    simp [keys]

theorem mem_keys_put {r : Roster α} {x : α} {k : κ} :
    k ∈ (r.put x).keys ↔ k ∈ r.keys ∨ key x = k := by
  rw [keys_put]
  split
  · next h => exact ⟨Or.inl, fun h' => h'.elim id fun he => he ▸ h⟩
  · simp [eq_comm]

theorem mem_put {r : Roster α} {x y : α} :
    y ∈ (r.put x).entries ↔ y = x ∨ y ∈ r.entries ∧ key y ≠ key x := by
  rw [entries_put]
  split
  · next h =>
    simp only [List.mem_map]
    constructor
    · rintro ⟨e, he, rfl⟩
      split
      · exact Or.inl rfl
      · next hne => exact Or.inr ⟨he, hne⟩
    · rintro (rfl | ⟨hy, hne⟩)
      · obtain ⟨e, he, hkey⟩ := List.any_eq_true.1 h
        exact ⟨e, he, if_pos (of_decide_eq_true hkey)⟩
      · exact ⟨y, hy, if_neg hne⟩
  · next h =>
    simp only [List.mem_append, List.mem_singleton]
    constructor
    · rintro (hy | rfl)
      · refine Or.inr ⟨hy, fun hkey => h ?_⟩
        exact (contains_iff_mem_keys r _).2 (hkey ▸ key_mem_keys hy)
      · exact Or.inl rfl
    · rintro (rfl | ⟨hy, -⟩)
      · exact Or.inr rfl
      · exact Or.inl hy

/-- A put entry is found under its key; lookups under other keys are as before. -/
theorem get?_put (r : Roster α) (x : α) (k : κ) :
    (r.put x).get? k = if k = key x then some x else r.get? k := by
  split
  · next h => exact get?_eq_some_iff.2 ⟨mem_put.2 (Or.inl rfl), h.symm⟩
  · next h =>
    refine Option.ext fun y => ?_
    rw [get?_eq_some_iff, get?_eq_some_iff, mem_put]
    constructor
    · rintro ⟨rfl | ⟨hy, -⟩, hkey⟩
      · exact absurd hkey.symm h
      · exact ⟨hy, hkey⟩
    · rintro ⟨hy, hkey⟩
      exact ⟨Or.inr ⟨hy, fun he => h (hkey.symm.trans he)⟩, hkey⟩

/-! ## Removing entries -/

theorem mem_erase {r : Roster α} {k : κ} {x : α} :
    x ∈ (r.erase k).entries ↔ x ∈ r.entries ∧ key x ≠ k := by
  unfold erase filter
  rw [List.mem_filter, decide_eq_true_iff]

theorem get?_erase (r : Roster α) (k k' : κ) :
    (r.erase k).get? k' = if k' = k then none else r.get? k' := by
  refine Option.ext fun x => ?_
  rw [get?_eq_some_iff, mem_erase]
  split
  · next h => simpa using fun _ hne hkey => hne (hkey.trans h)
  · next h =>
    rw [get?_eq_some_iff]
    exact ⟨fun ⟨⟨hx, _⟩, hkey⟩ => ⟨hx, hkey⟩, fun ⟨hx, hkey⟩ => ⟨⟨hx, hkey ▸ h⟩, hkey⟩⟩

/-! ## The order of entries -/

/-- Rosters with the same entries, in whatever order, answer lookups alike. -/
theorem get?_eq_of_mem_iff {r s : Roster α} (h : ∀ x, x ∈ r.entries ↔ x ∈ s.entries) (k : κ) :
    r.get? k = s.get? k := by
  refine Option.ext fun x => ?_
  rw [get?_eq_some_iff, get?_eq_some_iff, h]

/-- Putting an entry changes a part of the list only if entries under its key belong to it. -/
theorem filter_entries_put (r : Roster α) {x : α} {p : α → Bool}
    (h : ∀ y, key y = key x → p y = false) :
    (r.put x).entries.filter p = r.entries.filter p := by
  rw [entries_put]
  split
  · rw [List.filter_map]
    have hsame : ∀ e ∈ r.entries.filter (p ∘ fun e => if key e = key x then x else e),
        (if key e = key x then x else e) = e := by
      intro e he
      have hp := (List.mem_filter.1 he).2
      simp only [Function.comp_apply] at hp
      split at hp
      · rw [h x rfl] at hp
        cases hp
      · next hne => exact if_neg hne
    rw [List.map_congr_left hsame, List.map_id']
    refine List.filter_congr fun e _ => ?_
    simp only [Function.comp_apply]
    split
    · next hkey => rw [h x rfl, h e hkey]
    · rfl
  · rw [List.filter_append, List.filter_cons_of_neg (by simp [h x rfl]), List.filter_nil,
      List.append_nil]

theorem filter_entries_erase (r : Roster α) {k : κ} {p : α → Bool}
    (h : ∀ y, key y = k → p y = false) :
    (r.erase k).entries.filter p = r.entries.filter p := by
  unfold erase filter
  rw [List.filter_filter]
  refine List.filter_congr fun e _ => ?_
  by_cases hkey : key e = k
  · simp [h e hkey]
  · simp [hkey]

/-! ## Rosters made from lists -/

theorem mem_keys_putAll {r : Roster α} {xs : List α} {k : κ} :
    k ∈ (r.putAll xs).keys ↔ k ∈ r.keys ∨ ∃ x ∈ xs, key x = k := by
  unfold putAll
  induction xs generalizing r with
  | nil => simp
  | cons x xs ih =>
    rw [List.foldl_cons, ih, mem_keys_put]
    simp only [List.mem_cons, exists_eq_or_imp, or_assoc]

theorem mem_keys_ofList {xs : List α} {k : κ} : k ∈ (ofList xs).keys ↔ ∃ x ∈ xs, key x = k := by
  unfold ofList
  rw [mem_keys_putAll]
  simp [keys]

/-- What holds of all listed entries holds of what is found. -/
theorem mem_of_mem_putAll {r : Roster α} {xs : List α} {x : α} (h : x ∈ (r.putAll xs).entries) :
    x ∈ r.entries ∨ x ∈ xs := by
  unfold putAll at h
  induction xs generalizing r with
  | nil => exact Or.inl h
  | cons y ys ih =>
    rcases ih h with h' | h'
    · rcases mem_put.1 h' with rfl | ⟨h'', -⟩
      · exact Or.inr List.mem_cons_self
      · exact Or.inl h''
    · exact Or.inr (List.mem_cons_of_mem _ h')

theorem mem_of_mem_ofList {xs : List α} {x : α} (h : x ∈ (ofList xs).entries) : x ∈ xs := by
  rcases mem_of_mem_putAll h with h' | h'
  · simp at h'
  · exact h'

/-- Entries under new keys are appended in order. -/
theorem entries_putAll {r : Roster α} {xs : List α} (h : (r.keys ++ xs.map key).Nodup) :
    (r.putAll xs).entries = r.entries ++ xs := by
  unfold putAll
  induction xs generalizing r with
  | nil => simp
  | cons x xs ih =>
    have hnew : key x ∉ r.keys := fun hmem =>
      (List.nodup_append.1 h).2.2 _ hmem (key x) (by simp) rfl
    have hcontains : ¬ r.contains (key x) = true := fun hc =>
      hnew ((contains_iff_mem_keys r _).1 hc)
    have hkeys : ((r.put x).keys ++ xs.map key).Nodup := by
      rw [keys_put, if_neg hnew, List.append_assoc]
      exact h
    rw [List.foldl_cons, ih hkeys, entries_put, if_neg hcontains, List.append_assoc]
    rfl

theorem ofList_entries (r : Roster α) : ofList r.entries = r := by
  refine ext ?_
  have h : ((empty : Roster α).keys ++ r.entries.map key).Nodup := r.nodup_keys
  exact entries_putAll h

/-! ## Rosters by their keys -/

theorem filterMap_get?_keys (r : Roster α) : r.keys.filterMap r.get? = r.entries := by
  have hfound : ∀ x ∈ r.entries, (r.get? ∘ key) x = some x := fun x hx => get?_key hx
  unfold keys
  rw [List.filterMap_map]
  generalize r.entries = es at hfound
  induction es with
  | nil => rfl
  | cons e es ih =>
    rw [List.filterMap_cons_some (hfound e List.mem_cons_self),
      ih fun x hx => hfound x (List.mem_cons_of_mem e hx)]

/-- A roster is given by the order of its keys and by what is found under them. -/
theorem ext_of_keys {r s : Roster α} (hkeys : r.keys = s.keys) (h : ∀ k, r.get? k = s.get? k) :
    r = s := by
  apply ext
  rw [← filterMap_get?_keys r, ← filterMap_get?_keys s, hkeys, funext h]

/-- Of the entries under one key the last one is found. -/
theorem get?_putAll (r : Roster α) (xs : List α) (k : κ) :
    (r.putAll xs).get? k = (xs.reverse.find? fun x => key x = k).or (r.get? k) := by
  unfold putAll
  induction xs generalizing r with
  | nil => rfl
  | cons x xs ih =>
    rw [List.foldl_cons, ih, get?_put, List.reverse_cons, List.find?_append, Option.or_assoc]
    by_cases h : key x = k
    · simp [h]
    · simp [h, Ne.symm h]

end Roster

end ShaderNodes
