import LiveScene.Dict

/-!
# LiveScene.Proofs.Dict

Look-ups in lists of entries that are put together, sorted or changed.
-/

namespace LiveScene

section Entries

universe u

variable {α : Type u}

@[simp] theorem lookupEntry_nil (name : String) :
    lookupEntry name ([] : List (String × α)) = none := rfl

@[simp] theorem lookupEntry_cons_self (name : String) (a : α) (r : List (String × α)) :
    lookupEntry name ((name, a) :: r) = some a := by
  simp [lookupEntry]

/-- Entries of other names are passed over. -/
@[simp] theorem lookupEntry_cons_of_ne {name other : String} (h : name ≠ other) (a : α)
    (r : List (String × α)) : lookupEntry name ((other, a) :: r) = lookupEntry name r := by
  simp [lookupEntry, h]

theorem names_append (xs ys : List (String × α)) : names (xs ++ ys) = names xs ++ names ys :=
  List.map_append

@[simp] theorem lookupEntry_append (name : String) (xs ys : List (String × α)) :
    lookupEntry name (xs ++ ys) = (lookupEntry name xs).or (lookupEntry name ys) := by
  induction xs with
  | nil => simp [lookupEntry]
  | cons e r ih =>
      by_cases h : name = e.1
      · simp [lookupEntry, h]
      · simp [lookupEntry, h, ih]

theorem nodup_of_ascending {entries : List (String × α)}
    (h : (names entries).Pairwise (· < ·)) : (names entries).Nodup := by
  refine h.imp ?_
  intro a b hlt heq
  subst heq
  exact String.lt_irrefl a hlt

/-- The order of entries does not matter, if no name is repeated. -/
theorem lookupEntry_perm {xs ys : List (String × α)} (h : xs.Perm ys) (hnodup : (names xs).Nodup)
    (name : String) : lookupEntry name xs = lookupEntry name ys := by
  induction h with
  | nil => rfl
  | cons e _ ih =>
      rw [names_cons, List.nodup_cons] at hnodup
      rw [lookupEntry, lookupEntry, ih hnodup.2]
  | swap d e r =>
      have hne : e.1 ≠ d.1 := by
        rw [names_cons, names_cons, List.nodup_cons, List.mem_cons, not_or] at hnodup
        exact hnodup.1.1
      by_cases hname : name = d.1
      · subst hname
        simp [lookupEntry, Ne.symm hne]
      · simp [lookupEntry, hname]
  | trans hxy _ ih ih' =>
      exact (ih hnodup).trans (ih' ((hxy.map Prod.fst).nodup_iff.mp hnodup))

/-- Sorting keeps what is looked up, if no name is repeated. -/
theorem lookupEntry_sortEntries {entries : List (String × α)} (h : (names entries).Nodup)
    (name : String) : lookupEntry name (sortEntries entries) = lookupEntry name entries := by
  suffices key : ∀ sorted : List (String × α),
      lookupEntry name (entries.foldl (fun sorted e => insertEntry e.1 e.2 sorted) sorted) =
        (lookupEntry name entries).or (lookupEntry name sorted) by
    exact (key []).trans Option.or_none
  induction entries with
  | nil => exact fun sorted => rfl
  | cons e r ih =>
      rw [names_cons, List.nodup_cons] at h
      intro sorted
      rw [List.foldl_cons, ih h.2, lookupEntry_insertEntry, lookupEntry]
      by_cases hname : name = e.1
      · rw [if_pos hname, if_pos hname, hname, lookupEntry_eq_none_of_not_mem h.1]
        rfl
      · rw [if_neg hname, if_neg hname]

theorem Dict.get?_ofList {entries : List (String × α)} (h : (names entries).Nodup)
    (name : String) : (Dict.ofList entries).get? name = lookupEntry name entries :=
  lookupEntry_sortEntries h name

/-- A map is that of its entries. -/
theorem Dict.ofList_entries (d : Dict α) : Dict.ofList d.entries = d :=
  Dict.ext_get? fun name => Dict.get?_ofList (nodup_of_ascending d.ascending) name

theorem Dict.mem_values_iff {d : Dict α} {value : α} :
    value ∈ d.values ↔ ∃ name, d.get? name = some value := by
  rw [values, List.mem_map]
  constructor
  · rintro ⟨e, he, rfl⟩
    exact ⟨e.1, mem_entries_iff.mp he⟩
  · rintro ⟨name, hget⟩
    exact ⟨(name, value), mem_entries_iff.mpr hget, rfl⟩

theorem Dict.get?_mapValues {β : Type u} (f : String → α → β) (d : Dict α) (name : String) :
    (d.mapValues f).get? name = (d.get? name).map (f name) := by
  obtain ⟨entries, ascending⟩ := d
  induction entries with
  | nil => rfl
  | cons e r ih =>
      have hrest := ih (List.pairwise_cons.mp ascending).2
      simp only [Dict.get?, Dict.mapValues, List.map_cons, lookupEntry] at hrest ⊢
      by_cases h : name = e.1
      · simp [h]
      · simpa [h] using hrest

/-- Entries of different names that are put into a map. -/
theorem Dict.get?_foldl_insert {entries : List (String × α)} (h : (names entries).Nodup)
    (d : Dict α) (name : String) :
    (entries.foldl (fun merged e => merged.insert e.1 e.2) d).get? name =
      (lookupEntry name entries).or (d.get? name) := by
  induction entries generalizing d with
  | nil => exact Option.none_or.symm
  | cons e r ih =>
      rw [names_cons, List.nodup_cons] at h
      rw [List.foldl_cons, ih h.2, Dict.get?_insert, lookupEntry]
      by_cases hname : name = e.1
      · rw [if_pos hname, if_pos hname, hname, lookupEntry_eq_none_of_not_mem h.1]
        rfl
      · rw [if_neg hname, if_neg hname]

/-- What a patch has counts, and else what was there. -/
theorem Dict.get?_merge (d patch : Dict α) (name : String) :
    (d.merge patch).get? name = (patch.get? name).or (d.get? name) :=
  Dict.get?_foldl_insert (nodup_of_ascending patch.ascending) d name

end Entries

end LiveScene
